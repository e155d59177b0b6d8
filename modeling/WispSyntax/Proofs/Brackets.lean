import WispSyntax.Proofs.Hosting

/-!
Where the descent and the stack agree on expressions, they agree on what stands in braces
(`readOn_content`) and in parentheses (`readOn_entries`).
-/

namespace WispSyntax

open WispSyntax.Parser

namespace Builder

variable {α : Type} [LineSupplier α] {s : Session α} {contexts : List Construct} {n steps : Nat}
variable {expressions : Budget → Builder α (List Node)}

section
variable {header : Option Header} {place : Location} {stack : List Frame} {program : Sequence}

-- At its end, a line in braces has done all it could to the nodes that stand there.
theorem readOn_settle {settled recent : List Node} (atEnd : s.AtEnd)
    (inside : s.contexts.head? = some .block)
    (constructs : ∀ content,
      State.constructs ⟨.anything, .block header place content :: stack, program⟩ = s.contexts) :
    s.readOn (.ok ⟨.anything, .block header place ⟨settled, recent⟩ :: stack, program⟩) =
      s.readOn
        (.ok ⟨.anything, .block header place ⟨recent ++ settled, []⟩ :: stack, program⟩) := by
  rcases rest_eq : s.rest with _ | ⟨l, lexemes⟩
  case nil  => exact Session.readOn_congr_of_nil rest_eq rfl
  case cons =>
    have closes := atEnd l (by simp [rest_eq])
    have step (content : Sequence) :
        State.step ⟨.anything, .block header place content :: stack, program⟩ l =
          State.closeBlock ⟨.anything, stack, program⟩ header place content := by
      rw [State.step_eq_close rfl rfl (constructs _) closes]
      rw [inside, closesIn_block] at closes
      rw [closes]
      rfl
    refine Session.readOn_of_step_eq rest_eq ?_
    rw [step, step]
    rfl

-- Where the expressions of one line in braces stand.
theorem hosts_content (nodes : List Node) {l : Lexeme} {lexemes : List Lexeme}
    {k : List Node → Session α → Outcome}
    (constructs : ∀ content,
      State.constructs ⟨.anything, .block header place content :: stack, program⟩ = contexts)
    (inside : contexts.head? = some .block) (fits : s.Fits contexts (n + 1))
    (rest_eq : s.rest = l :: lexemes) (opens : l.token ≠ .closeBrace)
    (next : ∀ nodes t, t.Fits contexts n → t.readOn
      (.ok ⟨.anything, .block header place ⟨nodes, []⟩ :: stack, program⟩) = k nodes t) :
    Hosts s contexts (fun budget _ => budget = .unbounded)
      (fun _ more => ⟨.anything, .block header place ⟨nodes, more⟩ :: stack, program⟩)
      (fun more => k (more ++ nodes)) := by
  refine .unbounded (fun _ => rfl) (fun _ => constructs _) (by rintro (_ | _) <;> rfl)
    (fun _ _ => rfl) fun more t yields atEnd => ?_
  rcases yields with _ | ⟨-, fits', -⟩
  case nothing =>
    have closes := atEnd l (by simp [rest_eq])
    rw [fits.contexts_eq, inside, closesIn_block] at closes
    exact absurd closes opens
  case nodes =>
    have fits' := fits'.mono (Nat.le_of_lt_succ fits.size_lt)
    rw [readOn_settle atEnd (by rw [fits'.contexts_eq, inside])
      (by rw [fits'.contexts_eq]; exact constructs)]
    exact next _ t fits'

theorem readOn_content [LawfulSupplier α] (h : Agrees expressions steps)
    (constructs : ∀ content,
      State.constructs ⟨.anything, .block header place content :: stack, program⟩ = contexts)
    (inside : contexts.head? = some .block) {m : Nat} {nodes : List Node}
    {k : List Node → Session α → Outcome} (le : n ≤ steps) (le' : n ≤ m) (fits : s.Fits contexts n)
    (next : ∀ nodes t, t.Fits contexts n → t.readOn
      (State.closeBlock ⟨.anything, stack, program⟩ header place ⟨nodes, []⟩) = k nodes t) :
    s.readOn (.ok ⟨.anything, .block header place ⟨nodes, []⟩ :: stack, program⟩) =
      (content expressions steps m nodes).outcome k s := by
  induction n generalizing s m nodes
  case zero => exact absurd fits.size_lt (Nat.not_lt_zero _)
  case succ n hi =>
    obtain ⟨m, rfl⟩ := (fits.mono le').exists_succ
    rw [content, outcome_bind]
    refine readOn_skipToToken (fun _ => rfl) rfl le fits fun l lexemes t rest_eq fits => ?_
    rw [outcome_bind]
    by_cases closing : l.token = .closeBrace
    case pos =>
      rw [← closing, outcome_eat rest_eq, if_pos rfl, outcome_pure, Session.readOn_step rest_eq]
      rw [← next nodes _ ((fits.consume rest_eq).mono (Nat.le_succ n))]
      congr 1
      have closes : closesIn contexts.head? l.token := by rwa [inside, closesIn_block]
      rw [State.step_eq_close rfl rfl (constructs _) closes, closing]
      rfl
    case neg =>
      rw [outcome_eat_of_ne (by simp [rest_eq, closing]), if_neg Bool.false_ne_true, outcome_bind]
      have follow (nodes : List Node) (u : Session α) (fits' : u.Fits contexts n) :
          u.readOn (.ok ⟨.anything, .block header place ⟨nodes, []⟩ :: stack, program⟩) =
            (content expressions steps m nodes).outcome k u :=
        hi (Nat.le_of_succ_le le) (Nat.le_of_succ_le_succ le') fits' fun nodes t fits =>
          next nodes t (fits.mono (Nat.le_succ n))
      have hosts := hosts_content nodes constructs inside fits rest_eq closing follow
      exact h hosts rfl (by simp [Budget.isSpent]) (fits.mono le) fun _ _ _ => rfl

-- A block, wherever the stack waits for one or may go on with one.
theorem readOn_block [LawfulSupplier α] (h : Agrees expressions steps) {q : State} {l : Lexeme}
    {lexemes : List Lexeme} {k : Node → Session α → Outcome}
    (constructs : ∀ content,
      State.constructs ⟨.anything, .block header place content :: stack, program⟩ =
        .block :: contexts)
    (le : n ≤ steps) (fits : s.Fits contexts (n + 1)) (rest_eq : s.rest = l :: lexemes)
    (opens : l.token = .openBrace →
      q.step l = .ok ⟨.anything, .openBlock header place :: stack, program⟩)
    (fails : l.token ≠ .openBrace → q.step l = .error { fault := .missingBrace, place := l.start })
    (next : ∀ nodes t, t.Fits contexts n →
      t.readOn (State.closeBlock ⟨.anything, stack, program⟩ header place ⟨nodes, []⟩) =
        k { kind := .block, children := nodes.reverse, location := l.start } t) :
    s.readOn (.ok q) = (block expressions steps).outcome k s := by
  rw [block, outcome_bind, outcome_here, outcome_bind, rest_eq]
  by_cases opening : l.token = .openBrace
  case pos =>
    rw [← opening, outcome_eat rest_eq, if_pos rfl, outcome_bind, outcome_within,
      Session.readOn_step rest_eq, opens opening]
    refine readOn_content (s := { (consume s).2 with contexts := _ }) h constructs rfl le le
      ((fits.consume rest_eq).enter .block) fun nodes t fits => ?_
    exact next nodes { t with contexts := t.contexts.tail } fits.leave
  case neg =>
    rw [outcome_eat_of_ne (by simp [rest_eq, opening]), if_neg Bool.false_ne_true, outcome_reject]
    exact Session.readOn_refused rest_eq (fails opening)

end
section
variable {opening : Opening} {place : Location} {stack : List Frame} {program : Sequence}

-- At the end of an entry, the parentheses take what they have got of it.
theorem readOn_finishEntry {done : List (List Node)} {m : Node} {entry : List Node}
    {budget : Budget} (atEnd : s.AtEnd)
    (inside : s.contexts.head? = some .group ∨ s.contexts.head? = some .declaration)
    (constructs : ∀ entries entry budget,
      State.constructs ⟨.anything, .list opening place entries entry budget :: stack, program⟩ =
        s.contexts) :
    s.readOn (.ok ⟨.anything, .list opening place done (m :: entry) budget :: stack, program⟩) =
      match finishEntry opening (m :: entry) with
      | .error r => s.readOn (.error r)
      | .ok full => (eat .comma).outcome (fun _ t => t.readOn (.ok
          ⟨.anything, .list opening place (full :: done) [] opening.budget :: stack, program⟩)) s := by
  rcases rest_eq : s.rest with _ | ⟨l, lexemes⟩
  case nil =>
    rcases finished : finishEntry opening (m :: entry) with r | full
    case error =>
      refine Session.readOn_congr_of_nil rest_eq ?_
      simp [State.endLine, State.settleCast, finished, bind, Except.bind]
    case ok =>
      simp only
      rw [outcome_eat_of_ne (by simp [rest_eq])]
      refine Session.readOn_congr_of_nil rest_eq ?_
      simp [State.endLine, State.settleCast, finished, bind, Except.bind, pure, Except.pure]
  case cons =>
    have closes := atEnd l (by simp [rest_eq])
    have step (entries : List (List Node)) (entry : List Node) (budget : Budget) :
        State.step ⟨.anything, .list opening place entries entry budget :: stack, program⟩ l =
          State.close ⟨.anything, .list opening place entries entry budget :: stack, program⟩
            l.token l.start :=
      State.step_eq_close rfl rfl (constructs _ _ _) closes
    have token : l.token = .comma ∨ l.token = .closeParen := (closesIn_list inside).mp closes
    rcases finished : finishEntry opening (m :: entry) with r | full
    case error =>
      refine Session.readOn_refused rest_eq ?_
      rw [step]
      rcases token with token | token <;> rw [token] <;> simp only [State.close, finished] <;> rfl
    case ok =>
      simp only
      rcases token with token | token
      case inl =>
        rw [← token, outcome_eat rest_eq, Session.readOn_step rest_eq]
        congr 1
        rw [step, token]
        simp only [State.close, finished]
        rfl
      case inr =>
        rw [outcome_eat_of_ne (by simp [rest_eq, token])]
        refine Session.readOn_of_step_eq rest_eq ?_
        rw [step, step, token]
        simp only [State.close, finished]
        rfl

-- After a parameter, the stack waits for what has to follow it.
theorem readOn_separator {done : List (List Node)} (inside : s.contexts.head? = some .declaration)
    (constructs : ∀ entries entry budget,
      State.constructs ⟨.anything, .list opening place entries entry budget :: stack, program⟩ =
        s.contexts) :
    s.readOn (.ok ⟨.separator, .list opening place done [] opening.budget :: stack, program⟩) =
      separator.outcome (fun _ => (eat .comma).outcome fun _ t => t.readOn
        (.ok ⟨.anything, .list opening place done [] opening.budget :: stack, program⟩)) s := by
  unfold separator
  rw [outcome_bind, outcome_peek]
  rcases rest_eq : s.rest with _ | ⟨l, lexemes⟩
  case nil =>
    simp only [List.head?_nil, outcome_pure]
    rw [outcome_eat_of_ne (by simp [rest_eq])]
    exact Session.readOn_congr_of_nil rest_eq rfl
  case cons =>
    have waits : State.step
        ⟨.separator, .list opening place done [] opening.budget :: stack, program⟩ l =
          if l.token = .comma then
            .ok ⟨.anything, .list opening place done [] opening.budget :: stack, program⟩
          else if l.token = .closeParen then
            State.close ⟨.anything, .list opening place done [] opening.budget :: stack, program⟩
              .closeParen l.start
          else
            .error { fault := .unseparatedParameter, place := l.start } := by
      obtain ⟨token, start, stop⟩ := l
      cases token <;> simp [State.step, State.settleCast, State.await, bind, Except.bind, pure,
        Except.pure]
    simp only [List.head?_cons]
    by_cases comma : l.token = .comma
    case pos =>
      rw [if_pos (by simp [comma]), outcome_pure, ← comma, outcome_eat rest_eq,
        Session.readOn_step rest_eq]
      congr 1
      rw [waits, if_pos comma]
    case neg =>
      by_cases closing : l.token = .closeParen
      case pos =>
        rw [if_pos (by simp [closing]), outcome_pure,
          outcome_eat_of_ne (by simp [rest_eq, closing])]
        refine Session.readOn_of_step_eq rest_eq ?_
        have closes := (closesIn_list (.inr inside)).mpr (.inr closing)
        rw [waits, if_neg comma, if_pos closing,
          State.step_eq_close rfl rfl (constructs _ _ _) closes, closing]
      case neg =>
        rw [if_neg (by simp [comma, closing]), outcome_reject]
        refine Session.readOn_refused rest_eq ?_
        rw [waits, if_neg comma, if_neg closing]

-- Where an entry ends, nothing keeps it from being followed.
theorem outcome_separator {k : Unit → Session α → Outcome} (atEnd : s.AtEnd)
    (inside : s.contexts.head? = some .declaration) : separator.outcome k s = k () s := by
  unfold separator
  rw [outcome_bind, outcome_peek]
  rcases rest_eq : s.rest with _ | ⟨l, lexemes⟩
  case nil  => simp
  case cons =>
    have token := (closesIn_list (.inr inside)).mp (atEnd l (by simp [rest_eq]))
    simp [token]

theorem outcome_eat_congr {token : Token} {k k' : Bool → Session α → Outcome}
    (fits : s.Fits contexts n) (eq : ∀ b t, t.Fits contexts n → k b t = k' b t) :
    (eat token).outcome k s = (eat token).outcome k' s := by
  rcases rest_eq : s.rest with _ | ⟨l, lexemes⟩
  case nil =>
    rw [outcome_eat_of_ne (by simp [rest_eq]), outcome_eat_of_ne (by simp [rest_eq])]
    exact eq false s fits
  case cons =>
    by_cases same : l.token = token
    case pos =>
      have fits := fits.mono (Nat.le_succ n)
      rw [← same, outcome_eat rest_eq, outcome_eat rest_eq]
      exact eq true _ (fits.consume rest_eq)
    case neg =>
      rw [outcome_eat_of_ne (by simp [rest_eq, same]), outcome_eat_of_ne (by simp [rest_eq, same])]
      exact eq false s fits

theorem outcome_closeEntry {entry : List Node} {k : Unit → Session α → Outcome} (ne : entry ≠ []) :
    (closeEntry opening.isPaired (entryStart entry) entry).outcome k s =
      match finishEntry opening entry with
      | .error r => s.readOn (.error r)
      | .ok _    =>
        if opening.isPaired then
          separator.outcome (fun _ => (eat .comma).outcome fun _ => k ()) s
        else
          (eat .comma).outcome (fun _ => k ()) s := by
  unfold closeEntry finishEntry
  rw [if_neg (by simpa using ne)]
  split
  case isTrue  => rfl
  case isFalse => split <;> simp

theorem either_of_inside {contexts : List Construct}
    (inside : contexts.head? = some (if opening.isPaired then .declaration else .group)) :
    contexts.head? = some .group ∨ contexts.head? = some .declaration := by
  rw [inside]
  split <;> simp

section
variable {k : List (List Node) → Session α → Outcome}
variable (constructs : ∀ entries entry budget,
  State.constructs ⟨.anything, .list opening place entries entry budget :: stack, program⟩ =
    contexts)
variable (inside : contexts.head? = some (if opening.isPaired then .declaration else .group))
include constructs inside

-- The entry is over when its budget is spent, which only happens to a pair.
theorem readOn_spentEntry {done : List (List Node)} {m : Node} {entry : List Node}
    {budget : Budget} (fits : s.Fits contexts n) (paired : opening.isPaired)
    (spent : budget.spend.isSpent)
    (next : ∀ full t, t.Fits contexts n → t.readOn
      (.ok ⟨.anything, .list opening place full [] opening.budget :: stack, program⟩) = k full t) :
    s.readOn (State.put ⟨.anything, .list opening place done entry budget :: stack, program⟩ m) =
      (closeEntry opening.isPaired (entryStart (m :: entry)) (m :: entry)).outcome
        (fun _ => k ((m :: entry).reverse :: done)) s := by
  rw [outcome_closeEntry (List.cons_ne_nil _ _)]
  simp only [State.put, State.deliver, if_pos spent]
  rcases finished : finishEntry opening (m :: entry) with r | full
  case error => rfl
  case ok    =>
    obtain rfl := State.eq_of_finishEntry finished
    simp only [if_pos paired]
    refine (readOn_separator (by rw [fits.contexts_eq, inside, if_pos paired])
      (by rw [fits.contexts_eq]; exact constructs)).trans ?_
    exact still_separator.outcome_congr fun _ =>
      outcome_eat_congr fits fun _ t fits => next _ t fits

-- The entry is over when the line ends, or at a comma or the end of the parentheses.
theorem readOn_endedEntry {done : List (List Node)} {m : Node} {entry : List Node}
    {budget : Budget} (fits : s.Fits contexts n) (atEnd : s.AtEnd)
    (next : ∀ full t, t.Fits contexts n → t.readOn
      (.ok ⟨.anything, .list opening place full [] opening.budget :: stack, program⟩) = k full t) :
    s.readOn (.ok ⟨.anything, .list opening place done (m :: entry) budget :: stack, program⟩) =
      (closeEntry opening.isPaired (entryStart (m :: entry)) (m :: entry)).outcome
        (fun _ => k ((m :: entry).reverse :: done)) s := by
  rw [outcome_closeEntry (List.cons_ne_nil _ _),
    readOn_finishEntry atEnd (by rw [fits.contexts_eq]; exact either_of_inside inside)
      (by rw [fits.contexts_eq]; exact constructs)]
  rcases finished : finishEntry opening (m :: entry) with r | full
  case error => rfl
  case ok    =>
    obtain rfl := State.eq_of_finishEntry finished
    simp only
    split
    case isTrue paired =>
      rw [outcome_separator atEnd (by rw [fits.contexts_eq, inside, if_pos paired])]
      exact outcome_eat_congr fits fun _ t fits => next _ t fits
    case isFalse => exact outcome_eat_congr fits fun _ t fits => next _ t fits

-- Where one entry stands, and what becomes of it.
theorem hosts_entry (done : List (List Node)) {l : Lexeme} {lexemes : List Lexeme}
    (fits : s.Fits contexts (n + 1)) (rest_eq : s.rest = l :: lexemes) (opens : l.token ≠ .closeParen)
    (next : ∀ full t, t.Fits contexts n → t.readOn
      (.ok ⟨.anything, .list opening place full [] opening.budget :: stack, program⟩) = k full t) :
    Hosts s contexts (fun budget _ => opening.isPaired = false → budget = .unbounded)
      (fun budget entry => ⟨.anything, .list opening place done entry budget :: stack, program⟩)
      (fun entry => (closeEntry opening.isPaired l.start entry).outcome fun _ =>
        k (entry.reverse :: done)) where
  anything   := rfl
  constructs := constructs _ _ _
  takeBack   := by rintro _ (_ | _) - <;> rfl
  tail       := id
  put        := by
    intro budget nodes node room more
    refine ⟨?_, fun unpaired => by rw [room unpaired, Budget.spend]⟩
    simp [State.put, State.deliver, more]
  sated      := by
    rintro budget entry node u room spent (_ | ⟨head, fits', start⟩)
    obtain rfl : l = _ := (List.cons.inj (rest_eq.symm.trans head)).1
    have paired : opening.isPaired := by
      refine Bool.of_not_eq_false fun unpaired => ?_
      rw [room unpaired] at spent
      exact absurd spent (by simp [Budget.spend, Budget.isSpent])
    rw [← start]
    exact readOn_spentEntry constructs inside (fits'.mono (Nat.le_of_lt_succ fits.size_lt)) paired
      spent next
  ended      := by
    rintro budget _ u - (_ | ⟨head, fits', start⟩) atEnd
    case nothing =>
      have closes := atEnd l (by simp [rest_eq])
      rw [fits.contexts_eq] at closes
      have comma := ((closesIn_list (either_of_inside inside)).mp closes).resolve_right opens
      rw [closeEntry, if_pos List.isEmpty_nil, outcome_bind, outcome_here, outcome_reject,
        rest_eq]
      refine Session.readOn_refused rest_eq ?_
      rw [State.step_eq_close rfl rfl (constructs _ _ _) closes, comma]
      rfl
    case nodes =>
      obtain rfl : l = _ := (List.cons.inj (rest_eq.symm.trans head)).1
      rw [← start]
      exact readOn_endedEntry constructs inside (fits'.mono (Nat.le_of_lt_succ fits.size_lt)) atEnd
        next

theorem readOn_entries [LawfulSupplier α] (h : Agrees expressions steps) {m : Nat}
    {done : List (List Node)} (le : n ≤ steps) (le' : n ≤ m) (fits : s.Fits contexts n)
    (next : ∀ full t, t.Fits contexts n →
      t.readOn (State.closeList ⟨.anything, stack, program⟩ opening place full) = k full t) :
    s.readOn (.ok ⟨.anything, .list opening place done [] opening.budget :: stack, program⟩) =
      (entries expressions steps opening.isPaired m done).outcome k s := by
  induction n generalizing s m done
  case zero => exact absurd fits.size_lt (Nat.not_lt_zero _)
  case succ n hi =>
    obtain ⟨m, rfl⟩ := (fits.mono le').exists_succ
    rw [entries, outcome_bind]
    refine readOn_skipToToken (fun _ => rfl) rfl le fits fun l lexemes t rest_eq fits => ?_
    rw [outcome_bind]
    by_cases closing : l.token = .closeParen
    case pos =>
      rw [← closing, outcome_eat rest_eq, if_pos rfl, outcome_pure, Session.readOn_step rest_eq]
      rw [← next done _ ((fits.consume rest_eq).mono (Nat.le_succ n))]
      congr 1
      have closes := (closesIn_list (either_of_inside inside)).mpr (.inr closing)
      rw [State.step_eq_close rfl rfl (constructs _ _ _) closes, closing]
      rfl
    case neg =>
      rw [outcome_eat_of_ne (by simp [rest_eq, closing]), if_neg Bool.false_ne_true, outcome_bind,
        outcome_here, outcome_bind]
      have follow (full : List (List Node)) (u : Session α) (fits' : u.Fits contexts n) :
          u.readOn (.ok ⟨.anything, .list opening place full [] opening.budget :: stack, program⟩) =
            (entries expressions steps opening.isPaired m full).outcome k u :=
        hi (Nat.le_of_succ_le le) (Nat.le_of_succ_le_succ le') fits' fun full t fits =>
          next full t (fits.mono (Nat.le_succ n))
      have hosts := hosts_entry constructs inside done fits rest_eq closing follow
      rw [rest_eq]
      simp only [outcome_bind]
      exact h hosts Opening.budget_of_unpaired opening.not_isSpent_budget (fits.mono le)
        fun _ _ _ => rfl

end
end

end Builder
end WispSyntax

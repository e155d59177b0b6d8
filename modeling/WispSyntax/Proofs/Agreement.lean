import WispSyntax.Proofs.Brackets
import WispSyntax.Proofs.Lexemes

/-!
The descent and the stack give the same outcome (`parseProgram_eq`). Each construct that the
descent is inside of is a frame of the stack, and what the descent does with a node that it gets
back is what the frame does with a node that is delivered to it.
-/

namespace WispSyntax

open WispSyntax.Parser

namespace Builder

variable {α : Type} [LineSupplier α] {s : Session α} {contexts : List Construct} {n steps : Nat}
variable {expressions : Budget → Builder α (List Node)}

section
variable {place : Location} {stack : List Frame} {program : Sequence}

theorem readOn_name (h : Agrees expressions steps) {k : String → Session α → Outcome}
    (le : n ≤ steps) (fits : s.Fits (.declaration :: stack.flatMap Frame.constructs) n)
    (next : ∀ value t, t.Fits (.declaration :: stack.flatMap Frame.constructs) n →
      t.readOn (.ok ⟨.parenthesis (.signature value) place, stack, program⟩) = k value t) :
    s.readOn (.ok ⟨.anything, .naming place :: stack, program⟩) =
      (name expressions).outcome k s := by
  rw [name, outcome_bind]
  refine h.single rfl rfl (fits.mono le) (fun _ _ _ => rfl) (fun atEnd => ?_) fun m t fits' => ?_
  case refine_1 =>
    simp only [outcome_bind, outcome_here, outcome_reject]
    rcases rest_eq : s.rest with _ | ⟨l, lexemes⟩
    case nil  => exact Session.readOn_congr_of_nil rest_eq rfl
    case cons =>
      have closes := atEnd l (by simp [rest_eq])
      rw [fits.contexts_eq] at closes
      refine Session.readOn_refused rest_eq (Eq.trans ?_ rfl)
      exact State.step_eq_close rfl rfl rfl closes
  case refine_2 =>
    simp only [State.put, State.deliver]
    split
    case isTrue  => exact next m.value t (fits'.mono (Nat.le_of_lt fits.size_lt))
    case isFalse => rfl

end

-- Where the expressions of one line outside of all constructs stand.
theorem hosts_program {nodes : List Node} {k : List Node → Session α → Outcome}
    (fits : s.Fits [] n) (ended : ∀ more t, t.Fits [] n → t.rest = [] →
      t.readOn (.ok ⟨.anything, [], ⟨more ++ nodes, []⟩⟩) = k more t) :
    Hosts s [] (fun budget _ => budget = .unbounded)
      (fun _ more => ⟨.anything, [], ⟨nodes, more⟩⟩) k := by
  refine .unbounded (fun _ => rfl) (fun _ => rfl) (by rintro (_ | _) <;> rfl) (fun _ _ => rfl)
    fun more t yields atEnd => ?_
  have fits := yields.fits fits
  have rest_eq : t.rest = [] := by
    rcases rest_eq : t.rest with _ | ⟨l, lexemes⟩
    case nil  => rfl
    case cons =>
      have closes := atEnd l (by simp [rest_eq])
      rw [fits.contexts_eq, List.head?_nil, closesIn_none] at closes
      cases closes
  rw [← ended more t fits rest_eq]
  exact Session.readOn_congr_of_nil rest_eq rfl

variable [LawfulSupplier α]

section
variable {opening : Opening} {place : Location} {stack : List Frame} {program : Sequence}
variable (h : Agrees expressions steps)
  (paired : opening.isPaired = decide (contexts.head? = some .declaration))
  (constructs : ∀ entries entry budget,
    State.constructs ⟨.anything, .list opening place entries entry budget :: stack, program⟩ =
      if opening.isPaired then contexts else .group :: contexts)
  (le : n ≤ steps)
include h paired constructs le

theorem readOn_list {k : List (List Node) → Session α → Outcome} (fits : s.Fits contexts n)
    (next : ∀ full t, t.Fits contexts n →
      t.readOn (State.closeList ⟨.anything, stack, program⟩ opening place full) = k full t) :
    s.readOn (.ok ⟨.anything, .openList opening place :: stack, program⟩) =
      (list expressions steps).outcome k s := by
  rw [list, outcome_bind, outcome_contexts, fits.contexts_eq]
  by_cases declaration : contexts.head? = some .declaration
  case pos =>
    have paired : opening.isPaired = true := by rw [paired, decide_eq_true declaration]
    rw [if_pos declaration, ← paired]
    refine readOn_entries (fun _ _ _ => ?_) ?_ h le le fits next
    case refine_1 => rw [constructs, if_pos paired]
    case refine_2 => rw [declaration, if_pos paired]
  case neg =>
    have unpaired : opening.isPaired = false := by rw [paired, decide_eq_false declaration]
    rw [if_neg declaration, outcome_within, ← unpaired]
    refine readOn_entries (s := { s with contexts := _ }) (fun _ _ _ => ?_) ?_ h le le
      (fits.enter .group) fun full t fits => ?_
    case refine_1 => simp [constructs, unpaired]
    case refine_2 => simp [unpaired]
    case refine_3 => exact next full { t with contexts := t.contexts.tail } fits.leave

-- Parentheses, wherever the stack waits for them or may go on with them.
theorem readOn_group {q : State} {l : Lexeme} {lexemes : List Lexeme}
    {k : Node → Session α → Outcome} (fits : s.Fits contexts (n + 1))
    (rest_eq : s.rest = l :: lexemes)
    (opens : l.token = .openParen →
      q.step l = .ok ⟨.anything, .openList opening place :: stack, program⟩)
    (fails : l.token ≠ .openParen →
      q.step l = .error { fault := .missingParenthesis, place := l.start })
    (next : ∀ full t, t.Fits contexts n →
      t.readOn (State.closeList ⟨.anything, stack, program⟩ opening place full) =
        k { kind := .group, params := full.reverse, location := l.start } t) :
    s.readOn (.ok q) = (group expressions steps).outcome k s := by
  rw [group, outcome_bind, outcome_here, outcome_bind, rest_eq]
  by_cases open_ : l.token = .openParen
  case pos =>
    rw [← open_, outcome_eat rest_eq, if_pos rfl, outcome_bind, Session.readOn_step rest_eq,
      opens open_]
    exact readOn_list h paired constructs le (fits.consume rest_eq) next
  case neg =>
    rw [outcome_eat_of_ne (by simp [rest_eq, open_]), if_neg Bool.false_ne_true, outcome_reject]
    exact Session.readOn_refused rest_eq (fails open_)

theorem readOn_awaitedGroup {l : Lexeme} {lexemes : List Lexeme}
    {k : Node → Session α → Outcome} (fits : s.Fits contexts (n + 1))
    (rest_eq : s.rest = l :: lexemes)
    (next : ∀ full t, t.Fits contexts n →
      t.readOn (State.closeList ⟨.anything, stack, program⟩ opening place full) =
        k { kind := .group, params := full.reverse, location := l.start } t) :
    s.readOn (.ok ⟨.parenthesis opening place, stack, program⟩) =
      (group expressions steps).outcome k s := by
  have waits : State.step ⟨.parenthesis opening place, stack, program⟩ l =
      if l.token = .openParen then
        .ok ⟨.anything, .openList opening place :: stack, program⟩
      else
        .error { fault := .missingParenthesis, place := l.start } := by
    obtain ⟨token, start, stop⟩ := l
    cases token <;> simp [State.step, State.settleCast, State.await, State.push, bind, Except.bind,
      pure, Except.pure]
  refine readOn_group h paired constructs le fits rest_eq (fun opens => ?_) (fun fails => ?_) next
  case refine_1 => rw [waits, if_pos opens]
  case refine_2 => rw [waits, if_neg fails]

end

section
variable {place : Location} {stack : List Frame} {program : Sequence}

theorem readOn_awaitedBlock (h : Agrees expressions steps) {header : Header} {l : Lexeme}
    {lexemes : List Lexeme} {k : Node → Session α → Outcome}
    (constructs : ∀ content, State.constructs
      ⟨.anything, .block (some header) header.place content :: stack, program⟩ = .block :: contexts)
    (le : n ≤ steps) (fits : s.Fits contexts (n + 1)) (rest_eq : s.rest = l :: lexemes)
    (next : ∀ nodes t, t.Fits contexts n →
      t.readOn (State.closeBlock ⟨.anything, stack, program⟩ (some header) header.place
        ⟨nodes, []⟩) =
          k { kind := .block, children := nodes.reverse, location := l.start } t) :
    s.readOn (.ok ⟨.brace header, stack, program⟩) = (block expressions steps).outcome k s := by
  have waits : State.step ⟨.brace header, stack, program⟩ l =
      if l.token = .openBrace then
        .ok ⟨.anything, .openBlock (some header) header.place :: stack, program⟩
      else
        .error { fault := .missingBrace, place := l.start } := by
    obtain ⟨token, start, stop⟩ := l
    cases token <;> simp [State.step, State.settleCast, State.await, State.push, bind, Except.bind,
      pure, Except.pure]
  refine readOn_block h constructs le fits rest_eq (fun opens => ?_) (fun fails => ?_) next
  case refine_1 => rw [waits, if_pos opens]
  case refine_2 => rw [waits, if_neg fails]

theorem readOn_function (h : Agrees expressions steps) {k : Node → Session α → Outcome}
    (le : n ≤ steps) (fits : s.Fits (stack.flatMap Frame.constructs) n)
    (next : ∀ m t, m.start = place → t.Fits (stack.flatMap Frame.constructs) n →
      t.readOn (State.put ⟨.anything, stack, program⟩ m) = k m t) :
    s.readOn (.ok ⟨.anything, .naming place :: stack, program⟩) =
      (function expressions steps place).outcome k s := by
  rw [function, outcome_within]
  simp only [outcome_bind]
  refine readOn_name (s := { s with contexts := _ }) h le (fits.enter .declaration)
    fun value t fits => ?_
  refine readOn_skipToToken (fun _ => rfl) rfl le fits fun l lexemes t rest_eq fits => ?_
  obtain ⟨n, rfl⟩ := fits.exists_succ
  have le : n ≤ steps := Nat.le_of_succ_le le
  refine readOn_awaitedGroup h rfl (fun _ _ _ => rfl) le fits rest_eq fun full t fits => ?_
  change t.readOn
    (.ok ⟨.brace { name := value, params := full.reverse, place }, stack, program⟩) = _
  refine readOn_skipToToken (fun _ => rfl) rfl le fits fun l lexemes t rest_eq fits => ?_
  obtain ⟨n, rfl⟩ := fits.exists_succ
  have le : n ≤ steps := Nat.le_of_succ_le le
  refine readOn_awaitedBlock h (fun _ => rfl) le fits rest_eq fun nodes t fits => ?_
  have fits := fits.leave.mono (Nat.le_succ_of_le (Nat.le_succ n))
  exact next _ { t with contexts := t.contexts.tail } rfl fits

-- The parentheses of a call follow its name directly.
theorem readOn_call (h : Agrees expressions steps) {text : String} {k : Node → Session α → Outcome}
    (outside : State.innermost ⟨.anything, stack, program⟩ ≠ some .declaration) (le : n ≤ steps)
    (fits : s.Fits (stack.flatMap Frame.constructs) n) (ne : s.rest ≠ [])
    (next : ∀ m t, m.start = place → t.Fits (stack.flatMap Frame.constructs) n →
      t.readOn (State.put ⟨.anything, stack, program⟩ m) = k m t) :
    s.readOn (.ok ⟨.parenthesis (.call text) place, stack, program⟩) =
      (group expressions steps).outcome (fun arguments => k
        { kind := .call, value := text, params := arguments.params, location := place }) s := by
  obtain ⟨n, rfl⟩ := fits.exists_succ
  obtain ⟨l, lexemes, rest_eq⟩ := List.exists_cons_of_ne_nil ne
  have unpaired : Opening.isPaired (.call text) = decide _ := (decide_eq_false outside).symm
  refine readOn_awaitedGroup h unpaired (fun _ _ _ => rfl) (Nat.le_of_succ_le le) fits rest_eq
    fun full t fits => ?_
  exact next _ t rfl (fits.mono (Nat.le_succ n))

-- Parentheses that are not those of a call. Those in the head of a declaration hold parameters.
theorem readOn_parentheses (h : Agrees expressions steps) {l : Lexeme} {lexemes : List Lexeme}
    {q : State} {k : Node → Session α → Outcome} (le : n ≤ steps)
    (fits : s.Fits (stack.flatMap Frame.constructs) (n + 1)) (rest_eq : s.rest = l :: lexemes)
    (opens : l.token = .openParen)
    (step_eq : q.step l = .ok ⟨.anything, .openList
      (if State.innermost ⟨.anything, stack, program⟩ = some .declaration then .parameters
        else .group) l.start :: stack, program⟩)
    (next : ∀ m t, m.start = l.start → t.Fits (stack.flatMap Frame.constructs) n →
      t.readOn (State.put ⟨.anything, stack, program⟩ m) = k m t) :
    s.readOn (.ok q) = (group expressions steps).outcome k s := by
  by_cases inside : State.innermost ⟨.anything, stack, program⟩ = some .declaration
  case pos =>
    have paired : Opening.isPaired .parameters = decide _ := (decide_eq_true inside).symm
    rw [if_pos inside] at step_eq
    exact readOn_group h paired (fun _ _ _ => rfl) le fits rest_eq (fun _ => step_eq)
      (fun ne => absurd opens ne) fun full t => next _ t rfl
  case neg =>
    have unpaired : Opening.isPaired .group = decide _ := (decide_eq_false inside).symm
    rw [if_neg inside] at step_eq
    exact readOn_group h unpaired (fun _ _ _ => rfl) le fits rest_eq (fun _ => step_eq)
      (fun ne => absurd opens ne) fun full t => next _ t rfl

end

-- An expression, given the state in which it is begun and those of fewer nodes to its left.
theorem readOn_item (h : Agrees expressions steps) {l : Lexeme} {lexemes : List Lexeme} {q : State}
    {state : List Node → State} {nodes : List Node} {k : Node × List Node → Session α → Outcome}
    (anything : q.awaited = .anything) (constructs : q.constructs = contexts)
    (anything' : ∀ nodes, (state nodes).awaited = .anything)
    (constructs' : ∀ nodes, (state nodes).constructs = contexts)
    (takeBack : q.takeBack = nodes.head?.map fun n => (n, state nodes.tail))
    (calm : l.token.isRelation → q.settleCast = .ok q) (goesOn : ¬closesIn contexts.head? l.token)
    (le : n ≤ steps) (fits : s.Fits contexts (n + 1)) (rest_eq : s.rest = l :: lexemes)
    (fresh : ∀ m t, m.start = l.start → t.Fits contexts n → t.readOn (q.put m) = k (m, nodes) t)
    (onto : ∀ m lhs rest t, nodes = lhs :: rest → m.start = lhs.start → t.Fits contexts n →
      t.readOn ((state rest).put m) = k (m, rest) t) :
    s.readOn (.ok q) = (item expressions steps l nodes).outcome k s := by
  have closes : ¬q.closes l.token := by rwa [State.closes_eq, State.innermost, constructs]
  have step_eq := State.step_eq_accept anything calm closes
  have read : s.readOn (.ok q) = (consume s).2.readOn (q.accept l) := by
    rw [Session.readOn_step rest_eq, step_eq]
  have fits' := fits.consume rest_eq
  obtain ⟨_, stack, program⟩ := q
  obtain rfl : _ = Awaited.anything := anything
  obtain ⟨token, start, stop⟩ := l
  -- Brackets are left in place for the builder to go past them, all other tokens are read first.
  cases token <;> simp only [item, State.accept] at read step_eq ⊢
  case function =>
    rw [read, outcome_bind, outcome_contexts, fits.contexts_eq, ← constructs]
    by_cases nested : .declaration ∈ State.constructs ⟨.anything, stack, program⟩
    case pos =>
      rw [if_pos nested, if_pos (by simpa using nested)]
      rfl
    case neg =>
      rw [if_neg nested, if_neg (by simpa using nested)]
      simp only [outcome_bind, outcome_consume, outcome_pure]
      subst constructs
      exact readOn_function h le fits' fun m t => fresh m t
  case constant c =>
    rw [read]
    exact fresh _ _ rfl fits'
  case name text called =>
    rw [outcome_bind, outcome_consume, outcome_bind, outcome_contexts, fits'.contexts_eq,
      ← constructs]
    change _ = (if (called &&
        State.innermost ⟨.anything, stack, program⟩ ≠ some .declaration) = true
      then _ else _ : Builder α _).outcome k _
    split
    case isTrue callee =>
      have outside : State.innermost ⟨.anything, stack, program⟩ ≠ some .declaration :=
        of_decide_eq_true (Bool.and_eq_true_iff.mp callee).2
      obtain rfl : called = true := (Bool.and_eq_true_iff.mp callee).1
      have ne : (consume s).2.rest ≠ [] := by
        rw [Session.rest_consume, rest_eq]
        exact Lexeme.ne_nil_of_called rest_eq rfl
      rw [read, if_pos callee]
      simp only [outcome_bind, outcome_pure]
      subst constructs
      exact readOn_call h outside le fits' ne fun m t => fresh m t
    case isFalse plain =>
      rw [read, if_neg plain]
      exact fresh _ _ rfl fits'
  case number form text =>
    rw [read]
    exact fresh _ _ rfl fits'
  case string text =>
    rw [read]
    exact fresh _ _ rfl fits'
  case operator op =>
    rcases op with op | op | _ | _ | _
    case math | relation | notEqual =>
      rw [read]
      exact readOn_infix le h (by simp) anything' constructs' takeBack fits' onto
    case not =>
      rw [read]
      simp only [outcome_bind, outcome_consume, outcome_pure]
      subst constructs
      exact readOn_rightOperand le h (by simp) rfl fits' fun m t => fresh _ t rfl
    case cast =>
      rw [read]
      exact readOn_typing le h (l := ⟨_, start, stop⟩) anything' constructs' takeBack fits' onto
  case counter c =>
    rw [read, outcome_bind]
    refine readOn_takeLeft takeBack fun lhs rest nodes_eq => ?_
    simp only [outcome_bind, outcome_consume]
    split
    case isTrue counted =>
      rfl
    case isFalse =>
      exact onto _ lhs rest _ nodes_eq rfl fits'
  case openBrace =>
    simp only [outcome_bind, outcome_pure]
    subst constructs
    exact readOn_block h (fun _ => rfl) le fits rest_eq (fun _ => step_eq)
      (fun ne => absurd rfl ne) fun children t => fresh _ t rfl
  case openParen =>
    simp only [outcome_bind, outcome_pure]
    subst constructs
    exact readOn_parentheses h le fits rest_eq rfl step_eq fun m t => fresh m t
  case closeBrace | closeParen | comma =>
    rw [read, if_neg closes]
    rfl
  case badNumber fault =>
    rw [read]
    rfl
  case openString =>
    rw [read]
    rfl
  case dot next =>
    rw [read, outcome_bind]
    refine readOn_takeLeft takeBack fun lhs rest nodes_eq => ?_
    cases next <;> rfl
  case colon =>
    rw [read, outcome_bind]
    exact readOn_takeLeft takeBack fun lhs rest nodes_eq => rfl
  case stray c =>
    rw [read]
    rfl

-- The place is fixed by the session in which the first expression began; what is read after that
-- session has less left, so that one step less is enough for all that is inside of an expression.
theorem readOn_dispatch {room : Budget → List Node → Prop} {state : Budget → List Node → State}
    {k : List Node → Session α → Outcome} {budget : Budget} {nodes : List Node} {t : Session α}
    (hosts : Hosts s contexts room state k) (fit : room budget nodes) (left : ¬budget.isSpent)
    (yields : Yields s contexts nodes t) (fits : t.Fits contexts steps)
    (calm : ∀ l, t.rest.head? = some l → l.token.isRelation →
      (state budget nodes).settleCast = .ok (state budget nodes)) :
    t.readOn (.ok (state budget nodes)) = (dispatch steps budget nodes).outcome k t := by
  induction steps generalizing s contexts room state k budget nodes t
  case zero => exact absurd fits.size_lt (Nat.not_lt_zero _)
  case succ steps hi =>
    rw [dispatch, if_neg left, outcome_bind, outcome_peek]
    rcases rest_eq : t.rest with _ | ⟨l, lexemes⟩
    case nil => exact hosts.ended fit yields fun l head => by simp [rest_eq] at head
    case cons =>
      rw [List.head?_cons, outcome_bind, outcome_contexts, fits.contexts_eq]
      by_cases closing : closesIn contexts.head? l.token
      case pos =>
        rw [if_pos closing]
        refine hosts.ended fit yields fun l' head => ?_
        obtain rfl : l = l' := by simpa [rest_eq] using head
        rwa [fits.contexts_eq]
      case neg =>
        rw [if_neg closing, outcome_bind]
        have agrees : Agrees (fun budget => dispatch (α := α) steps budget []) steps :=
          fun hosts fit left fits calm => hi hosts fit left .nothing fits calm
        have le : t.size ≤ steps := Nat.le_of_lt_succ fits.size_lt
        -- What is done with the node of an expression, whether it took up an operand or not
        have after (m : Node) (nodes : List Node) (u : Session α) (fit : room budget nodes)
            (yields : Yields s contexts (m :: nodes) u) (fits : u.Fits contexts t.size) :
            u.readOn ((state budget nodes).put m) =
              (dispatch steps budget.spend (m :: nodes)).outcome k u := by
          by_cases spent : budget.spend.isSpent
          case pos =>
            obtain ⟨steps, rfl⟩ := (fits.mono le).exists_succ
            rw [dispatch, if_pos spent]
            exact hosts.sated fit spent yields
          case neg =>
            obtain ⟨put, fit⟩ := hosts.put (n := m) fit spent
            rw [put]
            exact hi hosts fit spent yields (fits.mono le) fun _ _ _ =>
              State.settleCast_of_deliver put
        refine readOn_item agrees hosts.anything hosts.constructs (fun _ => hosts.anything)
          (fun _ => hosts.constructs) (hosts.takeBack fit) (calm l (by simp [rest_eq])) closing le
          { fits with size_lt := Nat.lt_succ_self _ } rest_eq (fun m u start fits => ?_)
          fun m lhs rest u nodes_eq start fits => ?_
        case refine_1 => exact after m nodes u fit (yields.push rest_eq fits start) fits
        case refine_2 =>
          subst nodes_eq
          exact after m rest u (hosts.tail fit) (yields.replace fits start) fits

theorem agrees_dispatch (steps : Nat) :
    Agrees (fun budget => dispatch (α := α) steps budget []) steps :=
  fun hosts fit left fits calm => readOn_dispatch hosts fit left .nothing fits calm

-- Outside of all constructs, the lines are read one by one.
theorem readFrom_lines {last : SourceLine} {nodes : List Node}
    (valid : LineSupplier.IsValid s.supplier) (outside : s.contexts = [])
    (enough : (LineSupplier.feed s.supplier).size < n) :
    readFrom ⟨.anything, [], ⟨nodes, []⟩⟩ last (LineSupplier.feed s.supplier).failure
        (LineSupplier.feed s.supplier).lines =
      (lines n nodes).outcome (fun root t => (.ok root, LineSupplier.feed t.supplier)) s := by
  induction n generalizing s nodes last
  case zero => exact absurd enough (Nat.not_lt_zero _)
  case succ n hi =>
    have pulls := pulls_nextLine valid
    rw [lines, outcome_bind, outcome]
    generalize nextLine s = pulled at pulls
    cases pulls
    case line l rest failure supplier before after valid =>
      have fits := Session.Fits.of_line outside enough before after valid
      rw [before,
        Session.readFrom_line (t := { s with supplier, line := l, position := 0 }) rfl after]
      generalize { s with supplier, line := l, position := 0 : Session α } = t at fits
      simp only [if_true, outcome_bind]
      refine agrees_dispatch n (hosts_program fits fun more u fits rest_eq => ?_) rfl
        (by simp [Budget.isSpent]) fits fun _ _ _ => rfl
      rw [Session.readOn_nil rest_eq]
      exact hi fits.valid fits.contexts_eq
        (Nat.lt_of_le_of_lt (Nat.le_add_left _ _) fits.size_lt)
    case failed before after valid =>
      rw [before]
      simp only [readFrom, after]
    case ended supplier before after valid =>
      rw [before]
      simp only [readFrom]
      exact congrArg _ after.symm

end Builder

namespace Session

variable {α : Type} [LineSupplier α] [LawfulSupplier α]

theorem parseProgram_eq {s : Session α} (valid : LineSupplier.IsValid s.supplier)
    (outside : s.contexts = []) :
    ((parseProgram s).1, LineSupplier.feed (parseProgram s).2.supplier) =
      (LineSupplier.feed s.supplier).parse := by
  rw [Feed.parse, Builder.readFrom_lines valid outside (Nat.lt_succ_self _), Builder.outcome,
    parseProgram]
  generalize Builder.lines _ [] s = result
  rcases result with ⟨_ | _, _⟩ <;> rfl

end Session
end WispSyntax

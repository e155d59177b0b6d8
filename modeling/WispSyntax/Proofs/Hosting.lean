import WispSyntax.Proofs.Outcome

/-!
The places in which the descent calls for expressions, seen from the stack (`Hosts`), and what the
descent does there if its expressions have the outcome that they have on the stack (`Agrees`).
-/

namespace WispSyntax

open WispSyntax.Parser

namespace Parser

theorem Opening.budget_of_unpaired {opening : Opening} (h : opening.isPaired = false) :
    opening.budget = .unbounded := by
  simp [budget, h]

theorem Opening.not_isSpent_budget (opening : Opening) : ¬opening.budget.isSpent := by
  unfold budget
  split <;> simp [Budget.isSpent]

namespace State

theorem closes_eq (q : State) (token : Token) :
    q.closes token = Builder.closesIn q.innermost token := by
  cases token <;> rfl

-- A token that goes on with the innermost construct.
theorem step_eq_accept {q : State} {l : Lexeme} (anything : q.awaited = .anything)
    (calm : l.token.isRelation → q.settleCast = .ok q) (goesOn : ¬q.closes l.token) :
    q.step l = q.accept l := by
  by_cases relation : l.token.isRelation
  case pos => exact step_of_settled anything (calm relation)
  case neg => simp [step, relation, goesOn, anything, bind, Except.bind]

-- A token that closes the innermost construct or parts its entries.
theorem step_eq_close {q : State} {l : Lexeme} {contexts : List Construct}
    (anything : q.awaited = .anything) (settled : q.settleCast = .ok q)
    (constructs : q.constructs = contexts) (closes : Builder.closesIn contexts.head? l.token) :
    q.step l = q.close l.token l.start := by
  have closes : q.closes l.token := by rwa [closes_eq, innermost, constructs]
  rw [step_of_settled anything settled]
  obtain ⟨token, start, stop⟩ := l
  cases token <;> simp_all [accept, State.closes]

-- A cast is settled at once by what would settle it later.
theorem settleCast_of_deliver {program : Sequence} {n : Node} {stack : List Frame} {q : State}
    (h : deliver program n stack = .ok q) : q.settleCast = .ok q := by
  fun_induction deliver program n stack
  case case1 =>
    cases h
    rfl
  case case2 hi => exact hi h
  case case4 =>
    cases h
    rfl
  case case6 =>
    obtain ⟨full, -, h⟩ := bind_eq_ok_iff.mp h
    cases h
    rfl
  case case7 | case8 =>
    cases h
    rfl
  all_goals contradiction

theorem settleCast_of_settleCast {q r : State} (h : q.settleCast = .ok r) :
    r.settleCast = .ok r := by
  rcases settles_of_settleCast h with rfl | settles
  case inl => exact h
  case inr =>
    cases settles
    case query put => exact settleCast_of_deliver put

theorem step_of_settleCast {q : State} {l : Lexeme}
    (ends : l.token.isRelation ∨ q.closes l.token) :
    q.step l = q.settleCast >>= (·.step l) := by
  rcases settled : q.settleCast with _ | r
  case error refusal =>
    simp [step, ends, settled, bind, Except.bind]
  case ok =>
    have still := settleCast_of_settleCast settled
    simp [step, ends, settled, still, bind, Except.bind]

theorem endLine_of_settleCast (q : State) (stop : Location) :
    q.endLine stop = q.settleCast >>= (·.endLine stop) := by
  rcases settled : q.settleCast with _ | r
  case error refusal => simp [endLine, settled, bind, Except.bind]
  case ok            =>
    have still := settleCast_of_settleCast settled
    simp [endLine, settled, still, bind, Except.bind]

end State
end Parser

theorem Session.readOn_settleCast {α : Type} [LineSupplier α] {s : Session α} {q : State}
    (ends : ∀ l, s.rest.head? = some l → l.token.isRelation ∨ q.closes l.token) :
    s.readOn (.ok q) = s.readOn q.settleCast := by
  rcases rest_eq : s.rest with _ | ⟨l, lexemes⟩
  case nil  => exact readOn_congr_of_nil rest_eq (State.endLine_of_settleCast q _)
  case cons =>
    exact readOn_congr_of_cons rest_eq (State.step_of_settleCast (ends l (by simp [rest_eq])))

namespace Builder

variable {α β : Type} [LineSupplier α] {s : Session α} {contexts : List Construct} {steps : Nat}

-- What expressions come to that begin in a session: nothing as yet, or some nodes, the newest
-- first, for at least one token.
inductive Yields (s : Session α) (contexts : List Construct) : List Node → Session α → Prop
  | nothing : Yields s contexts [] s
  | nodes {n nodes t l lexemes} (rest_eq : s.rest = l :: lexemes) (fits : t.Fits contexts s.size)
      (start : entryStart (n :: nodes) = l.start) : Yields s contexts (n :: nodes) t

namespace Yields

variable {t u : Session α} {m : Node} {nodes : List Node} {l : Lexeme} {lexemes : List Lexeme}

theorem push (h : Yields s contexts nodes t) (rest_eq : t.rest = l :: lexemes)
    (fits : u.Fits contexts t.size) (start : m.start = l.start) :
    Yields s contexts (m :: nodes) u := by
  rcases h with _ | ⟨rest_eq', fits', start'⟩
  case nothing => exact .nodes rest_eq fits start
  case nodes   => exact .nodes rest_eq' (fits.mono (Nat.le_of_lt fits'.size_lt)) start'

theorem replace {n : Node} (h : Yields s contexts (n :: nodes) t) (fits : u.Fits contexts t.size)
    (start : m.start = n.start) : Yields s contexts (m :: nodes) u := by
  rcases h with _ | ⟨rest_eq, fits', start'⟩
  refine .nodes rest_eq (fits.mono (Nat.le_of_lt fits'.size_lt)) ?_
  rw [← start']
  cases nodes
  case nil  => exact start
  case cons => rfl

theorem fits {n : Nat} (h : Yields s contexts nodes t) (fits : s.Fits contexts n) :
    t.Fits contexts n := by
  rcases h with _ | ⟨-, fits', -⟩
  case nothing => exact fits
  case nodes   => exact fits'.mono (Nat.le_of_lt fits.size_lt)

end Yields

-- The states of the stack while the expressions in one place are read, for each budget that is left
-- and the nodes that are there, and what becomes of these in the end.
structure Hosts (s : Session α) (contexts : List Construct) (room : Budget → List Node → Prop)
    (state : Budget → List Node → State) (k : List Node → Session α → Outcome) : Prop where
  anything {budget nodes} : (state budget nodes).awaited = .anything
  constructs {budget nodes} : (state budget nodes).constructs = contexts
  takeBack {budget nodes} (h : room budget nodes) :
    (state budget nodes).takeBack = nodes.head?.map fun n => (n, state budget nodes.tail)
  tail {budget nodes} (h : room budget nodes) : room budget nodes.tail
  put {budget nodes n} (h : room budget nodes) (more : ¬budget.spend.isSpent) :
    (state budget nodes).put n = .ok (state budget.spend (n :: nodes)) ∧
      room budget.spend (n :: nodes)
  sated {budget nodes n t} (h : room budget nodes) (spent : budget.spend.isSpent)
    (yields : Yields s contexts (n :: nodes) t) :
    t.readOn ((state budget nodes).put n) = k (n :: nodes) t
  ended {budget nodes t} (h : room budget nodes) (yields : Yields s contexts nodes t)
    (atEnd : t.AtEnd) : t.readOn (.ok (state budget nodes)) = k nodes t

-- A place for any number of nodes.
theorem Hosts.unbounded {s : Session α} {contexts : List Construct} {state : List Node → State}
    {k : List Node → Session α → Outcome} (anything : ∀ nodes, (state nodes).awaited = .anything)
    (constructs : ∀ nodes, (state nodes).constructs = contexts)
    (takeBack : ∀ nodes,
      (state nodes).takeBack = nodes.head?.map fun n => (n, state nodes.tail))
    (put : ∀ n nodes, (state nodes).put n = .ok (state (n :: nodes)))
    (ended : ∀ nodes t, Yields s contexts nodes t → t.AtEnd →
      t.readOn (.ok (state nodes)) = k nodes t) :
    Hosts s contexts (fun budget _ => budget = .unbounded) (fun _ => state) k where
  anything     := anything _
  constructs   := constructs _
  takeBack _   := takeBack _
  tail         := id
  put h _      := ⟨put _ _, by rw [h, Budget.spend]⟩
  sated        := by
    rintro _ _ _ _ rfl spent
    exact absurd spent (by simp [Budget.spend, Budget.isSpent])
  ended _      := ended _ _

-- The outcome of expressions is that of the stack, in every place where so many steps are enough.
def Agrees (expressions : Budget → Builder α (List Node)) (steps : Nat) : Prop :=
  ∀ {s : Session α} {contexts room state k budget},
    Hosts s contexts room state k → room budget [] → ¬budget.isSpent → s.Fits contexts steps →
    (∀ l, s.rest.head? = some l → l.token.isRelation →
      (state budget []).settleCast = .ok (state budget [])) →
    s.readOn (.ok (state budget [])) = (expressions budget).outcome k s

variable {expressions : Budget → Builder α (List Node)}

-- One expression in a place that has room for no more.
theorem Agrees.single (h : Agrees expressions steps) {q : State}
    {k : List Node → Session α → Outcome} (anything : q.awaited = .anything)
    (empty : q.takeBack = none) (fits : s.Fits q.constructs steps)
    (calm : ∀ l, s.rest.head? = some l → l.token.isRelation → q.settleCast = .ok q)
    (ended : s.AtEnd → s.readOn (.ok q) = k [] s)
    (sated : ∀ n t, t.Fits q.constructs s.size → t.readOn (q.put n) = k [n] t) :
    s.readOn (.ok q) = (expressions (.limited 1)).outcome k s := by
  have hosts : Hosts s q.constructs (fun budget nodes => budget = .limited 1 ∧ nodes = [])
      (fun _ _ => q) k := {
    anything   := anything
    constructs := rfl
    takeBack   := by
      rintro _ _ ⟨-, rfl⟩
      exact empty
    tail       := by
      rintro _ _ ⟨rfl, rfl⟩
      exact ⟨rfl, rfl⟩
    put        := by
      rintro _ _ _ ⟨rfl, -⟩ more
      exact absurd rfl more
    sated      := by
      rintro _ _ n t ⟨-, rfl⟩ - (_ | ⟨-, fits, -⟩)
      exact sated n t fits
    ended      := by
      rintro _ _ _ ⟨-, rfl⟩ (_ | _) atEnd
      exact ended atEnd }
  exact h hosts ⟨rfl, rfl⟩ (by simp [Budget.isSpent]) fits calm

theorem readOn_takeLeft {q : State} {state : List Node → State} {nodes : List Node}
    {family : Family} {place : Location} {f : Node × State → Except Refusal State}
    {k : Node × List Node → Session α → Outcome}
    (takeBack : q.takeBack = nodes.head?.map fun n => (n, state nodes.tail))
    (next : ∀ n rest, nodes = n :: rest →
      (consume s).2.readOn (f (n, state rest)) = k (n, rest) s) :
    (consume s).2.readOn (q.takeLeft family place >>= f) =
      (takeLeft family place nodes).outcome k s := by
  rcases nodes with _ | ⟨n, rest⟩
  case nil =>
    simp only [List.head?_nil, Option.map_none] at takeBack
    simp only [State.takeLeft, takeBack]
    rfl
  case cons =>
    simp only [List.head?_cons, Option.map_some, List.tail_cons] at takeBack
    simp only [State.takeLeft, takeBack, takeLeft]
    split
    case isTrue  => exact next n rest rfl
    case isFalse => rfl

-- What could be a cast is a type query if nothing follows that it could be cast to.
theorem readOn_query {q : State} {lhs : Node} {place : Location} (anything : q.awaited = .anything)
    (inside : s.contexts = q.constructs)
    (ends : ∀ l, s.rest.head? = some l →
      l.token.isRelation ∨ closesIn s.contexts.head? l.token) :
    s.readOn (.ok (q.push (.operator .cast (some lhs) place))) =
      s.readOn (q.put { kind := .typeOf, lhs, location := place }) := by
  obtain ⟨_, stack, program⟩ := q
  obtain rfl : _ = Awaited.anything := anything
  refine Session.readOn_settleCast fun l head => ?_
  rw [State.closes_eq]
  have ends := ends l head
  rwa [inside] at ends

section
variable {n : Nat} (le : n ≤ steps)
include le

theorem readOn_rightOperand (h : Agrees expressions steps) {op : Operator} {lhs : Option Node}
    {place : Location} {q : State} {k : Node → Session α → Outcome} (ne : op ≠ .cast)
    (anything : q.awaited = .anything) (fits : s.Fits q.constructs n)
    (next : ∀ m t, t.Fits q.constructs n → t.readOn (q.put (combine op lhs m place)) = k m t) :
    s.readOn (.ok (q.push (.operator op lhs place))) =
      (rightOperand expressions op).outcome k s := by
  obtain ⟨_, stack, program⟩ := q
  obtain rfl : _ = Awaited.anything := anything
  have settled : (State.push ⟨.anything, stack, program⟩ (.operator op lhs place)).settleCast =
      .ok (State.push ⟨.anything, stack, program⟩ (.operator op lhs place)) := by
    cases op
    case cast => contradiction
    all_goals rfl
  unfold rightOperand
  simp only [outcome_bind, outcome_peek]
  rcases rest_eq : s.rest with _ | ⟨l, lexemes⟩
  case nil =>
    simp only [List.head?_nil, outcome_bind, outcome_here, outcome_reject, rest_eq]
    refine Session.readOn_congr_of_nil rest_eq ?_
    change State.endLine _ _ = _
    rw [State.endLine, settled]
    rfl
  case cons =>
    simp only [List.head?_cons, outcome_bind]
    refine h.single rfl rfl (fits.mono le) (fun _ _ _ => settled) ?_ ?_
    case refine_1 =>
      intro atEnd
      simp only [outcome_bind, outcome_here, outcome_reject, rest_eq]
      refine Session.readOn_refused rest_eq ?_
      have closes := atEnd l (by simp [rest_eq])
      rw [fits.contexts_eq] at closes
      rw [State.step_eq_close rfl settled rfl closes]
      rfl
    case refine_2 =>
      intro m t fits'
      have next := next m t (fits'.mono (Nat.le_of_lt fits.size_lt))
      simp only [State.put, State.push, State.deliver] at next ⊢
      split
      case isTrue accepts => exact next
      case isFalse rejects => rfl

theorem readOn_infix (h : Agrees expressions steps) {op : Operator} {place start : Location}
    {q : State} {state : List Node → State} {nodes : List Node}
    {k : Node × List Node → Session α → Outcome} (ne : op ≠ .cast)
    (anything : ∀ nodes, (state nodes).awaited = .anything)
    (constructs : ∀ nodes, (state nodes).constructs = contexts)
    (takeBack : q.takeBack = nodes.head?.map fun n => (n, state nodes.tail))
    (fits : (consume s).2.Fits contexts n)
    (next : ∀ m lhs rest t, nodes = lhs :: rest → m.start = lhs.start → t.Fits contexts n →
      t.readOn ((state rest).put m) = k (m, rest) t) :
    (consume s).2.readOn (q.takeLeft op.family place >>= fun (lhs, q) =>
        return q.push (.operator op (some lhs) start)) =
      (takeLeft op.family place nodes >>= fun (lhs, nodes) => do
        consume
        return (combine op lhs (← rightOperand expressions op) start, nodes)).outcome k s := by
  rw [outcome_bind]
  refine readOn_takeLeft takeBack fun lhs rest nodes_eq => ?_
  simp only [outcome_bind, outcome_consume, outcome_pure]
  rw [← constructs rest] at fits
  refine readOn_rightOperand le h ne (anything rest) fits fun m t fits => ?_
  rw [constructs rest] at fits
  exact next _ lhs rest t nodes_eq rfl fits

theorem readOn_typing (h : Agrees expressions steps) {l : Lexeme} {q : State}
    {state : List Node → State} {nodes : List Node} {k : Node × List Node → Session α → Outcome}
    (anything : ∀ nodes, (state nodes).awaited = .anything)
    (constructs : ∀ nodes, (state nodes).constructs = contexts)
    (takeBack : q.takeBack = nodes.head?.map fun n => (n, state nodes.tail))
    (fits : (consume s).2.Fits contexts n)
    (next : ∀ m lhs rest t, nodes = lhs :: rest → m.start = lhs.start → t.Fits contexts n →
      t.readOn ((state rest).put m) = k (m, rest) t) :
    (consume s).2.readOn (q.takeLeft .typing l.start >>= fun (lhs, q) =>
        return q.push (.operator .cast (some lhs) l.start)) =
      (typing expressions l nodes).outcome k s := by
  unfold typing
  rw [outcome_bind]
  refine readOn_takeLeft takeBack fun lhs rest nodes_eq => ?_
  simp only [outcome_bind, outcome_consume, outcome_peek]
  generalize (consume s).2 = t at fits
  have anything := anything rest
  have constructs := constructs rest
  have next := fun m t => next m lhs rest t nodes_eq
  clear takeBack
  generalize state rest = q at anything constructs next
  subst constructs
  have query (ends : ∀ l, t.rest.head? = some l →
      l.token.isRelation ∨ closesIn t.contexts.head? l.token) :
      t.readOn (.ok (q.push (.operator .cast (some lhs) l.start))) =
        k ({ kind := .typeOf, lhs, location := l.start }, rest) t :=
    (readOn_query anything fits.contexts_eq ends).trans (next _ _ rfl fits)
  rcases rest_eq : t.rest with _ | ⟨l', lexemes⟩
  case nil => exact query (by simp [rest_eq])
  case cons =>
    simp only [List.head?_cons, outcome_bind, outcome_contexts]
    by_cases ends : l'.token.isRelation || closesIn t.contexts.head? l'.token
    case pos =>
      rw [if_pos ends]
      refine query fun l'' head => ?_
      obtain rfl : l' = l'' := by simpa [rest_eq] using head
      simpa using ends
    case neg =>
      rw [if_neg ends, outcome_bind]
      simp only [Bool.or_eq_true, not_or] at ends
      obtain ⟨_, stack, program⟩ := q
      obtain rfl : _ = Awaited.anything := anything
      refine h.single rfl rfl (fits.mono le) ?_ ?_ ?_
      case refine_1 =>
        intro l'' head relation
        obtain rfl : l' = l'' := by simpa [rest_eq] using head
        exact absurd relation ends.1
      case refine_2 =>
        intro atEnd
        exact absurd (atEnd l' (by simp [rest_eq])) ends.2
      case refine_3 =>
        intro m u fits'
        have fits' := fits'.mono (Nat.le_of_lt fits.size_lt)
        have next := next (combine .cast lhs m l.start) u rfl fits'
        simp only [State.put, State.push, State.deliver] at next ⊢
        by_cases named : m.kind = .identifier
        case pos => simpa [Operator.family, Family.acceptsRight, named] using next
        case neg => simp [Operator.family, Family.acceptsRight, named]

end

section
variable {n : Nat}

theorem readOn_of_ended [LawfulSupplier α] {k : Bool → Session α → Outcome} {q : State}
    {construct : Construct} (stays : ∀ stop, q.endLine stop = .ok q)
    (unclosed : q.unclosed = some construct) (fits : s.Fits contexts (n + 1))
    (rest_eq : s.rest = [])
    (line : ∀ t, t.Fits contexts n → t.readOn (.ok q) = k true t)
    (ended : ∀ t, t.rest = [] → t.line = s.line →
      t.readOn (.error { fault := .openConstruct construct, place := s.line.stop }) = k false t) :
    s.readOn (.ok q) = nextLine.outcome k s := by
  have read : s.readOn (.ok q) = readFrom q s.line (LineSupplier.feed s.supplier).failure
      (LineSupplier.feed s.supplier).lines := by
    rw [Session.readOn_nil rest_eq]
    have stays : (.ok q >>= (·.endLine s.line.stop)) = Except.ok q := stays _
    rw [stays]
  rw [read]
  have pulls := pulls_nextLine fits.valid
  unfold outcome
  generalize nextLine s = pulled at pulls
  cases pulls
  case line l lines failure supplier before after valid =>
    have next := line _ (fits.line before after valid)
    rw [← Session.readFrom_line rfl after] at next
    rw [before]
    exact next
  case failed before after valid =>
    rw [before]
    simp only [readFrom, after]
  case ended supplier before after valid =>
    refine Eq.trans ?_ (ended { s with supplier } rest_eq rfl)
    change _ = (_, LineSupplier.feed supplier)
    rw [before, after]
    simp only [readFrom, unclosed]

theorem readOn_skipToToken [LawfulSupplier α] {k : Unit → Session α → Outcome} {q : State}
    {construct : Construct} (stays : ∀ stop, q.endLine stop = .ok q)
    (unclosed : q.unclosed = some construct) (le : n ≤ steps) (fits : s.Fits contexts n)
    (next : ∀ l lexemes t, t.rest = l :: lexemes → t.Fits contexts n →
      t.readOn (.ok q) = k () t) :
    s.readOn (.ok q) = (skipToToken construct steps).outcome k s := by
  induction steps generalizing s n
  case zero => exact absurd fits.size_lt (by omega)
  case succ steps hi =>
    rw [skipToToken]
    simp only [outcome_bind, outcome_peek]
    rcases rest_eq : s.rest with _ | ⟨l, lexemes⟩
    case nil =>
      simp only [List.head?_nil, outcome_bind]
      rcases n with _ | n
      case zero => exact absurd fits.size_lt (by omega)
      case succ =>
        refine readOn_of_ended stays unclosed fits rest_eq (fun t fits' => ?_) fun t nil line => ?_
        case refine_1 =>
          exact hi (Nat.le_of_succ_le_succ le) fits' fun l lexemes t rest_eq fits =>
            next l lexemes t rest_eq (fits.mono (Nat.le_succ n))
        case refine_2 =>
          simp [nil, line]
    case cons => exact next l lexemes s rest_eq fits

end

end Builder
end WispSyntax

import WispSyntax.Proofs.Tracking

/-!
The parts of the descent without tokens, called from any session (`Routine`), and the turns of their
loops (`Iteration`). Each of them takes up something of the input, so that none goes on forever.
Expressions end where their budget does or where there is nothing to read for them, so that there
are ways that none of the parts ever goes. Every part leaves the constructs that it enters.
-/

namespace WispSyntax

open WispSyntax.Parser

variable {α β σ : Type}

-- A part of the descent, as other parts of it call it.
inductive Routine
  | expressions (budget : Budget)
  | word
  | number
  | string
  | math (nodes : List Node)
  | relation (nodes : List Node)
  | negation (nodes : List Node)
  | typing (nodes : List Node)
  | function (place : Location)
  | block
  | group
  | call (name : String) (place : Location)
  | skipToToken (construct : Construct)

-- A turn of a loop.
inductive Iteration
  | expression (left : Budget) (nodes : List Node)
  | content (nodes : List Node)
  | entry (paired : Bool) (done : List (List Node))
  | skip (construct : Construct)
  | line (nodes : List Node)

def Turn.goesOn : Turn σ β → Bool
  | leave _ => false
  | again _ => true

namespace Routine

-- Scanners are called for a run of characters that the first one tells.
def IsScanner : Routine → Prop
  | word | number | string => True
  | _                      => False

-- Whether a scanner is called in front of such a run. There is no string without its quotes anyway.
def Fits (s : Session α) : Routine → Prop
  | word   => ∃ c ∈ s.ahead.head?, isLetter c
  | number => ∃ c ∈ s.ahead.head?, c.isDigit
  | _      => True

-- Builders are called for an operator or a construct.
def IsBuilder : Routine → Prop
  | expressions _ | word | number | string | skipToToken _ => False
  | _                                                      => True

def IsFunction : Routine → Prop
  | function _ => True
  | _          => False

-- What it does, with so many levels for expressions.
def run [LineSupplier α] (depth : Nat) : Routine → Reading α Unit
  | expressions budget    => do let _ ← Cursor.expressions depth budget
  | word                  => do let _ ← Cursor.word (Cursor.expressions depth)
  | number                => do let _ ← Cursor.number
  | string                => do let _ ← Cursor.string
  | math nodes            => do let _ ← Cursor.math (Cursor.expressions depth) nodes
  | relation nodes        => do let _ ← Cursor.relation (Cursor.expressions depth) nodes
  | negation nodes        => do let _ ← Cursor.negation (Cursor.expressions depth) nodes
  | typing nodes          => do let _ ← Cursor.typing (Cursor.expressions depth) nodes
  | function place        => do let _ ← Cursor.function (Cursor.expressions depth) place
  | block                 => do let _ ← Cursor.block (Cursor.expressions depth)
  | group                 => do let _ ← Cursor.group (Cursor.expressions depth)
  | call name place       => do let _ ← Cursor.call (Cursor.expressions depth) name place
  | skipToToken construct => Cursor.skipToToken construct

end Routine

namespace Iteration

-- Whether the session is inside of what the loop is about.
def Fits (s : Session α) : Iteration → Prop
  | content _      => s.contexts.head? = some .block
  | entry paired _ => s.contexts.head? = some (if paired then .declaration else .group)
  | _              => True

-- The turn, which comes to whether there is another one.
def run [LineSupplier α] (depth : Nat) : Iteration → Reading α Bool
  | expression left nodes => do
    return (← Cursor.expressionTurn (Cursor.expressions depth) (left, nodes)).goesOn
  | content nodes         => do
    return (← Cursor.contentTurn (Cursor.expressions depth) nodes).goesOn
  | entry paired done     => do
    return (← Cursor.entriesTurn (Cursor.expressions depth) paired done).goesOn
  | skip construct        => do
    return (← Cursor.skipTurn construct ()).goesOn
  | line nodes            => do
    return (← Cursor.programTurn (Cursor.expressions depth) nodes).goesOn

end Iteration

namespace Runs

section
variable [LineSupplier α] {P : Event → Prop} {s : Session (Recorded α)} {depth : Nat}

theorem ensures_of_eq {x : Reading α β} {Q : β → Session (Recorded α) → Prop} {b : β}
    {t : Session (Recorded α)} (h : Runs P x s Q) (eq : x s = (.ok b, t)) : Q b t := by
  have ensures := h.ensures b
  rw [eq] at ensures
  exact ensures rfl

variable (bears : Bears P)
include bears

theorem routine_run (routine : Routine) (enough : s.Enough P depth)
    (falls : ∀ arm, P (.fellThrough arm))
    (enters : routine.IsFunction → P (.moved s.contexts) →
      P (.moved (.declaration :: s.contexts))) :
    Runs P (routine.run depth) s fun _ t =>
      routine.IsBuilder ∨ routine.IsScanner ∧ routine.Fits s → s.Spends t := by
  have he := expressions (α := α) bears depth
  have built {γ : Type} {x : Reading α γ} {Q : Prop} (h : Runs P x s fun _ => s.Spends) :
      Runs P (do let _ ← x) s fun _ t => Q → s.Spends t :=
    h.bind fun _ _ _ spends => pure fun _ => spends
  have scanned {x : Reading α Node} {Q : Prop} (h : Runs P x s fun _ t => Q → s.Spends t) :
      Runs P (do let _ ← x) s fun _ t => False ∨ True ∧ Q → s.Spends t :=
    h.bind fun _ _ _ spends => pure fun fits => spends (fits.resolve_left id).2
  have neither {Q R : Prop} (h : False ∨ False ∧ Q) : R := h.elim False.elim (False.elim ·.1)
  have taken {x : Reading α (Node × List Node)} {nodes : List Node}
      (h : Runs P x s (s.Takes nodes)) : Runs P x s fun _ => s.Spends :=
    h.mono fun _ _ _ takes => takes.spends
  cases routine
  case expressions budget => exact (he budget s enough).bind fun _ _ _ _ => pure neither
  case word           => exact scanned (word he bears enough.succ)
  case number         => exact scanned (number enough.calm)
  case string         => exact built string
  case math nodes     => exact built (taken (math he bears nodes enough.succ (.inl (falls _))))
  case relation nodes => exact built (taken (relation he bears nodes enough.succ (.inl (falls _))))
  case negation nodes => exact built (taken (negation he bears nodes enough.succ))
  case typing nodes   => exact built (taken (typing he nodes enough.succ))
  case function place => exact built (function he bears place enough (enters trivial))
  case block          => exact built (block he bears enough.succ)
  case group          => exact built (group he bears enough.succ)
  case call name place => exact built (Runs.call he bears name place enough.succ)
  case skipToToken    => exact (skipToToken _ enough.calm).mono fun _ _ _ _ => neither

theorem iteration_run (turn : Iteration) (fits : turn.Fits s) (enough : s.Enough P depth) :
    Runs P (turn.run depth) s fun again t => again = true → s.Spends t := by
  have he := expressions (α := α) bears depth
  have goesOn {σ γ : Type} {x : Reading α (Turn σ γ)} {I : σ → Session (Recorded α) → Prop}
      {Q : γ → Session (Recorded α) → Prop} (h : Runs P x s (Taken I Q s)) :
      Runs P (return (← x).goesOn) s fun again t => again = true → s.Spends t := by
    refine h.bind fun turn t _ taken => pure fun again => ?_
    cases turn
    case leave => cases again
    case again => exact taken.2
  cases turn
  case expression left nodes => exact goesOn (expressionTurn he bears (left, nodes) enough.succ)
  case content nodes         => exact goesOn (contentTurn he nodes enough fits)
  case entry paired done     =>
    refine goesOn (entriesTurn he bears paired done enough fits ?_)
    cases paired
    case false => exact .inl rfl
    case true  => exact .inr rfl
  case skip construct        => exact goesOn (skipTurn construct)
  case line nodes            => exact goesOn (programTurn he nodes enough.succ)

end
end Runs

namespace Session

theorem holds_recorded {P : Event → Prop} {s : Session α} [LineSupplier α]
    (moved : P (.moved s.contexts)) : (s.recorded []).Holds P :=
  ⟨moved, List.forall_mem_nil _⟩

end Session

-- All that may happen while there are as many turns and levels as are asked for.
theorem bears_unexhausted : Bears (· ≠ .exhausted) where
  enter _ _        := nofun
  missingOperand _ := nofun
  emptyEntry       := nofun

theorem bears_true : Bears fun _ => True where
  enter _ _        := trivial
  missingOperand _ := trivial
  emptyEntry       := trivial

-- What holds of a routine wherever it is called, with any number of levels.
theorem Runs.routine_anywhere [LineSupplier α] (routine : Routine) (depth : Nat)
    (s : Session (Recorded α)) :
    Runs (fun _ => True) (routine.run depth) s fun _ t =>
      routine.IsBuilder ∨ routine.IsScanner ∧ routine.Fits s → s.Spends t :=
  routine_run bears_true routine (.inl trivial) (fun _ => trivial) fun _ => id

namespace Event

-- Nothing has been missing where there was something, and no way has been gone that no input leads
-- to.
def IsSound : Event → Prop
  | missingOperand contexts next => ∀ c ∈ next, Cursor.closes contexts.head? c
  | emptyEntry next              => next = some ','
  | fellThrough _                => False
  | moved _ | exhausted          => True

-- At most one of the constructs that the session has been inside of is a declaration.
def Declares : Event → Prop
  | moved contexts => contexts.count .declaration ≤ 1
  | _              => True

theorem bears_isSound : Bears IsSound where
  enter _ _            := trivial
  missingOperand halts := halts
  emptyEntry           := rfl

theorem bears_declares : Bears Declares where
  enter {construct contexts} outside once := by
    by_cases eq : construct = .declaration
    case pos =>
      subst eq
      have none : contexts.count .declaration = 0 := List.count_eq_zero.mpr (outside rfl)
      rw [Declares, List.count_cons_self, none]
    case neg =>
      rw [Declares, List.count_cons_of_ne eq]
      exact once
  missingOperand _ := trivial
  emptyEntry       := trivial

end Event

namespace Cursor

variable [LineSupplier α]

-- Every turn that is not the last one takes up something of the lines, and so does every builder
-- that succeeds and every scanner that does in front of what it is for. No routine gives anything
-- back, and as many turns and levels as there are characters and lines left are enough for each.
theorem routine_spends [LawfulSupplier α] {s : Session α}
    (isValid : LineSupplier.IsValid s.supplier) (depth : Nat) :
    (∀ turn : Iteration, turn.Fits s → ∀ t, turn.run depth (s.recorded []) = (.ok true, t) →
      t.left < s.left) ∧
    (∀ routine : Routine,
      (routine.run depth (s.recorded [])).2.left ≤ s.left ∧
      (routine.IsBuilder ∨ routine.IsScanner ∧ routine.Fits s →
        ∀ t, routine.run depth (s.recorded []) = (.ok (), t) → t.left < s.left) ∧
      (s.amount < depth → .exhausted ∉ (routine.run depth (s.recorded [])).2.events)) ∧
    .exhausted ∉ (program (s.recorded [])).2.events ∧
    (program (s.recorded [])).1 = (Session.parseProgram s).1 := by
  have lawful : (s.recorded []).IsLawful := ⟨inferInstance, isValid⟩
  have calm : (s.recorded []).Holds (· ≠ .exhausted) := Session.holds_recorded nofun
  refine ⟨fun turn fits t result => ?_,
    fun routine => ⟨?_, fun fits t result => ?_, ?_⟩, ?_, program_eq isValid []⟩
  case refine_1 =>
    exact ((Runs.iteration_run bears_true turn fits (.inl trivial)).ensures_of_eq result
      rfl).left_lt lawful
  case refine_2 => exact (Runs.routine_anywhere routine depth _).goes.left_le lawful
  case refine_3 =>
    exact ((Runs.routine_anywhere routine depth _).ensures_of_eq result fits).left_lt lawful
  case refine_4 =>
    intro enough exhausted
    exact (Runs.routine_run bears_unexhausted routine (.inr ⟨lawful, enough⟩) (fun _ => nofun)
      fun _ _ => nofun).goes.events calm _ exhausted rfl
  case refine_5 =>
    intro exhausted
    exact (Runs.program bears_unexhausted (.inr lawful)).goes.events calm _ exhausted rfl

-- A session in front of a block that ends in the next line, and one at the end of the first line.
def openBlock : Session TextLines :=
  { supplier := { lines := [⟨2, "\x7d"⟩] }, line := ⟨1, "\x7b a + 1"⟩ }

def insideBlock : Session TextLines :=
  { openBlock with position := 7, contexts := [.block] }

theorem routine_spends_block :
    let built := Routine.block.run 10 (openBlock.recorded [])
    let skipped := (Iteration.skip .block).run 10 (insideBlock.recorded [])
    (built.1 = .ok () ∧ built.2.left < openBlock.left ∧ .exhausted ∉ built.2.events) ∧
      skipped.1 = .ok true ∧ skipped.2.left < insideBlock.left := by
  have routines := (routine_spends (s := openBlock) trivial 10).2.1 .block
  have turns := (routine_spends (s := insideBlock) trivial 10).1 (.skip .block) trivial
  have built_eq : (Routine.block.run 10 (openBlock.recorded [])).1 = .ok () := by rfl
  have skipped_eq : ((Iteration.skip .block).run 10 (insideBlock.recorded [])).1 = .ok true := by
    rfl
  refine ⟨⟨built_eq, ?_, routines.2.2 (by decide)⟩, skipped_eq, ?_⟩
  · exact routines.2.1 (.inl trivial) _ (Prod.ext built_eq rfl)
  · exact turns _ (Prod.ext skipped_eq rfl)

-- There are at most as many expressions as the budget allows for. They end where it does, or in
-- front of the end of the line or of a character that closes the construct around them. Hence there
-- is an operand, an entry or a target of a cast wherever one can be, and an operator wherever one
-- begins.
theorem expressions_halt (s : Session α) (depth : Nat) (budget : Budget) :
    (∀ left nodes t,
      sideBySide (expressions depth) budget (s.recorded []) = (.ok (left, nodes), t) →
      (∀ n, budget = .limited n → nodes.length ≤ n) ∧ (left.isSpent ∨ t.Halts)) ∧
    (∀ c nodes t, (s.ahead.dropWhile isBlank).head? = some c → closes s.contexts.head? c = false →
      expressions depth (.limited 1) (s.recorded []) = (.ok nodes, t) → nodes.length = 1) ∧
    (∀ e ∈ (expressions depth budget (s.recorded [])).2.events, e.IsSound) ∧
    (∀ e ∈ (program (s.recorded [])).2.events, e.IsSound) ∧
    (∀ fault place line,
      (expressions depth budget (s.recorded [])).1 = .error (.rejected fault place line) ∨
        (program (s.recorded [])).1 = .error (.rejected fault place line) → fault.occurs) ∧
    (∀ [LawfulSupplier α], LineSupplier.IsValid s.supplier →
      (program (s.recorded [])).1 = (Session.parseProgram s).1 ∧
      ∀ steps, s.position ≤ s.line.text.length → s.amount < depth → s.size < steps →
        (expressions depth budget (s.recorded [])).1 = (Builder.dispatch steps budget [] s).1) := by
  have sound : (s.recorded []).Holds Event.IsSound := Session.holds_recorded trivial
  have runs := Runs.expressions (α := α) Event.bears_isSound depth
  have runsProgram : Runs Event.IsSound program (s.recorded []) _ :=
    .program Event.bears_isSound (.inl trivial)
  refine ⟨fun left nodes t result => ?_, fun c nodes t next unclosed result => ?_, ?_, ?_,
    fun fault place line failed => ?_,
    fun isValid => ⟨program_eq isValid [], fun _ => expressions_eq isValid [] budget⟩⟩
  case refine_1 =>
    have produces :=
      (Runs.sideBySide runs Event.bears_isSound budget (.inl trivial)).ensures_of_eq result
    exact ⟨fun _ => produces.brings.length_le, produces.ends⟩
  case refine_2 =>
    have brings := (runs _ _ (.inl trivial)).ensures_of_eq result
    have ne_nil : nodes ≠ [] := by
      rintro rfl
      have halts := brings.halts rfl rfl
      rw [brings.eq_skipped rfl rfl] at halts
      exact Bool.eq_false_iff.mp unclosed (halts c (by rwa [Session.ahead_skipped]))
    exact Nat.le_antisymm (brings.length_le rfl) (List.length_pos_iff.mpr ne_nil)
  case refine_3 => exact (runs budget _ (.inl trivial)).goes.events sound
  case refine_4 => exact runsProgram.goes.events sound
  case refine_5 =>
    have due : (Failure.rejected fault place line).IsDue Event.IsSound :=
      failed.elim ((runs budget _ (.inl trivial)).fails _) (runsProgram.fails _)
    exact due.resolve_right fun ⟨_, never⟩ => never

-- A session in front of two entries, the first one of which is a pair.
def pairedEntry : Session TextLines :=
  { supplier := { lines := [] }, line := ⟨1, "a b, c"⟩, contexts := [.group] }

theorem expressions_halt_comma :
    let all := sideBySide (expressions 9) .unbounded (pairedEntry.recorded [])
    let one := expressions 9 (.limited 1) (pairedEntry.recorded [])
    (all.1.isOk ∧ all.2.Halts) ∧ (∃ nodes, one.1 = .ok nodes ∧ nodes.length = 1) ∧
      one.1 = (Builder.dispatch 9 (.limited 1) [] pairedEntry).1 := by
  have halts := expressions_halt pairedEntry 9 .unbounded
  have alone := expressions_halt pairedEntry 9 (.limited 1)
  have all_eq : (sideBySide (expressions 9) .unbounded (pairedEntry.recorded [])).1 =
      .ok (.unbounded, [.leaf .identifier "b" ⟨1, 3⟩, .leaf .identifier "a" ⟨1, 1⟩]) := by rfl
  have one_eq : (expressions 9 (.limited 1) (pairedEntry.recorded [])).1 =
      .ok [.leaf .identifier "a" ⟨1, 1⟩] := by rfl
  have ends := (halts.1 _ _ _ (Prod.ext all_eq rfl)).2.resolve_left (by decide)
  refine ⟨⟨congrArg Except.isOk all_eq, ends⟩, ⟨_, one_eq, ?_⟩, ?_⟩
  · exact alone.2.1 'a' _ _ rfl rfl (Prod.ext one_eq rfl)
  · exact (alone.2.2.2.2.2 trivial).2 9 (by decide) (by decide) (by decide)

-- Whatever a routine comes to, it leaves the constructs that it has entered and no others. There is
-- never a declaration inside of another one on the way: a word that would begin one asks for it, so
-- that a function is only called for outside of all declarations.
theorem routine_leaves (s : Session α) (depth : Nat) :
    (∀ routine : Routine,
      let t := (routine.run depth (s.recorded [])).2
      t.contexts = s.contexts ∧
      (s.contexts.count .declaration ≤ 1 → (routine.IsFunction → .declaration ∉ s.contexts) →
        ∀ contexts, .moved contexts ∈ t.events → contexts.count .declaration ≤ 1)) ∧
    (program (s.recorded [])).2.contexts = s.contexts ∧
    (s.contexts.count .declaration ≤ 1 →
      ∀ contexts, .moved contexts ∈ (program (s.recorded [])).2.events →
        contexts.count .declaration ≤ 1) ∧
    (Session.parseProgram s).2.contexts = s.contexts ∧
    ∀ steps budget, (Builder.dispatch steps budget [] s).2.contexts = s.contexts := by
  refine ⟨fun routine => ⟨?_, fun once outside contexts moved => ?_⟩, ?_,
    fun once contexts moved => ?_, ?_, fun steps budget => ?_⟩
  case refine_1 => exact (Runs.routine_anywhere routine depth _).goes.contexts_eq
  case refine_2 =>
    have enters (function : routine.IsFunction) : Event.Declares (.moved s.contexts) →
        Event.Declares (.moved (.declaration :: s.contexts)) :=
      Event.bears_declares.enter fun _ => outside function
    exact (Runs.routine_run Event.bears_declares routine (.inl trivial) (fun _ => trivial)
      enters).goes.events (Session.holds_recorded once) _ moved
  case refine_3 => exact (Runs.program bears_true (.inl trivial)).goes.contexts_eq
  case refine_4 =>
    exact (Runs.program Event.bears_declares (.inl trivial)).goes.events
      (Session.holds_recorded once) _ moved
  case refine_5 => exact Builder.moves_lines Builder.stable_contexts _ _ s
  case refine_6 => exact Builder.moves_dispatch Builder.stable_contexts steps budget [] s

-- A session in front of a body that a declaration is nested in.
def nestingBody : Session TextLines :=
  { supplier := { lines := [⟨2, "\x7d \x7d"⟩] }, line := ⟨1, "\x7b ( fn g() \x7b"⟩
    contexts := [.declaration] }

theorem routine_leaves_nested :
    let failed := Routine.block.run 20 (nestingBody.recorded [])
    failed.1 = .error (.rejected .nestedFunction ⟨1, 5⟩ "\x7b ( fn g() \x7b") ∧
      failed.2.contexts = [.declaration] ∧
      ∀ contexts, .moved contexts ∈ failed.2.events → contexts.count .declaration ≤ 1 := by
  have leaves := (routine_leaves nestingBody 20).1 .block
  exact ⟨by rfl, leaves.1, leaves.2 (by decide) False.elim⟩

-- A session in front of the head of a function, inside of the head of another one.
def nestedHead : Session TextLines :=
  { supplier := { lines := [] }, line := ⟨1, "g() \x7b a \x7d"⟩, contexts := [.declaration] }

-- A function by itself does not ask whether it is inside of a declaration.
theorem function_nests_declarations :
    let t := (Routine.function ⟨1, 1⟩).run 20 (nestedHead.recorded [])
    nestedHead.contexts.count .declaration ≤ 1 ∧ t.1 = .ok () ∧
      ∃ contexts, .moved contexts ∈ t.2.events ∧ ¬contexts.count .declaration ≤ 1 := by
  refine ⟨by decide, by rfl, [.declaration, .declaration], ?_, by decide⟩
  decide +kernel

end Cursor
end WispSyntax

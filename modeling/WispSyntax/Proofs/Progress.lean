import Mathlib.Data.Prod.Lex
import WispSyntax.Proofs.Balance
import WispSyntax.Proofs.Cursor

/-!
What may become of a session on the way of a descent: it goes on (`Session.Goes`), and it takes up
something of the input (`Session.Spends`). Only expressions side by side may take up nothing: then
there is nothing to read in front of the end of the line or of a character that closes the construct
around them (`Session.Brings`).
-/

namespace WispSyntax

open WispSyntax.Parser

variable {α : Type}

-- What may happen on the way of a descent, wherever it starts.
structure Bears (P : Event → Prop) : Prop where
  enter {construct : Construct} {contexts : List Construct}
    (outside : construct = .declaration → .declaration ∉ contexts) :
    P (.moved contexts) → P (.moved (construct :: contexts))
  missingOperand {contexts : List Construct} {next : Option Char}
    (halts : ∀ c ∈ next, Cursor.closes contexts.head? c) : P (.missingOperand contexts next)
  emptyEntry : P (.emptyEntry (some ','))

namespace Session

-- The lines that have not been pulled yet, and the characters that are left of the line.
def left [LineSupplier α] (s : Session α) : Nat ×ₗ Nat :=
  toLex ((LineSupplier.feed s.supplier).lines.length, s.ahead.length)

-- The next character, if there is one, closes the innermost construct.
def Halts (s : Session α) : Prop :=
  ∀ c ∈ s.ahead.head?, Cursor.closes s.contexts.head? c

-- There is something to read.
def Ready (s : Session α) : Prop :=
  ∃ c ∈ s.ahead.head?, isBlank c = false

section
variable [LineSupplier α]

-- The supplier keeps to what its feed tells.
def IsLawful (s : Session (Recorded α)) : Prop :=
  LawfulSupplier α ∧ LineSupplier.IsValid s.supplier

-- All that is recorded holds, and so would that the session goes on in its place.
structure Holds (P : Event → Prop) (s : Session (Recorded α)) : Prop where
  moved  : P (.moved s.contexts)
  events : ∀ e ∈ s.events, P e

-- The one session may have become the other on the way.
structure Goes (P : Event → Prop) (s t : Session (Recorded α)) : Prop where
  contexts_eq : t.contexts = s.contexts
  events      : s.Holds P → ∀ e ∈ t.events, P e
  isLawful    : s.IsLawful → t.IsLawful
  left_le     : s.IsLawful → t.left ≤ s.left
  amount_le   : s.IsLawful → t.amount ≤ s.amount

-- There is less left afterwards.
structure Spends (s t : Session (Recorded α)) : Prop where
  isLawful  : s.IsLawful → t.IsLawful
  left_lt   : s.IsLawful → t.left < s.left
  amount_lt : s.IsLawful → t.amount < s.amount

-- So many turns or levels are enough, unless it is no matter whether they are.
def Enough (P : Event → Prop) (n : Nat) (s : Session (Recorded α)) : Prop :=
  P .exhausted ∨ s.IsLawful ∧ s.amount < n

-- The session after blanks.
def skipped (s : Session (Recorded α)) : Session (Recorded α) :=
  s.past (s.ahead.takeWhile isBlank).length

-- The expressions are as many as the budget allows for at most. If there are none, the session has
-- come to a halt after blanks.
structure Brings (budget : Budget) (s : Session (Recorded α)) (nodes : List Node)
    (t : Session (Recorded α)) : Prop where
  length_le {n : Nat} (limited : budget = .limited n) : nodes.length ≤ n
  spends (ne_nil : nodes ≠ []) : s.Spends t
  eq_skipped (eq_nil : nodes = []) (left : budget.isSpent = false) : t = s.skipped
  halts (eq_nil : nodes = []) (left : budget.isSpent = false) : t.Halts

-- An operator has taken its operands.
structure Takes (nodes : List Node) (s : Session (Recorded α)) (result : Node × List Node)
    (t : Session (Recorded α)) : Prop where
  length_le : result.2.length ≤ nodes.length
  spends    : s.Spends t

-- Some of the expressions have been produced, and there is so much of the budget left.
structure Producing (budget : Budget) (s : Session (Recorded α)) (result : Budget × List Node)
    (t : Session (Recorded α)) : Prop where
  limited {n : Nat} (limited : budget = .limited n) :
    ∃ m, result.1 = .limited m ∧ result.2.length + m ≤ n
  unmoved (eq_nil : result.2 = []) : t = s ∧ result.1 = budget
  spends (ne_nil : result.2 ≠ []) : s.Spends t

-- The expressions have been produced, and it has not been up to the budget alone where they end.
structure Produces (budget : Budget) (s : Session (Recorded α)) (result : Budget × List Node)
    (t : Session (Recorded α)) : Prop where
  brings : s.Brings budget result.2 t
  ends   : result.1.isSpent ∨ t.Halts

-- The session inside of one more construct.
def entered (s : Session (Recorded α)) (construct : Construct) : Session (Recorded α) :=
  { s with contexts := construct :: s.contexts : Session _ }.noting
    (.moved (construct :: s.contexts))

-- The session outside of the innermost construct.
def exited (s : Session (Recorded α)) : Session (Recorded α) :=
  { s with contexts := s.contexts.tail : Session _ }.noting (.moved s.contexts.tail)

end

section
variable {P : Event → Prop} {s t u : Session (Recorded α)} {n : Nat}

theorem ahead_past (s : Session (Recorded α)) (n : Nat) : (s.past n).ahead = s.ahead.drop n := by
  rw [ahead, ahead, List.drop_drop]
  rfl

theorem ahead_skipped (s : Session (Recorded α)) : s.skipped.ahead = s.ahead.dropWhile isBlank := by
  rw [skipped, ahead_past, drop_length_takeWhile]

theorem Ready.ahead_skipped (h : s.Ready) : s.skipped.ahead = s.ahead := by
  obtain ⟨c, head, notBlank⟩ := h
  rw [Session.ahead_skipped]
  rcases ahead_eq : s.ahead with _ | ⟨d, rest⟩
  case nil  => rfl
  case cons =>
    rw [ahead_eq] at head
    cases head
    exact List.dropWhile_cons_of_neg (by simp [notBlank])

theorem Ready.halts (h : s.Ready) (halts : s.skipped.Halts) : s.Halts := by
  rwa [Halts, h.ahead_skipped] at halts

theorem ready_of_skipped {c : Char} (h : c ∈ s.skipped.ahead.head?) : s.skipped.Ready := by
  refine ⟨c, h, ?_⟩
  rw [Session.ahead_skipped] at h
  have stop := List.head?_dropWhile_not isBlank s.ahead
  rw [h] at stop
  simpa using stop

variable [LineSupplier α]

namespace Goes

theorem refl (s : Session (Recorded α)) : s.Goes P s where
  contexts_eq   := rfl
  events holds  := holds.events
  isLawful h    := h
  left_le _     := le_rfl
  amount_le _   := Nat.le_refl _

theorem holds (h : s.Goes P t) (before : s.Holds P) : t.Holds P where
  moved  := h.contexts_eq ▸ before.moved
  events := h.events before

theorem trans (h : s.Goes P t) (h' : t.Goes P u) : s.Goes P u where
  contexts_eq      := h'.contexts_eq.trans h.contexts_eq
  events before    := h'.events (h.holds before)
  isLawful lawful  := h'.isLawful (h.isLawful lawful)
  left_le lawful   := (h'.left_le (h.isLawful lawful)).trans (h.left_le lawful)
  amount_le lawful := (h'.amount_le (h.isLawful lawful)).trans (h.amount_le lawful)

theorem noting {e : Event} (h : s.Holds P → P e) : s.Goes P (s.noting e) where
  contexts_eq  := rfl
  events holds := by
    rintro f (_ | ⟨_, mem⟩)
    case head => exact h holds
    case tail => exact holds.events f mem
  isLawful h   := h
  left_le _    := le_rfl
  amount_le _  := Nat.le_refl _

theorem past (s : Session (Recorded α)) (n : Nat) : s.Goes P (s.past n) where
  contexts_eq := rfl
  events      := (noting fun holds => holds.moved).events
  isLawful h  := h
  left_le _   := by
    refine Prod.Lex.toLex_le_toLex.mpr (.inr ⟨rfl, ?_⟩)
    rw [ahead_past, List.length_drop]
    exact Nat.sub_le _ _
  amount_le _ := by
    refine Nat.add_le_add_right ?_ _
    rw [ahead_past, List.length_drop]
    exact Nat.sub_le _ _

-- What is done inside of one more construct.
theorem leave {construct : Construct}
    (enters : P (.moved s.contexts) → P (.moved (construct :: s.contexts)))
    (h : (s.entered construct).Goes P t) : s.Goes P t.exited where
  contexts_eq  := congrArg List.tail h.contexts_eq
  events holds := by
    have inner : (s.entered construct).Holds P := by
      refine ⟨enters holds.moved, ?_⟩
      rintro e (_ | ⟨_, mem⟩)
      case head => exact enters holds.moved
      case tail => exact holds.events e mem
    rintro e (_ | ⟨_, mem⟩)
    case head =>
      rw [h.contexts_eq]
      exact holds.moved
    case tail => exact h.events inner e mem
  isLawful     := h.isLawful
  left_le      := h.left_le
  amount_le    := h.amount_le

end Goes

namespace Spends

theorem goes (h : s.Spends t) (goes : t.Goes P u) : s.Spends u where
  isLawful before  := goes.isLawful (h.isLawful before)
  left_lt before   := (goes.left_le (h.isLawful before)).trans_lt (h.left_lt before)
  amount_lt before := (goes.amount_le (h.isLawful before)).trans_lt (h.amount_lt before)

theorem after (goes : s.Goes P t) (h : t.Spends u) : s.Spends u where
  isLawful before  := h.isLawful (goes.isLawful before)
  left_lt before   := (h.left_lt (goes.isLawful before)).trans_le (goes.left_le before)
  amount_lt before := (h.amount_lt (goes.isLawful before)).trans_le (goes.amount_le before)

theorem noting {e : Event} (h : s.Spends t) : s.Spends (t.noting e) :=
  ⟨h.isLawful, h.left_lt, h.amount_lt⟩

theorem leave {construct : Construct} (h : (s.entered construct).Spends t) : s.Spends t.exited :=
  ⟨h.isLawful, h.left_lt, h.amount_lt⟩

theorem past (pos : 0 < n) (ahead_ne : s.ahead ≠ []) : s.Spends (s.past n) := by
  have shorter : (s.past n).ahead.length < s.ahead.length := by
    rw [ahead_past, List.length_drop]
    exact Nat.sub_lt (List.length_pos_iff.mpr ahead_ne) pos
  refine ⟨id, fun _ => ?_, fun _ => ?_⟩
  · exact Prod.Lex.toLex_lt_toLex.mpr (.inr ⟨rfl, shorter⟩)
  · exact Nat.add_lt_add_right shorter _

theorem further (h : s.Spends t) (n : Nat) : s.Spends (t.past n) :=
  h.goes (.past (P := fun _ => True) t n)

theorem before {n : Nat} (h : (s.past n).Spends t) : s.Spends t :=
  h.after (.past (P := fun _ => True) s n)

end Spends

theorem Brings.halts_before {budget : Budget} (h : s.Brings budget [] t)
    (left : budget.isSpent = false) (ready : s.Ready) : s.Halts :=
  ready.halts (h.eq_skipped rfl left ▸ h.halts rfl left)

theorem Producing.length_le {budget : Budget} {result : Budget × List Node}
    (h : s.Producing budget result t) (limited : budget = .limited n) : result.2.length ≤ n := by
  obtain ⟨m, _, le⟩ := h.limited limited
  exact (Nat.le_add_right _ m).trans le

-- The expressions end where there is nothing more to read.
theorem Producing.halts {budget left : Budget} {nodes : List Node}
    (h : s.Producing budget (left, nodes) t) (halts : t.skipped.Halts) :
    s.Produces budget (left, nodes) t.skipped where
  brings :=
    { length_le      := h.length_le
      spends ne_nil  := (h.spends ne_nil).further _
      eq_skipped nil := fun _ => by rw [(h.unmoved nil).1]
      halts _ _      := halts }
  ends   := .inr halts

namespace Enough

theorem goes (h : s.Enough P n) (goes : s.Goes P t) : t.Enough P n :=
  h.imp_right fun ⟨lawful, lt⟩ => ⟨goes.isLawful lawful, (goes.amount_le lawful).trans_lt lt⟩

theorem calm (h : s.Enough P n) : P .exhausted ∨ s.IsLawful :=
  h.imp_right And.left

theorem entered {construct : Construct} (h : s.Enough P n) : (s.entered construct).Enough P n :=
  h

theorem succ (h : s.Enough P n) : s.Enough P (n + 1) :=
  h.imp_right fun ⟨lawful, lt⟩ => ⟨lawful, Nat.lt_succ_of_lt lt⟩

-- One level less is enough for what comes after something has been taken up.
theorem spends (h : s.Enough P (n + 1)) (spends : s.Spends t) : t.Enough P n :=
  h.imp_right fun ⟨lawful, lt⟩ =>
    ⟨spends.isLawful lawful, (spends.amount_lt lawful).trans_le (Nat.le_of_lt_succ lt)⟩

end Enough
end
end Session

namespace Builder.Pulls

variable [LineSupplier α] {s : Session α} {pulled : Except Failure Bool × Session α}

theorem isValid (h : Pulls s pulled) : LineSupplier.IsValid pulled.2.supplier := by
  cases h <;> assumption

-- A line that has been pulled is one line less to pull, and its end counts as well.
theorem left_lt (h : Pulls s pulled) (more : pulled.1 = .ok true) : pulled.2.left < s.left := by
  cases h <;> cases more
  case line before after _ =>
    refine Prod.Lex.toLex_lt_toLex.mpr (.inl ?_)
    rw [before, after]
    exact Nat.lt_succ_self _

theorem amount_lt (h : Pulls s pulled) (more : pulled.1 = .ok true) :
    pulled.2.amount < s.amount := by
  cases h <;> cases more
  case line before after _ =>
    simp only [Session.amount, Session.ahead, before, after, List.drop_zero, String.length_toList,
      List.foldr_cons]
    omega

theorem left_le (h : Pulls s pulled) : pulled.2.left ≤ s.left := by
  by_cases more : pulled.1 = .ok true
  case pos => exact (h.left_lt more).le
  case neg =>
    cases h
    case line => exact absurd rfl more
    all_goals
      rename_i before after _
      exact Prod.Lex.toLex_le_toLex.mpr (.inr ⟨by rw [before, after], Nat.le_refl _⟩)

theorem amount_le (h : Pulls s pulled) : pulled.2.amount ≤ s.amount := by
  by_cases more : pulled.1 = .ok true
  case pos => exact (h.amount_lt more).le
  case neg =>
    cases h
    case line => exact absurd rfl more
    all_goals
      rename_i before after _
      simp only [Session.amount, before, after]
      exact Nat.le_refl _

end Builder.Pulls

end WispSyntax

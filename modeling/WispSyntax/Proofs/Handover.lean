import WispSyntax.Proofs.Stream

/-!
Suppliers under questions. However often a supplier is asked for a line before one is pulled, and
after it, what it hands out stays the same, and in order (`handsOut_lines`).
-/

namespace WispSyntax

namespace Feed

-- What can be pulled: the lines, and then the failure if there is one.
def pulls (f : Feed) : List Pulled :=
  f.lines.map .ok ++ f.failure.toList.map .error

theorem pull_eq (f : Feed) : f.pull.1 = f.pulls.head? ∧ f.pull.2.pulls = f.pulls.tail := by
  rcases f with ⟨_ | _, _ | _⟩ <;> exact ⟨rfl, rfl⟩

theorem hasNext_iff (f : Feed) : f.hasNext ↔ f.pulls.head? ≠ none := by
  rcases f with ⟨_ | _, _ | _⟩ <;> simp [hasNext, pulls]

end Feed

theorem handOut_eq_none_iff {pulled : Option Pulled} :
    handOut pulled = .ok none ↔ pulled = none := by
  rcases pulled with _ | _ | _ <;> simp [handOut]

inductive Call
  | hasNext
  | advance
deriving DecidableEq

namespace LineSupplier

section
variable {α β : Type} [LineSupplier α] [LineSupplier β] {a : α} {b : β} {pulls : List Pulled}

-- A supplier after some calls.
def after (a : α) : List Call → α
  | []                => a
  | .hasNext :: calls => after (hasNext a).2 calls
  | .advance :: calls => after (advance a).2 calls

-- A supplier that hands out these things, and nothing after them. What a pull brings depends on
-- nothing but the number of pulls before it. The supplier tells that there is something if and only
-- if the next pull brings something, and once it tells that there is nothing, nothing ever comes.
structure HandsOut (a : α) (pulls : List Pulled) : Prop where
  pulled calls : (advance (after a calls)).1 = handOut pulls[calls.count .advance]?
  told calls : (hasNext (after a calls)).1 ↔ (advance (hasNext (after a calls)).2).1 ≠ .ok none
  ended {calls} (told : (hasNext (after a calls)).1 = false) later :
    (hasNext (after a (calls ++ later))).1 = false ∧
      (advance (after a (calls ++ later))).1 = .ok none

-- Suppliers that no calls tell apart.
def Alike (a : α) (b : β) : Prop :=
  ∀ calls, (hasNext (after a calls)).1 = (hasNext (after b calls)).1 ∧
    (advance (after a calls)).1 = (advance (after b calls)).1

theorem after_append (a : α) (calls later : List Call) :
    after a (calls ++ later) = after (after a calls) later := by
  fun_induction after a calls
  case case1    => rfl
  case case2 hi => exact hi
  case case3 hi => exact hi

theorem after_hasNext (a : α) (calls : List Call) :
    (hasNext (after a calls)).2 = after a (calls ++ [.hasNext]) :=
  (after_append a calls [.hasNext]).symm

theorem HandsOut.alike (ha : HandsOut a pulls) (hb : HandsOut b pulls) : Alike a b := by
  have pulled calls : (advance (after a calls)).1 = (advance (after b calls)).1 :=
    (ha.pulled calls).trans (hb.pulled calls).symm
  intro calls
  refine ⟨Bool.eq_iff_iff.mpr ?_, pulled calls⟩
  rw [ha.told, hb.told, after_hasNext, after_hasNext, pulled]

end

variable {α : Type} [LineSupplier α] [LawfulSupplier α] {a : α}

theorem isValid_after (valid : IsValid a) (calls : List Call) : IsValid (after a calls) := by
  fun_induction after a calls
  case case1    => exact valid
  case case2 hi => exact hi (LawfulSupplier.isValid_hasNext valid)
  case case3 hi => exact hi (LawfulSupplier.isValid_advance valid)

theorem pulls_after (valid : IsValid a) (calls : List Call) :
    (feed (after a calls)).pulls = (feed a).pulls.drop (calls.count .advance) := by
  fun_induction after a calls
  case case1 => rfl
  case case2 a calls hi =>
    rw [hi (LawfulSupplier.isValid_hasNext valid), LawfulSupplier.feed_hasNext valid,
      List.count_cons_of_ne (by decide)]
  case case3 a calls hi =>
    rw [hi (LawfulSupplier.isValid_advance valid), LawfulSupplier.feed_advance valid,
      (Feed.pull_eq _).2, List.drop_tail, List.count_cons_self]

theorem advance_after (valid : IsValid a) (calls : List Call) :
    (advance (after a calls)).1 = handOut (feed a).pulls[calls.count .advance]? := by
  rw [LawfulSupplier.advance_eq (isValid_after valid calls), (Feed.pull_eq _).1, pulls_after valid,
    List.head?_drop]

theorem hasNext_after (valid : IsValid a) (calls : List Call) :
    (hasNext (after a calls)).1 ↔ calls.count .advance < (feed a).pulls.length := by
  rw [LawfulSupplier.hasNext_eq (isValid_after valid calls), Feed.hasNext_iff, pulls_after valid,
    List.head?_drop]
  simp

theorem handsOut_feed (valid : IsValid a) : HandsOut a (feed a).pulls where
  pulled     := advance_after valid
  told calls := by
    rw [hasNext_after valid, after_hasNext, advance_after valid, List.count_append]
    simp [handOut_eq_none_iff]
  ended {calls} told later := by
    have past : (feed a).pulls.length ≤ (calls ++ later).count .advance := by
      rw [Bool.eq_false_iff, ne_eq, hasNext_after valid, Nat.not_lt] at told
      rw [List.count_append]
      exact Nat.le_add_right_of_le told
    refine ⟨Bool.eq_false_iff.mpr ?_, ?_⟩
    · rw [ne_eq, hasNext_after valid]
      exact Nat.not_lt.mpr past
    · rw [advance_after valid, List.getElem?_eq_none past, handOut]

theorem handsOut_wrap (valid : IsValid a) (filters : Nat) :
    HandsOut (Filtered.wrap a filters) ((feed a).filtered filters).pulls := by
  rw [← Filtered.feed_wrap]
  exact handsOut_feed (Filtered.isValid_wrap valid filters)

theorem alike_wrap (valid : IsValid a) (filters : Nat) :
    Alike (Filtered.wrap a (filters + 1)) (Filtered.wrap a 1) :=
  (handsOut_wrap valid (filters + 1)).alike (handsOut_wrap valid 1)

-- Texts and streams hand out their lines in order, with the numbers that they have there, whatever
-- the calls. A stream has its lines up to its end, and the failure after them if it ends with one.
-- Behind filters there are only the lines that are neither blank nor a comment, and one filter is
-- as good as many.
theorem handsOut_lines (filters : Nat) :
    (∀ text,
      HandsOut (Filtered.wrap (TextLines.ofText text) filters)
        ((Feed.ofText text).filtered filters).pulls ∧
      Alike (Filtered.wrap (TextLines.ofText text) (filters + 1))
        (Filtered.wrap (TextLines.ofText text) 1)) ∧
    ∀ reads,
      (∃ f : Feed, Read.Delivers 0 (reads.flatMap Read.signals) f.lines f.failure ∧
        HandsOut (Filtered.wrap (ReaderLines.ofReads reads) filters) (f.filtered filters).pulls) ∧
      Alike (Filtered.wrap (ReaderLines.ofReads reads) (filters + 1))
        (Filtered.wrap (ReaderLines.ofReads reads) 1) := by
  refine ⟨fun text => ⟨handsOut_wrap trivial filters, alike_wrap trivial filters⟩, fun reads => ?_⟩
  have valid := ReaderLines.isValid_ofReads reads
  refine ⟨⟨Feed.ofReads reads, Read.delivers_iff.mpr rfl, ?_⟩, alike_wrap valid filters⟩
  exact handsOut_wrap valid filters

end LineSupplier
end WispSyntax

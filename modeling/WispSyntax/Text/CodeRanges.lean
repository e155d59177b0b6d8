/-!
Classes of characters, given as ascending tables of code point ranges. The main statement is
`contains_iff`: on an ascending table the search, which ends early, finds just the members.
-/

namespace WispSyntax

-- The first and the last code point of each range, in ascending order.
abbrev CodeRanges := List (Nat × Nat)

namespace CodeRanges

-- Membership; the search ends at the first range that lies above the code point.
def contains : CodeRanges → Nat → Bool
  | [],                  _ => false
  | (low, high) :: rest, n => if n < low then false else n ≤ high || contains rest n

-- Each range is in order, and ends before the next one begins.
def isAscending : CodeRanges → Bool
  | []             => true
  | [r]            => r.1 ≤ r.2
  | r :: s :: rest => r.1 ≤ r.2 && r.2 < s.1 && isAscending (s :: rest)

theorem lt_of_isAscending {r : Nat × Nat} {t : CodeRanges} (h : isAscending (r :: t)) :
    ∀ s ∈ t, r.2 < s.1 := by
  induction t generalizing r with
  | nil => simp
  | cons s t ih =>
    simp only [isAscending, Bool.and_eq_true, decide_eq_true_eq] at h
    intro u hu
    rcases List.mem_cons.mp hu with rfl | hu
    · exact h.1.2
    · have := ih h.2 u hu
      have : s.1 ≤ s.2 := by
        cases t <;> simp_all [isAscending]
      omega

theorem isAscending_tail {r : Nat × Nat} {t : CodeRanges} (h : isAscending (r :: t)) :
    isAscending t := by
  cases t <;> simp_all [isAscending]

theorem contains_iff {t : CodeRanges} (h : t.isAscending) {n : Nat} :
    t.contains n ↔ ∃ r ∈ t, r.1 ≤ n ∧ n ≤ r.2 := by
  induction t with
  | nil => simp [contains]
  | cons r t ih =>
    have hlt := lt_of_isAscending h
    have hr : r.1 ≤ r.2 := by cases t <;> simp_all [isAscending]
    simp only [contains]
    split
    case isTrue hn =>
      simp only [Bool.false_eq_true, List.mem_cons, false_iff, not_exists, not_and]
      rintro s (rfl | hm) hl
      · omega
      · have := hlt s hm; omega
    case isFalse hn =>
      simp only [Bool.or_eq_true, decide_eq_true_eq, ih (isAscending_tail h), List.mem_cons]
      constructor
      · rintro (hh | ⟨s, hm, hb⟩)
        · exact ⟨r, .inl rfl, by omega, hh⟩
        · exact ⟨s, .inr hm, hb⟩
      · rintro ⟨s, rfl | hm, hb⟩
        · exact .inl hb.2
        · exact .inr ⟨s, hm, hb⟩

end CodeRanges
end WispSyntax

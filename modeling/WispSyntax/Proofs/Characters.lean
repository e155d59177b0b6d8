import WispSyntax.Token.Lexer

/-!
The classes of characters that tell tokens apart exclude one another.
-/

namespace WispSyntax

namespace CodeRanges

-- No range of one table meets a range of the other.
def isDisjoint (s t : CodeRanges) : Bool :=
  s.all fun r => t.all fun q => r.2 < q.1 || q.2 < r.1

theorem not_contains_of_isDisjoint {s t : CodeRanges} {n : Nat} (hs : s.isAscending)
    (ht : t.isAscending) (h : s.isDisjoint t) (hn : s.contains n) : t.contains n = false := by
  rw [Bool.eq_false_iff]
  intro hm
  have ⟨r, hr, low, high⟩ := (contains_iff hs).mp hn
  have ⟨q, hq, low', high'⟩ := (contains_iff ht).mp hm
  have apart := List.all_eq_true.mp (List.all_eq_true.mp h r hr) q hq
  simp only [Bool.or_eq_true, decide_eq_true_eq] at apart
  omega

end CodeRanges

def digitRanges : CodeRanges :=
  [(0x30, 0x39)]

-- The characters of operators, brackets and commas.
def symbolRanges : CodeRanges :=
  [(0x21, 0x21), (0x25, 0x26), (0x28, 0x2F), (0x3A, 0x3E), (0x5E, 0x5E), (0x7B, 0x7D)]

variable {c : Char}

theorem contains_digitRanges (h : c.isDigit) : digitRanges.contains c.toNat := by
  simp only [Char.isDigit, Bool.and_eq_true, decide_eq_true_eq, ge_iff_le,
    UInt32.le_iff_toNat_le] at h
  have h : 0x30 ≤ c.toNat ∧ c.toNat ≤ 0x39 := h
  simp [digitRanges, CodeRanges.contains, h]

theorem not_isLetter_of_isDigit (h : c.isDigit) : isLetter c = false :=
  CodeRanges.not_contains_of_isDisjoint rfl letterRanges_isAscending (by decide +kernel)
    (contains_digitRanges h)

theorem not_isBlank_of_isDigit (h : c.isDigit) : isBlank c = false :=
  CodeRanges.not_contains_of_isDisjoint rfl blankRanges_isAscending rfl (contains_digitRanges h)

theorem not_isBlank_of_isLetter (h : isLetter c) : isBlank c = false :=
  CodeRanges.not_contains_of_isDisjoint letterRanges_isAscending blankRanges_isAscending
    (by decide +kernel) h

theorem not_isLetter_of_symbol (h : symbolRanges.contains c.toNat) : isLetter c = false :=
  CodeRanges.not_contains_of_isDisjoint rfl letterRanges_isAscending (by decide +kernel) h

theorem isQuote_iff : Token.isQuote c ↔ c = '\'' ∨ c = '"' ∨ c = '`' := by
  simp [Token.isQuote, or_assoc]

theorem ordinary_of_isQuote (h : Token.isQuote c) :
    isLetter c = false ∧ c.isDigit = false ∧ isBlank c = false := by
  rcases isQuote_iff.mp h with rfl | rfl | rfl <;> decide +kernel

namespace Token

theorem not_isWordChar_dot : isWordChar '.' = false := by
  decide +kernel

theorem isWordChar_of_isDigit {c : Char} (h : c.isDigit) : isWordChar c := by
  simp [isWordChar, h]

theorem isWordChar_of_hasDigit {radix : Radix} {c : Char} (h : hasDigit radix c) :
    isWordChar c := by
  cases radix
  case hexadecimal =>
    simp only [hasDigit, isHexDigit, Bool.or_eq_true, Bool.and_eq_true, decide_eq_true_eq] at h
    rcases h with (digit | ⟨low, high⟩) | ⟨low, high⟩
    · exact isWordChar_of_isDigit digit
    · have high := Char.le_trans high (by decide : 'f' ≤ 'z')
      have lower : c.isLower :=
        (Bool.and_eq_true _ _).mpr ⟨decide_eq_true low, decide_eq_true high⟩
      have alpha : c.isAlpha := (Bool.or_eq_true _ _).mpr (.inr lower)
      simp [isWordChar, isLetter_of_isAlpha alpha]
    · have high := Char.le_trans high (by decide : 'F' ≤ 'Z')
      have upper : c.isUpper := decide_eq_true ⟨low, high⟩
      have alpha : c.isAlpha := (Bool.or_eq_true _ _).mpr (.inl upper)
      simp [isWordChar, isLetter_of_isAlpha alpha]
  case binary =>
    simp only [hasDigit, Bool.or_eq_true, decide_eq_true_eq] at h
    rcases h with rfl | rfl <;> exact isWordChar_of_isDigit rfl

theorem isWordChar_of_mem_marked {radix : Radix} {digits : List Char}
    (isDigit : ∀ c ∈ digits, hasDigit radix c) :
    ∀ c ∈ '0' :: radix.mark :: digits, isWordChar c := by
  have mark : isWordChar radix.mark := by
    cases radix <;> simp [isWordChar, Radix.mark, isLetter_of_isAlpha]
  simp only [List.forall_mem_cons]
  exact ⟨isWordChar_of_isDigit rfl, mark, fun c hc => isWordChar_of_hasDigit (isDigit c hc)⟩

end Token
end WispSyntax

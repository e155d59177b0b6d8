import WispSyntax.Proofs.Lexing

/-!
How far tokens reach. A token that is no string goes on over characters that are neither blanks nor
quotes nor brackets nor commas (`reaches_of_read`), whether it is a mistake or not.
-/

namespace WispSyntax

-- The characters that part and enclose expressions.
def isPunctuation (c : Char) : Bool :=
  c = '(' || c = ')' || c = '\x7b' || c = '\x7d' || c = ','

def punctuationRanges : CodeRanges :=
  [(0x28, 0x29), (0x2C, 0x2C), (0x7B, 0x7B), (0x7D, 0x7D)]

-- What goes on with a token that has begun, unless the token is a string.
def isPlain (c : Char) : Bool :=
  !isBlank c && !Token.isQuote c && !isPunctuation c

section
variable {c : Char}

theorem isPlain_iff : isPlain c ↔ isBlank c = false ∧ Token.isQuote c = false ∧
    isPunctuation c = false := by
  simp [isPlain, and_assoc]

theorem isQuote_eq_false (h : isLetter c ∨ c.isDigit) : Token.isQuote c = false := by
  rw [Bool.eq_false_iff]
  intro quote
  obtain ⟨letter, digit, _⟩ := ordinary_of_isQuote quote
  simp [letter, digit] at h

theorem contains_punctuationRanges (h : isPunctuation c) : punctuationRanges.contains c.toNat := by
  simp only [isPunctuation, Bool.or_eq_true, decide_eq_true_eq] at h
  rcases h with (((rfl | rfl) | rfl) | rfl) | rfl <;> rfl

theorem isPunctuation_eq_false (h : isLetter c ∨ c.isDigit) : isPunctuation c = false := by
  rw [Bool.eq_false_iff]
  intro mark
  have inside := contains_punctuationRanges mark
  rcases h with letter | digit
  · have outside := CodeRanges.not_contains_of_isDisjoint rfl letterRanges_isAscending
      (by decide +kernel) inside
    exact absurd letter (by simp [isLetter, outside])
  · have outside := CodeRanges.not_contains_of_isDisjoint rfl (by decide : digitRanges.isAscending)
      rfl inside
    exact absurd (contains_digitRanges digit) (by simp [outside])

theorem isPunctuation_eq_false_of_isBlank (h : isBlank c) : isPunctuation c = false := by
  rw [Bool.eq_false_iff]
  intro mark
  have outside := CodeRanges.not_contains_of_isDisjoint rfl blankRanges_isAscending rfl
    (contains_punctuationRanges mark)
  simp [isBlank, outside] at h

theorem isPlain_of_isLetter (h : isLetter c) : isPlain c :=
  isPlain_iff.mpr ⟨not_isBlank_of_isLetter h, isQuote_eq_false (.inl h),
    isPunctuation_eq_false (.inl h)⟩

theorem isPlain_of_isDigit (h : c.isDigit) : isPlain c :=
  isPlain_iff.mpr ⟨not_isBlank_of_isDigit h, isQuote_eq_false (.inr h),
    isPunctuation_eq_false (.inr h)⟩

theorem isPlain_of_isWordChar (h : Token.isWordChar c) : isPlain c := by
  rcases (Bool.or_eq_true _ _).mp h with letter | digit
  · exact isPlain_of_isLetter letter
  · exact isPlain_of_isDigit digit

end

namespace Token

-- The text begins with so many plain characters.
def Reaches (length : Nat) (text : List Char) : Prop :=
  ∃ front rest, text = front ++ rest ∧ front.length = length ∧ ∀ c ∈ front, isPlain c

namespace Reaches

variable {n : Nat} {text front rest : List Char}

theorem append (plain : ∀ c ∈ front, isPlain c) (h : Reaches n rest) :
    Reaches (front.length + n) (front ++ rest) := by
  obtain ⟨front', rest', rfl, rfl, plain'⟩ := h
  refine ⟨front ++ front', rest', by simp, by simp, ?_⟩
  exact List.forall_mem_append.mpr ⟨plain, plain'⟩

theorem zero (text : List Char) : Reaches 0 text :=
  ⟨[], text, rfl, rfl, by simp⟩

theorem tail {c : Char} (h : Reaches n (c :: rest)) : Reaches (n - 1) rest := by
  obtain ⟨front, rest', eq, rfl, plain⟩ := h
  cases front
  case nil => exact .zero rest
  case cons d front =>
    obtain ⟨rfl, rfl⟩ := List.cons.inj eq
    exact ⟨front, rest', rfl, rfl, fun e he => plain e (.tail _ he)⟩

theorem takeWhile {p : Char → Bool} (h : ∀ c, p c → isPlain c) (text : List Char) :
    Reaches (text.takeWhile p).length text :=
  ⟨_, _, List.takeWhile_append_dropWhile.symm, rfl, fun c hc => h c (List.mem_takeWhile_imp hc)⟩

end Reaches

section
variable {text rest : List Char} {t : Token} {n : Nat}

theorem reaches_of_ends {after : List Char} {skip : Nat} (h : Ends after skip) :
    Reaches skip after := by
  cases h
  case plain | bitwise => exact .zero _
  case arithmetic      => exact ⟨['.'], _, rfl, rfl, by simp; decide⟩

theorem isPlain_of_isNumber {form : NumberForm} {value : List Char} (h : IsNumber form value) :
    ∀ c ∈ value, isPlain c := by
  intro c hc
  rcases h.isWordChar c hc with word | rfl
  · exact isPlain_of_isWordChar word
  · decide

theorem isPlain_of_isDigitName {value : List Char} (h : IsDigitName value) :
    ∀ c ∈ value, isPlain c :=
  fun c hc => isPlain_of_isWordChar (h.2.1 c hc)

-- What is found at a digit goes on over numbers, names and dots.
theorem reaches_of_numeral (h : Numeral text t n) : Reaches n text := by
  have marked {radix : Radix} {digits : List Char} (hasDigit : ∀ c ∈ digits, hasDigit radix c) :
      ∀ c ∈ '0' :: radix.mark :: digits, isPlain c :=
    fun c hc => isPlain_of_isWordChar (isWordChar_of_mem_marked hasDigit c hc)
  cases h
  case number h ends   => exact .append (isPlain_of_isNumber h) (reaches_of_ends ends)
  case name h ends     => exact .append (isPlain_of_isDigitName h) (reaches_of_ends ends)
  case nameDot h _     => exact .append (isPlain_of_isDigitName h) (.zero _)
  case badDigit h _ _  => exact .append (marked h) (.zero _)
  case noDigits ends   => exact .append (marked (List.forall_mem_nil _)) (reaches_of_ends ends)
  case markDot         => exact .append (marked (List.forall_mem_nil _)) (.zero _)
  case badFraction h _ => exact .append (isPlain_of_isNumber h) (.zero _)
  case numberDot h _ _ => exact .append (isPlain_of_isNumber h) (.zero _)

theorem reaches_of_readSymbol {c : Char} (h : readSymbol c rest = (t, n)) : Reaches n rest := by
  unfold readSymbol at h
  split at h <;> obtain ⟨-, rfl⟩ := Prod.mk.inj h
  all_goals first
    | exact .zero _
    | exact ⟨[_], _, rfl, rfl, by simp; decide⟩

-- A string goes on up to the next quote. Without one it takes the rest of the line.
theorem readString_eq (rest : List Char) :
    ((∀ c ∈ rest, isQuote c = false) ∧ readString rest = (openString, rest.length)) ∨
    ∃ content closing after, rest = content ++ closing :: after ∧
      (∀ c ∈ content, isQuote c = false) ∧ isQuote closing ∧
      readString rest = (string (String.ofList content), content.length + 1) := by
  have content : ∀ c ∈ rest.takeWhile (!isQuote ·), isQuote c = false := fun c hc => by
    simpa using List.mem_takeWhile_imp hc
  have whole := List.takeWhile_append_dropWhile (p := (!isQuote ·)) (l := rest)
  cases after_eq : rest.dropWhile (!isQuote ·)
  case nil =>
    rw [after_eq, List.append_nil] at whole
    rw [whole] at content
    exact .inl ⟨content, by simp [readString, after_eq, whole]⟩
  case cons closing after =>
    have quote := List.head?_dropWhile_not (!isQuote ·) rest
    rw [after_eq] at whole quote
    exact .inr ⟨_, closing, after, whole.symm, content, by simpa using quote, by
      simp [readString, after_eq]⟩

-- A token that does not begin with a quote goes on over plain characters.
theorem reaches_of_read {c : Char} (quote : isQuote c = false) (h : read c rest = (t, n)) :
    Reaches n rest := by
  cases reads_of_read h
  case word            => exact .takeWhile (fun _ => isPlain_of_isLetter) rest
  case numeral numeral => exact (reaches_of_numeral numeral).tail
  case string quoted _ => exact absurd quoted (Bool.eq_false_iff.mp quote)
  case symbol h        => exact reaches_of_readSymbol h

end
end Token
end WispSyntax

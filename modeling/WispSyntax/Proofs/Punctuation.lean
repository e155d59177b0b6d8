import WispSyntax.Proofs.Extent

/-!
Brackets and commas. Those that stand outside string literals are tokens, and no other token hides
one (`marks_ofChars`).
-/

namespace WispSyntax

-- The characters outside string literals, `quoted` telling whether the text begins inside one. Any
-- quote opens a string, and any quote ends it.
def unquoted (quoted : Bool) : List Char → List Char
  | []        => []
  | c :: rest =>
    if Token.isQuote c then
      unquoted (!quoted) rest
    else if quoted then
      unquoted quoted rest
    else
      c :: unquoted quoted rest

-- The brackets and commas of a text outside string literals.
def unquotedMarks (text : List Char) : List Char :=
  (unquoted false text).filter isPunctuation

theorem unquotedMarks_cons {c : Char} (quote : Token.isQuote c = false) (rest : List Char) :
    unquotedMarks (c :: rest) = [c].filter isPunctuation ++ unquotedMarks rest := by
  rw [unquotedMarks, unquoted, if_neg (by simp [quote]), if_neg (by simp),
    ← List.singleton_append, List.filter_append]
  rfl

theorem unquotedMarks_append {front : List Char} (plain : ∀ c ∈ front, isPlain c)
    (rest : List Char) : unquotedMarks (front ++ rest) = unquotedMarks rest := by
  induction front
  case nil => rfl
  case cons c front hi =>
    obtain ⟨here, plain⟩ := List.forall_mem_cons.mp plain
    obtain ⟨_, quote, mark⟩ := isPlain_iff.mp here
    rw [List.cons_append, unquotedMarks_cons quote, hi plain]
    simp [mark]

theorem unquoted_append {content : List Char} (h : ∀ c ∈ content, Token.isQuote c = false)
    (rest : List Char) : unquoted true (content ++ rest) = unquoted true rest := by
  induction content
  case nil => rfl
  case cons c content hi =>
    obtain ⟨quote, h⟩ := List.forall_mem_cons.mp h
    rw [List.cons_append, unquoted, if_neg (by simp [quote]), if_pos rfl, hi h]

namespace Token

-- The bracket or the comma that a token is.
def marks : Token → List Char
  | openBrace  => ['\x7b']
  | closeBrace => ['\x7d']
  | openParen  => ['(']
  | closeParen => [')']
  | comma      => [',']
  | _          => []

theorem marks_ofWord (word after : List Char) : (ofWord word after).marks = [] := by
  unfold ofWord
  split <;> rfl

section
variable {rest : List Char} {t : Token} {n : Nat}

theorem marks_of_numeral {text : List Char} (h : Numeral text t n) : t.marks = [] := by
  rcases h.form with ⟨form, value, rfl⟩ | ⟨value, rfl⟩ | ⟨fault, rfl⟩ <;> rfl

theorem marks_of_readSymbol {c : Char} (h : readSymbol c rest = (t, n)) :
    t.marks = [c].filter isPunctuation := by
  unfold readSymbol at h
  split at h <;> obtain ⟨rfl, -⟩ := Prod.mk.inj h
  case h_30 => simp_all [marks, isPunctuation]
  all_goals rfl

theorem marks_of_read {c : Char} (quote : isQuote c = false) (h : read c rest = (t, n)) :
    t.marks = [c].filter isPunctuation := by
  cases reads_of_read h
  case word letter           => simp [marks_ofWord, isPunctuation_eq_false (.inl letter)]
  case numeral digit numeral =>
    simp [marks_of_numeral numeral, isPunctuation_eq_false (.inr digit)]
  case string quoted _       => exact absurd quoted (Bool.eq_false_iff.mp quote)
  case symbol h              => exact marks_of_readSymbol h

-- A token stands for the bracket or the comma that it is, and hides none.
theorem unquotedMarks_of_read {c : Char} (h : read c rest = (t, n)) :
    unquotedMarks (c :: rest) = t.marks ++ unquotedMarks (rest.drop n) := by
  cases quote : isQuote c
  case false =>
    have marks_eq := marks_of_read quote h
    obtain ⟨front, after, rfl, rfl, plain⟩ := reaches_of_read quote h
    rw [unquotedMarks_cons quote, unquotedMarks_append plain, List.drop_left, marks_eq]
  case true =>
    obtain ⟨letter, digit, _⟩ := ordinary_of_isQuote quote
    rw [read, if_neg (by simp [letter]), if_neg (by simp [digit]), if_pos quote] at h
    rw [unquotedMarks, unquoted, if_pos quote, Bool.not_false]
    rcases readString_eq rest with ⟨content, eq⟩ | ⟨content, closing, after, rfl, plain, closes, eq⟩
    case inl =>
      obtain ⟨rfl, rfl⟩ := Prod.mk.inj (eq.symm.trans h)
      have skip := unquoted_append content []
      rw [List.append_nil] at skip
      rw [skip, List.drop_length]
      rfl
    case inr =>
      obtain ⟨rfl, rfl⟩ := Prod.mk.inj (eq.symm.trans h)
      rw [unquoted_append plain, unquoted, if_pos closes, ← List.drop_drop, List.drop_left]
      rfl

end
end Token

theorem marks_ofChars (place : Location) (skip : Nat) (chars : List Char) :
    (Lexeme.ofChars place skip chars).flatMap (·.token.marks) =
      unquotedMarks (chars.drop skip) := by
  fun_induction Lexeme.ofChars place skip chars
  case case1 => simp [unquotedMarks, unquoted]
  case case2 hi => simpa using hi
  case case3 place c rest blank hi =>
    have quote : Token.isQuote c = false :=
      Bool.eq_false_iff.mpr fun h => by simp [ordinary_of_isQuote h] at blank
    rw [hi, List.drop_zero, List.drop_zero, unquotedMarks_cons quote]
    simp [isPunctuation_eq_false_of_isBlank blank]
  case case4 place c rest _ t more hr hi =>
    rw [List.flatMap_cons, hi, List.drop_zero, Token.unquotedMarks_of_read hr]

end WispSyntax

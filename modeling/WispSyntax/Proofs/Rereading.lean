import WispSyntax.Proofs.Places

/-!
What is written is read back. A token that is written as `Spelt` says, in front of something that
it does not run together with, is what the lexer reads there (`read_of_spelt`).
-/

namespace WispSyntax

namespace Token

-- Whether a token that stands right before the character, or before nothing, ends there. A name is
-- taken to end before a parenthesis too, though that decides what name it is.
def endsBefore (t : Token) (next : Option Char) : Bool :=
  match t with
  | function | constant _      => !next.any isLetter
  | name _ _ | number _ _      => !next.any isWordChar && next ≠ some '.'
  | operator (.math .add)      => next ≠ some '+'
  | operator (.math .subtract) => next ≠ some '-'
  | operator (.relation .assign) | operator (.relation .less) | operator (.relation .greater)
  | operator .not              => next ≠ some '='
  | _                          => true

variable {rest : List Char}

theorem read_word {c : Char} {tail : List Char} (letters : ∀ d ∈ c :: tail, isLetter d)
    (stop : rest.head?.any isLetter = false) :
    read c (tail ++ rest) = (ofWord (c :: tail) rest, tail.length) := by
  obtain ⟨letter, letters⟩ := List.forall_mem_cons.mp letters
  rw [read, if_pos letter, takeWhile_append_of_stop letters stop,
    dropWhile_append_of_stop letters stop]
  rfl

theorem ofWord_of_isWord {text : List Char} (h : IsWord text) :
    ofWord text rest = name (String.ofList text) (rest.head? = some '(') := by
  obtain ⟨_, _, free⟩ := h
  unfold ofWord
  split
  case h_5 => rfl
  all_goals exact absurd rfl free

theorem read_string {opening closing : Char} {text : List Char} (ho : isQuote opening)
    (hc : isQuote closing) (h : IsQuotable text) :
    read opening (text ++ [closing] ++ rest) =
      (string (String.ofList text), (text ++ [closing]).length) := by
  obtain ⟨letter, digit, _⟩ := ordinary_of_isQuote ho
  have content : ∀ c ∈ text, !isQuote c := fun c hm => by simp [(h c hm).1]
  have stop : (closing :: rest).head?.any (!isQuote ·) = false := by simp [hc]
  rw [List.append_assoc, List.singleton_append, read, if_neg (by simp [letter]),
    if_neg (by simp [digit]), if_pos ho, readString, takeWhile_append_of_stop content stop,
    dropWhile_append_of_stop content stop, List.length_append]
  rfl

theorem read_symbol {c : Char} (symbol : symbolRanges.contains c.toNat) (digit : c.isDigit = false)
    (quote : isQuote c = false) : read c rest = readSymbol c rest := by
  rw [read, if_neg (by simp [not_isLetter_of_symbol symbol]), if_neg (by simp [digit]),
    if_neg (by simp [quote])]

end Token

-- A token that the lexer gets to is read as it was written, whatever follows it, as long as it ends
-- there. What follows decides whether a name is called.
theorem read_of_spelt {t : Token} {spelling rest : List Char} (h : Spelt t spelling)
    (ends : t.endsBefore rest.head?)
    (called : ∀ text called, t = .name text called → called = decide (rest.head? = some '(')) :
    ∃ c tail, spelling = c :: tail ∧ isBlank c = false ∧
      Token.read c (tail ++ rest) = (t, tail.length) := by
  cases h
  case function =>
    have stop : rest.head?.any isLetter = false := by simpa [Token.endsBefore] using ends
    have letters : ∀ c ∈ ['f', 'n'], isLetter c := by simp [isLetter_of_isAlpha]
    exact ⟨_, _, rfl, rfl, Token.read_word letters stop⟩
  case constant c =>
    have stop : rest.head?.any isLetter = false := by simpa [Token.endsBefore] using ends
    have letters : ∀ d ∈ c.word.toList, isLetter d := by
      cases c <;> simp [Constant.word, isLetter_of_isAlpha]
    cases c <;> exact ⟨_, _, rfl, rfl, Token.read_word letters stop⟩
  case word called' isWord =>
    have stop : rest.head?.any isLetter = false := by
      cases rest <;> simp_all [Token.endsBefore, Token.isWordChar]
    obtain ⟨c, tail, rfl⟩ := List.exists_cons_of_ne_nil isWord.1
    refine ⟨c, tail, rfl, not_isBlank_of_isLetter (isWord.2.1 c (.head _)), ?_⟩
    rw [Token.read_word isWord.2.1 stop, Token.ofWord_of_isWord isWord, called _ _ rfl]
  case digitName isDigitName =>
    obtain ⟨stop, noDot⟩ : rest.head?.any Token.isWordChar = false ∧ rest.head? ≠ some '.' := by
      simpa [Token.endsBefore] using ends
    have numeral := Numeral.name isDigitName (.plain stop noDot)
    obtain ⟨c, tail, rfl, digit⟩ := isDigitName.1
    exact ⟨c, tail, rfl, not_isBlank_of_isDigit digit, Token.read_of_numeral digit numeral⟩
  case number isNumber =>
    obtain ⟨stop, noDot⟩ : rest.head?.any Token.isWordChar = false ∧ rest.head? ≠ some '.' := by
      simpa [Token.endsBefore] using ends
    have numeral := Numeral.number isNumber (.plain stop noDot)
    obtain ⟨c, tail, rfl, digit⟩ := isNumber.exists_digit
    exact ⟨c, tail, rfl, not_isBlank_of_isDigit digit, Token.read_of_numeral digit numeral⟩
  case string isQuotable ho hc =>
    exact ⟨_, _, rfl, (ordinary_of_isQuote ho).2.2, Token.read_string ho hc isQuotable⟩
  case operator op =>
    rcases op with ⟨⟨⟩⟩ | ⟨⟨⟩⟩ | _ | _ | _
    all_goals refine ⟨_, _, String.toList_ofList, rfl, (Token.read_symbol rfl rfl rfl).trans ?_⟩
    all_goals first
      | rfl
      | cases rest <;> simp_all [Token.endsBefore, Token.readSymbol]
  case counter c =>
    cases c <;> exact ⟨_, _, rfl, rfl, Token.read_symbol rfl rfl rfl⟩
  all_goals exact ⟨_, _, rfl, rfl, Token.read_symbol rfl rfl rfl⟩

end WispSyntax

import WispSyntax.Proofs.Numerals
import WispSyntax.Proofs.Pieces

/-!
Nothing is lost. The words, numbers and strings that a plain scan finds in the lines of an accepted
text are those of its tree from left to right, each once.
-/

namespace WispSyntax

namespace Token

-- The text of a word, of a number or between quotes. Other tokens are punctuation.
def words : Token → List String
  | function                                  => ["fn"]
  | constant c                                => [c.word]
  | name text _ | number _ text | string text => [text]
  | _                                         => []

theorem words_ofWord (word after : List Char) :
    (ofWord word after).words = [String.ofList word] := by
  fun_cases ofWord word after <;> rfl

end Token

-- A scan of a line that knows nothing of the grammar: letters make words, a digit begins a number,
-- a quote begins a string up to the next one, and the rest is skipped.
def scan : List Char → List String
  | []        => []
  | c :: rest =>
    if isLetter c then
      String.ofList (c :: rest.takeWhile isLetter) :: scan (rest.dropWhile isLetter)
    else if c.isDigit then
      let (token, length) := Token.readNumber (c :: rest)
      token.words ++ scan (rest.drop (length - 1))
    else if Token.isQuote c then
      let after := rest.dropWhile (!Token.isQuote ·)
      if after.isEmpty then
        []
      else
        String.ofList (rest.takeWhile (!Token.isQuote ·)) :: scan after.tail
    else
      scan rest
termination_by text => text.length
decreasing_by
  · exact Nat.lt_succ_of_le (List.dropWhile_sublist _).length_le
  · exact Nat.lt_succ_of_le (List.drop_sublist _ _).length_le
  · exact Nat.lt_succ_of_le ((List.tail_sublist _).trans (List.dropWhile_sublist _)).length_le
  · exact Nat.lt_succ_self _

theorem scan_of_punctuation {c : Char} {rest : List Char} (letter : isLetter c = false)
    (digit : c.isDigit = false) (quote : Token.isQuote c = false) :
    scan (c :: rest) = scan rest := by
  rw [scan]
  simp [letter, digit, quote]

theorem scan_of_readSymbol {c : Char} {rest : List Char} {t : Token} {more : Nat}
    (letter : isLetter c = false) (digit : c.isDigit = false) (quote : Token.isQuote c = false)
    (h : Token.readSymbol c rest = (t, more)) :
    scan (c :: rest) = t.words ++ scan (rest.drop more) := by
  rw [scan_of_punctuation letter digit quote]
  have second (d : Char) (symbol : symbolRanges.contains d.toNat) (digit : d.isDigit = false)
      (quote : Token.isQuote d = false) (after : List Char) : scan (d :: after) = scan after :=
    scan_of_punctuation (not_isLetter_of_symbol symbol) digit quote
  unfold Token.readSymbol at h
  split at h <;> obtain ⟨rfl, rfl⟩ := Prod.mk.inj h
  all_goals first | rfl | exact second _ rfl rfl rfl _

theorem scan_of_readString {c : Char} {rest : List Char} {t : Token} {more : Nat}
    (quote : Token.isQuote c) (h : Token.readString rest = (t, more)) :
    scan (c :: rest) = t.words ++ scan (rest.drop more) := by
  have ⟨letter, digit, _⟩ := ordinary_of_isQuote quote
  have drop_eq := drop_length_takeWhile (!Token.isQuote ·) rest
  rw [scan]
  simp only [letter, digit, quote, Bool.false_eq_true, if_false, if_true]
  simp only [Token.readString] at h
  split at h <;> rename_i closing <;> obtain ⟨rfl, rfl⟩ := Prod.mk.inj h
  case h_1 => simp [closing, drop_eq, scan, Token.words]
  case h_2 => simp [closing, drop_eq, ← List.drop_drop, Token.words]

theorem scan_of_read {c : Char} {rest : List Char} {t : Token} {more : Nat}
    (h : Token.read c rest = (t, more)) :
    scan (c :: rest) = t.words ++ scan (rest.drop more) := by
  cases Token.reads_of_read h
  case word letter =>
    rw [scan, if_pos letter, Token.words_ofWord, drop_length_takeWhile, List.singleton_append]
  case numeral digit numeral =>
    rw [scan, if_neg (by simp [not_isLetter_of_isDigit digit]), if_pos digit,
      (Token.numeral_iff digit).mp numeral]
    rfl
  case string quote h              => exact scan_of_readString quote h
  case symbol letter digit quote h => exact scan_of_readSymbol letter digit quote h

theorem scan_of_isBlank {c : Char} {rest : List Char} (blank : isBlank c) :
    scan (c :: rest) = scan rest := by
  apply scan_of_punctuation
  · exact Bool.eq_false_iff.mpr fun h => by simp [not_isBlank_of_isLetter h] at blank
  · exact Bool.eq_false_iff.mpr fun h => by simp [not_isBlank_of_isDigit h] at blank
  · exact Bool.eq_false_iff.mpr fun h => by simp [ordinary_of_isQuote h] at blank

theorem words_ofChars (place : Location) (skip : Nat) (chars : List Char) :
    (Lexeme.ofChars place skip chars).flatMap (·.token.words) = scan (chars.drop skip) := by
  fun_induction Lexeme.ofChars place skip chars
  case case1 => simp [scan]
  case case2 hi => simpa using hi
  case case3 place c rest blank hi =>
    rw [hi, List.drop_zero, List.drop_zero, scan_of_isBlank blank]
  case case4 place c rest _ t more hr hi =>
    rw [List.flatMap_cons, hi, List.drop_zero, scan_of_read hr]

-- The words of a node's own token, and of a function also its name.
def Node.words (n : Node) : List String :=
  match n.kind with
  | .function  => ["fn", n.value]
  | .truth     => ["true"]
  | .falsehood => ["false"]
  | .nil       => ["nil"]
  | .integer | .float | .binary | .hexadecimal | .string | .identifier | .call => [n.value]
  | _          => []

theorem words_pieces (n : Node) :
    n.pieces.flatMap (·.token.words) = n.inOrder.flatMap Node.words := by
  have opening (m : Node) : (m.mark ++ unplaced (m.kind.opening m.value)).flatMap
      (·.token.words) = m.words := by
    unfold Node.mark Node.words unplaced
    cases m.kind <;> rfl
  have middle (m : Node) : (unplaced m.kind.middle).flatMap (·.token.words) = [] := by
    cases m.kind <;> rfl
  have closing (m : Node) : (unplaced m.kind.closing).flatMap (·.token.words) = [] := by
    cases m.kind <;> rfl
  rw [Node.pieces, Node.inOrder, Node.flatMap_weave, Node.flatMap_weave]
  simp only [opening, middle, closing, List.flatMap_singleton, List.flatMap_nil]

namespace Parser

-- The words of the lines of an accepted text are the words of its tree, in the same order.
theorem parse_words {text : String} {root : Node} (h : parse text = .ok root) :
    (keptLines text).flatMap (scan ·.text.toList) = root.inOrder.flatMap Node.words := by
  have lines (l : SourceLine) : l.lexemes.flatMap (·.token.words) = scan l.text.toList :=
    words_ofChars l.start 0 l.text.toList
  have tree := (covers_of_parse h).flatMap_eq (f := Token.words) rfl fun _ => rfl
  rw [List.flatMap_assoc, List.flatMap_assoc] at tree
  simp only [lines, words_pieces] at tree
  have ⟨shape, _⟩ := isProgram_of_parse h
  rw [← tree, Node.inOrder_eq, shape]
  simp [List.flatMap_assoc, Node.words]

theorem parse_words_declaration :
    ∃ root, parse "fn f(a int) \x7b\n  g('b c') + 1.5\n\x7d" = .ok root ∧
      (keptLines "fn f(a int) \x7b\n  g('b c') + 1.5\n\x7d").flatMap (scan ·.text.toList) =
        root.inOrder.flatMap Node.words := by
  let name (text : String) (place : Location) : Node := .leaf .identifier text place
  let call : Node :=
    { kind := .call, value := "g", params := [[.leaf .string "b c" ⟨2, 5⟩]], location := ⟨2, 3⟩ }
  let sum : Node := .between .add call (.leaf .float "1.5" ⟨2, 14⟩) ⟨2, 12⟩
  let declaration : Node :=
    { kind := .function, value := "f", params := [[name "a" ⟨1, 6⟩, name "int" ⟨1, 8⟩]],
      children := [sum], location := ⟨1, 1⟩ }
  have h : parse "fn f(a int) \x7b\n  g('b c') + 1.5\n\x7d" =
      .ok { kind := .root, children := [declaration], location := ⟨1, 1⟩ } := rfl
  exact ⟨_, h, parse_words h⟩

end Parser
end WispSyntax

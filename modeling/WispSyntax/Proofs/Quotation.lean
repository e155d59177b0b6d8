import Mathlib.Data.List.Forall2
import Mathlib.Tactic.SplitIfs
import WispSyntax.Proofs.Places
import WispSyntax.Proofs.Extent
import WispSyntax.Viewer.Highlight

/-!
The strings of a line. A plain scan finds them from quote to quote, and the lexer and the
highlighting, which cut the rest of the line in different ways, find the same ones in the same
places (`matches_ofChars`, `quoted_spansFrom`).
-/

namespace WispSyntax

-- The strings of a text with their quotes, each in its place; one that does not end goes on to the
-- end of the text. The first so many characters belong to a string that has been found already.
def quotations (place : Location) : Nat → List Char → List (Location × List Char)
  | _,        []        => []
  | skip + 1, _ :: rest => quotations (place.right 1) skip rest
  | 0,        c :: rest =>
    if Token.isQuote c then
      let more := (rest.takeWhile (!Token.isQuote ·)).length + 1
      (place, c :: rest.take more) :: quotations (place.right 1) more rest
    else
      quotations (place.right 1) 0 rest

theorem quotations_drop (place : Location) (skip : Nat) (text : List Char) :
    quotations place skip text = quotations (place.right skip) 0 (text.drop skip) := by
  induction text generalizing place skip
  case nil => simp [quotations]
  case cons c text hi =>
    cases skip
    case zero      => rfl
    case succ skip =>
      rw [quotations, hi, Location.right_right, List.drop_succ_cons, Nat.add_comm]

theorem quotations_cons {c : Char} (quote : Token.isQuote c = false) (place : Location)
    (rest : List Char) : quotations place 0 (c :: rest) = quotations (place.right 1) 0 rest := by
  rw [quotations, if_neg (by simp [quote])]

theorem quotations_append {front : List Char} (quote : ∀ c ∈ front, Token.isQuote c = false)
    (place : Location) (rest : List Char) :
    quotations place 0 (front ++ rest) = quotations (place.right front.length) 0 rest := by
  induction front generalizing place
  case nil => rfl
  case cons c front hi =>
    obtain ⟨here, quote⟩ := List.forall_mem_cons.mp quote
    rw [List.cons_append, quotations_cons here, hi quote, Location.right_right, List.length_cons,
      Nat.add_comm]

theorem quotations_skip {n : Nat} {text : List Char}
    (quote : ∀ c ∈ text.take n, Token.isQuote c = false) (place : Location) :
    quotations place 0 text = quotations place n text := by
  by_cases le : n ≤ text.length
  case pos =>
    have skipped := quotations_append quote place (text.drop n)
    rwa [List.take_append_drop, List.length_take, Nat.min_eq_left le, ← quotations_drop] at skipped
  case neg =>
    rw [List.take_of_length_le (by omega)] at quote
    have skipped := quotations_append quote place []
    rw [List.append_nil] at skipped
    rw [skipped, quotations_drop place n, List.drop_of_length_le (by omega), quotations, quotations]

theorem quotations_min (place : Location) (n : Nat) (text : List Char) :
    quotations place (min n text.length) text = quotations place n text := by
  rcases Nat.le_total n text.length with le | le
  case inl => rw [Nat.min_eq_left le]
  case inr =>
    rw [Nat.min_eq_right le, quotations_drop, quotations_drop place n, List.drop_length,
      List.drop_of_length_le le, quotations, quotations]

-- What is found at a quote.
theorem quotations_quote {c : Char} (quote : Token.isQuote c) (place : Location)
    (rest : List Char) :
    quotations place 0 (c :: rest) =
      (place, c :: rest.take ((rest.takeWhile (!Token.isQuote ·)).length + 1)) ::
        quotations (place.right 1) ((rest.takeWhile (!Token.isQuote ·)).length + 1) rest := by
  rw [quotations, if_pos quote]

-- A string that is a token, and the characters between which it stands.
def Lexeme.Quotes (q : Location × List Char) (l : Lexeme) : Prop :=
  q.1 = l.start ∧ ∃ opening content closing, Token.isQuote opening ∧ Token.isQuote closing ∧
    q.2 = opening :: content ++ [closing] ∧ l.token = .string (String.ofList content)

namespace Token

def isString : Token → Bool
  | string _ => true
  | _        => false

-- Only a quote begins a string.
theorem isString_of_read {c : Char} {rest : List Char} {t : Token} {n : Nat}
    (quote : isQuote c = false) (h : read c rest = (t, n)) : t.isString = false := by
  cases t
  case string text =>
    obtain ⟨spelling, after, text_eq, spelt, -⟩ :=
      standsIn_of_read (fun here => by simp [quote] at here) h (by simp [isMistake])
    obtain ⟨opening, closing, opens, -, rfl⟩ := spelt.eq_quoted
    obtain ⟨rfl, -⟩ := List.cons.inj text_eq
    simp [quote] at opens
  all_goals rfl

theorem isQuote_eq_false_of_isBlank {c : Char} (h : isBlank c) : isQuote c = false :=
  Bool.eq_false_iff.mpr fun quote => by simp [ordinary_of_isQuote quote] at h

theorem Reaches.isQuote_take {n : Nat} {text : List Char} (h : Reaches n text) :
    ∀ c ∈ text.take n, isQuote c = false := by
  obtain ⟨front, rest, rfl, rfl, plain⟩ := h
  rw [List.take_left]
  exact fun c hc => (isPlain_iff.mp (plain c hc)).2.1

theorem read_quote {c : Char} (quote : isQuote c) (rest : List Char) :
    read c rest = readString rest := by
  obtain ⟨letter, digit, _⟩ := ordinary_of_isQuote quote
  rw [read, if_neg (by simp [letter]), if_neg (by simp [digit]), if_pos quote]

end Token

-- The strings of a line are tokens, as long as they all end.
theorem matches_ofChars {place : Location} {skip : Nat} {text : List Char}
    (ends : ∀ l ∈ Lexeme.ofChars place skip text, l.token ≠ .openString) :
    List.Forall₂ Lexeme.Quotes (quotations place skip text)
      ((Lexeme.ofChars place skip text).filter (·.token.isString)) := by
  fun_induction Lexeme.ofChars place skip text
  case case1 => simp [quotations]
  case case2 hi => exact hi ends
  case case3 place c rest blank hi =>
    rw [quotations_cons (Token.isQuote_eq_false_of_isBlank blank)]
    exact hi ends
  case case4 place c rest _ t more hr hi =>
    obtain ⟨here, ends⟩ := List.forall_mem_cons.mp ends
    have hi := hi ends
    cases quote : Token.isQuote c
    case false =>
      have reaches := Token.reaches_of_read quote hr
      rw [quotations_cons quote, quotations_skip reaches.isQuote_take,
        List.filter_cons_of_neg (by simp [Token.isString_of_read quote hr])]
      exact hi
    case true =>
      rw [Token.read_quote quote] at hr
      rcases Token.readString_eq rest with ⟨_, eq⟩ | ⟨content, closing, after, rfl, plain, closes, eq⟩
      case inl =>
        obtain ⟨rfl, -⟩ := Prod.mk.inj (eq.symm.trans hr)
        exact absurd rfl here
      case inr =>
        obtain ⟨rfl, rfl⟩ := Prod.mk.inj (eq.symm.trans hr)
        have run : (content ++ closing :: after).takeWhile (!Token.isQuote ·) = content := by
          rw [List.takeWhile_append_of_pos (by simpa using plain)]
          simp [closes]
        rw [quotations_quote quote, run, List.filter_cons_of_pos rfl]
        refine .cons ⟨rfl, c, content, closing, quote, closes, ?_, rfl⟩ hi
        rw [List.take_length_add_append]
        rfl

namespace Highlight

-- The spans of a text that begins at a place, each in its own place.
def placed (place : Location) : List Span → List (Location × Span)
  | []        => []
  | s :: rest => (place, s) :: placed (place.right s.text.length) rest

def isQuoted (s : Span) : Bool :=
  s.style.fg = some Theme.string

theorem not_isQuoted_wordStyle (text : String) (word previous : List Char) (called cast : Bool) :
    isQuoted { text, style := wordStyle word previous called cast } = false := by
  unfold wordStyle
  split_ifs <;> rfl

theorem not_isQuoted_symbolStyle (text : String) (c : Char) :
    isQuoted { text, style := symbolStyle c } = false := by
  unfold symbolStyle
  split_ifs <;> rfl

theorem not_isQuote_of_isAlphanumeric {c : Char} (h : isAlphanumeric c) :
    Token.isQuote c = false := by
  rw [Bool.eq_false_iff]
  intro quote
  rcases isQuote_iff.mp quote with rfl | rfl | rfl <;> revert h <;> decide +kernel

section
variable {before previous rest : List Char} {c : Char}

theorem piece_quote (quote : Token.isQuote c) : piece before previous c rest =
    { more     := min ((rest.takeWhile (!Token.isQuote ·)).length + 1) rest.length
      style    := { fg := some Theme.string }
      previous := previous } := by
  rw [piece, if_pos quote]

theorem piece_word (alphanumeric : isAlphanumeric c) : piece before previous c rest =
    { more     := (rest.takeWhile isAlphanumeric).length
      style    := wordStyle (c :: rest.takeWhile isAlphanumeric) previous
        ((rest.dropWhile isAlphanumeric).head? = some '(') (before.take 2 = "::".toList)
      previous := c :: rest.takeWhile isAlphanumeric } := by
  rw [piece, if_neg (by simp [not_isQuote_of_isAlphanumeric alphanumeric]), if_pos alphanumeric]

theorem piece_symbol (quote : Token.isQuote c = false) (other : isAlphanumeric c = false) :
    piece before previous c rest =
      { more     := 0
        style    := symbolStyle c
        previous := if isBlank c then previous else [] } := by
  rw [piece, if_neg (by simp [quote]), if_neg (by simp [other])]

theorem more_piece_le : (piece before previous c rest).more ≤ rest.length := by
  cases quote : Token.isQuote c
  case true =>
    rw [piece_quote quote]
    exact Nat.min_le_right _ _
  case false =>
    cases word : isAlphanumeric c
    case true =>
      rw [piece_word word]
      exact (List.takeWhile_sublist _).length_le
    case false =>
      rw [piece_symbol quote word]
      exact Nat.zero_le _

-- A span in another colour hides no quote.
theorem piece_of_not_quote (quote : Token.isQuote c = false) (before previous rest : List Char)
    (text : String) :
    isQuoted { text, style := (piece before previous c rest).style } = false ∧
      ∀ d ∈ rest.take (piece before previous c rest).more, Token.isQuote d = false := by
  cases word : isAlphanumeric c
  case true =>
    rw [piece_word word]
    refine ⟨not_isQuoted_wordStyle .., fun d hd => ?_⟩
    rw [← List.prefix_iff_eq_take.mp (List.takeWhile_prefix _)] at hd
    exact not_isQuote_of_isAlphanumeric (List.mem_takeWhile_imp hd)
  case false =>
    rw [piece_symbol quote word]
    exact ⟨not_isQuoted_symbolStyle .., by simp⟩

theorem length_span (before previous : List Char) (c : Char) (rest : List Char) :
    (String.ofList (c :: rest.take (piece before previous c rest).more)).length =
      (piece before previous c rest).more + 1 := by
  rw [String.length_ofList, List.length_cons, List.length_take, Nat.min_eq_left more_piece_le]

theorem placed_cons (place : Location) (before previous : List Char) (c : Char)
    (rest : List Char) :
    placed place (spansFrom before previous 0 (c :: rest)) =
      (place, { text  := String.ofList (c :: rest.take (piece before previous c rest).more)
                style := (piece before previous c rest).style }) ::
        placed (place.right ((piece before previous c rest).more + 1))
          (spansFrom (c :: before) (piece before previous c rest).previous
            (piece before previous c rest).more rest) := by
  rw [spansFrom, placed, length_span]

end

-- The spans in the colour of strings are the strings.
theorem quoted_spansFrom (place : Location) (before previous : List Char) (skip : Nat)
    (text : List Char) :
    ((placed (place.right skip) (spansFrom before previous skip text)).filter
      (isQuoted ·.2)).map (fun p => (p.1, p.2.text.toList)) = quotations place skip text := by
  fun_induction spansFrom before previous skip text generalizing place
  case case1 => simp [placed, quotations]
  case case2 before previous skip c rest hi =>
    rw [quotations, ← hi, Location.right_right, Nat.add_comm]
  case case3 before previous c rest p hi =>
    have hi := hi (place.right 1)
    rw [Location.right_right, Nat.add_comm] at hi
    rw [show place.right 0 = place from rfl, placed, length_span]
    cases quote : Token.isQuote c
    case false =>
      obtain ⟨other, plain⟩ := piece_of_not_quote quote before previous rest
        (String.ofList (c :: rest.take p.more))
      rw [List.filter_cons_of_neg (by simpa using other), quotations_cons quote,
        quotations_skip plain]
      exact hi
    case true =>
      have more : p.more = min ((rest.takeWhile (!Token.isQuote ·)).length + 1) rest.length := by
        simp only [p, piece_quote quote]
      have quoted (text : String) : isQuoted { text, style := p.style } = true := by
        simp only [p, piece_quote quote]
        rfl
      rw [List.filter_cons_of_pos (by simpa using quoted _), List.map_cons, hi,
        quotations_quote quote, more, quotations_min, String.toList_ofList, ← List.take_eq_take_min]

end Highlight
end WispSyntax

import WispSyntax.Proofs.FaultPlaces
import WispSyntax.Proofs.Refusals

/-!
What is diagnosed. The place that is named for a fault lies in a line of the program or right after
it, and if the message shows a character, that is the one which stands there (`parse_diagnosed`).
-/

namespace WispSyntax

open WispSyntax.Parser

-- The character that is at fault, if it is shown.
def NumberFault.shown? : NumberFault → Option Char
  | digit _ c  => some c
  | float c    => some c
  | noDigits _ => none

def Fault.shown? : Fault → Option Char
  | number fault     => fault.shown?
  | strayCharacter c => some c
  | notBitwise c     => some c
  | _                => none

-- The characters that operators begin with.
def operatorMarks : List Char :=
  ['+', '-', '*', '/', '%', '^', '.', '=', '<', '>', '!', ':']

-- No expression begins with the character, and no operator.
structure IsForeign (c : Char) : Prop where
  letter   : isLetter c = false
  digit    : c.isDigit = false
  quote    : Token.isQuote c = false
  operator : c ∉ operatorMarks
  bracket  : c ≠ '(' ∧ c ≠ '\x7b'

-- What is wrong with the first token of a text, and how far from its beginning that is.
inductive Offends : List Char → Nat → Fault → Prop
  | number {text fault n} (h : Numeral text (.badNumber fault) n) : Offends text n (.number fault)
  | openString {c rest} (quote : Token.isQuote c) (plain : ∀ d ∈ rest, Token.isQuote d = false) :
      Offends (c :: rest) 0 .openString
  | notBitwise {c rest} : Offends ('.' :: c :: rest) 1 (.notBitwise c)
  | stray {c rest} (h : IsForeign c) : Offends (c :: rest) 0 (.strayCharacter c)

section
variable {c d : Char} {rest text : List Char} {t : Token} {n i : Nat} {fault : Fault}

theorem getElem?_of_numeral {fault : NumberFault} (h : Numeral text (.badNumber fault) n)
    (shown : fault.shown? = some c) : text[n]? = some c := by
  cases h
  case noDigits => cases shown
  case numberDot form value after _ _ _ =>
    have found : c = '.' := by cases form <;> cases shown <;> rfl
    simp [found]
  all_goals
    cases shown
    simp

theorem Offends.getElem? (h : Offends text i fault) (shown : fault.shown? = some c) :
    text[i]? = some c := by
  cases h
  case number h   => exact getElem?_of_numeral h shown
  case openString => cases shown
  case notBitwise => exact shown
  case stray      => exact shown

theorem Offends.isForeign (h : Offends text i fault) (class_eq : fault.faultClass = .invalidSymbol)
    (shown : fault.shown? = some c) : IsForeign c := by
  cases h
  case number fault _ => cases fault <;> cases class_eq
  case stray h        =>
    cases shown
    exact h
  all_goals cases class_eq

theorem Offends.unended (h : Offends text i fault)
    (class_eq : fault.faultClass = .unterminatedString) :
    ∃ c rest, text = c :: rest ∧ i = 0 ∧ Token.isQuote c ∧
      ∀ d ∈ rest, Token.isQuote d = false := by
  cases h
  case openString c rest quote plain => exact ⟨c, rest, rfl, rfl, quote, plain⟩
  case number fault _                => cases fault <;> cases class_eq
  all_goals cases class_eq

theorem offends_of_readSymbol {place : Location} {r : Refusal} (letter : isLetter c = false)
    (digit : c.isDigit = false) (quote : Token.isQuote c = false)
    (h : Token.readSymbol c rest = (t, n))
    (refused : refusal? ⟨t, place, place.right (n + 1)⟩ = some r) :
    ∃ i, r.place = place.right i ∧ Offends (c :: rest) i r.fault := by
  unfold Token.readSymbol at h
  split at h <;> obtain ⟨rfl, rfl⟩ := Prod.mk.inj h
  case h_14 =>
    rcases rest with _ | ⟨d, rest⟩ <;> cases refused
    exact ⟨1, rfl, .notBitwise⟩
  case h_26 | h_28 | h_29 =>
    cases refused
    exact ⟨0, rfl, .stray ⟨letter, digit, quote, by decide, by decide⟩⟩
  case h_30 =>
    cases refused
    have foreign : IsForeign c :=
      { letter, digit, quote, operator := by simp_all [operatorMarks], bracket := by simp_all }
    exact ⟨0, rfl, .stray foreign⟩
  all_goals cases refused

-- What a token is refused for is there in the text that it begins.
theorem offends_of_read {place : Location} {r : Refusal} (h : Token.read c rest = (t, n))
    (refused : refusal? ⟨t, place, place.right (n + 1)⟩ = some r) :
    ∃ i, r.place = place.right i ∧ Offends (c :: rest) i r.fault := by
  cases Token.reads_of_read h
  case word =>
    unfold Token.ofWord at refused
    split at refused <;> cases refused
  case numeral numeral =>
    rcases numeral.form with ⟨form, value, rfl⟩ | ⟨value, rfl⟩ | ⟨fault, rfl⟩ <;> cases refused
    exact ⟨n + 1, rfl, .number numeral⟩
  case string quote h =>
    rcases Token.readString_eq rest with ⟨plain, eq⟩ | ⟨_, _, _, _, _, _, eq⟩
    all_goals
      obtain ⟨rfl, rfl⟩ := Prod.mk.inj (eq.symm.trans h)
      cases refused
    exact ⟨0, rfl, .openString quote plain⟩
  case symbol letter digit quote h => exact offends_of_readSymbol letter digit quote h refused

end

theorem place_of_refusal? {x : Lexeme} {r : Refusal} (h : refusal? x = some r) :
    r.place = x.start ∨ r.place = x.stop := by
  unfold refusal? at h
  split at h <;> cases h
  case h_1 | h_2 | h_3 | h_5 | h_7 => exact .inl rfl
  case h_4 | h_6                   => exact .inr rfl

theorem offends_of_mem_lexemes {l : SourceLine} {x : Lexeme} {r : Refusal} (hx : x ∈ l.lexemes)
    (refused : refusal? x = some r) :
    l.Holds r.place ∧ ∃ front text i, l.text.toList = front ++ text ∧
      r.place.column = front.length + i + 1 ∧ Offends text i r.fault := by
  have ⟨start, stop⟩ := SourceLine.holds_of_mem_lexemes hx
  have ⟨front, c, rest, n, chars_eq, _, start_eq, stop_eq, read_eq⟩ :=
    Lexeme.read_of_mem_ofChars hx
  have x_eq : x = ⟨x.token, x.start, x.start.right (n + 1)⟩ := by rw [← stop_eq]
  have ⟨i, place_eq, offends⟩ := offends_of_read read_eq (x_eq ▸ refused)
  refine ⟨?holds, front, c :: rest, i, chars_eq, ?column, offends⟩
  case holds => rcases place_of_refusal? refused with eq | eq <;> rw [eq] <;> assumption
  case column =>
    rw [place_eq, start_eq, Location.right_right, Location.right_column, Nat.add_comm]
    rfl

namespace Diagnostic

-- The message shows a character.
def Shows (d : Diagnostic) : Prop :=
  d.faultClass = .invalidSymbol ∨ d.faultClass = .invalidFloat ∨
  (d.faultClass = .invalidDigit ∧ ¬"Expected digits after ".toList <+: d.message.toList) ∨
  (d.faultClass = .invalidBitwiseOperator ∧ "Invalid operator".toList <+: d.message.toList)

-- What is said of a place in a line is so. A character that is shown stands there, and it is
-- foreign to the language if it is called a symbol. A string without an end begins there.
structure Describes (d : Diagnostic) (l : SourceLine) (place : Location) : Prop where
  location : d.location = some place
  holds    : l.Holds place
  shown    : d.Shows → d.line = some l.text ∧ ∃ front c, d.message.toList = front ++ [c, '`'] ∧
    l.text.toList[place.column - 1]? = some c ∧ (d.faultClass = .invalidSymbol → IsForeign c)
  unended  : d.faultClass = .unterminatedString →
    (∃ c ∈ l.text.toList[place.column - 1]?, Token.isQuote c) ∧
    ∀ c ∈ l.text.toList.drop place.column, Token.isQuote c = false

end Diagnostic

section
variable {fault : Fault} {place : Location} {line : String} {l : SourceLine} {c : Char}

theorem exists_shown (occurs : fault.occurs)
    (h : (Failure.rejected fault place line).diagnostic.Shows) : ∃ c, fault.shown? = some c := by
  cases fault
  case noOperator | noRelation => cases occurs
  case strayCharacter c | notBitwise c => exact ⟨c, rfl⟩
  case number fault =>
    cases fault
    case digit radix c | float c => exact ⟨c, rfl⟩
    case noDigits radix =>
      have words : "Expected digits after ".toList <+:
          (NumberFault.noDigits radix).message.toList := by
        cases radix <;> decide
      rcases h with class_eq | class_eq | ⟨_, other⟩ | ⟨class_eq, _⟩
      case inr.inr.inl => exact absurd words other
      all_goals cases class_eq
  case endsAfterDot =>
    rcases h with class_eq | class_eq | ⟨class_eq, _⟩ | ⟨_, words⟩
    case inr.inr.inr =>
      have other : ¬"Invalid operator".toList <+: Fault.endsAfterDot.message.toList := by decide
      exact absurd words other
    all_goals cases class_eq
  all_goals rcases h with class_eq | class_eq | ⟨class_eq, _⟩ | ⟨class_eq, _⟩ <;> cases class_eq

theorem toList_quoting (words : String) (c : Char) :
    (words ++ toString c ++ "`").toList = words.toList ++ [c, '`'] := by
  simp [toString]

-- The character is the last of the message but one.
theorem message_of_shown? (h : fault.shown? = some c) :
    ∃ front, fault.message.toList = front ++ [c, '`'] := by
  cases fault
  case strayCharacter =>
    cases h
    exact ⟨_, toList_quoting "Invalid symbol: `" c⟩
  case notBitwise =>
    cases h
    exact ⟨_, toList_quoting "Invalid operator: `." c⟩
  case number fault =>
    cases fault
    case noDigits => cases h
    case float    =>
      cases h
      exact ⟨_, toList_quoting "Invalid char in float, expected `0-9`: `" c⟩
    case digit radix _ =>
      cases h
      cases radix
      case hexadecimal => exact ⟨_, toList_quoting
        "Invalid char found in hexadecimal, expected `0-9`, `a-f` or `A-F`: `" c⟩
      case binary => exact ⟨_, toList_quoting
        "Invalid char found in binary, expected `0` or `1`: `" c⟩
  all_goals cases h

theorem Fault.faultClass_ne (fault : Fault) : fault.faultClass ≠ .sourceUnavailable := by
  intro class_eq
  cases fault
  case number fault => cases fault <;> cases class_eq
  all_goals cases class_eq

-- Nothing is shown of a fault that is not found at a single token.
theorem describes_of_shown?_eq_none (holds : l.Holds place) (occurs : fault.occurs)
    (none : fault.shown? = none) (class_ne : fault.faultClass ≠ .unterminatedString) :
    (Failure.rejected fault place line).diagnostic.Describes l place where
  location := rfl
  holds    := holds
  shown shows := by
    obtain ⟨c, some⟩ := exists_shown occurs shows
    cases none.symm.trans some
  unended class_eq := absurd class_eq class_ne

theorem describes_of_isStructural (holds : l.Holds place) (h : fault.isStructural) :
    (Failure.rejected fault place line).diagnostic.Describes l place := by
  refine describes_of_shown?_eq_none holds (Fault.occurs_of_isStructural h) ?_ fun class_eq => ?_
  all_goals
    cases fault
    case number | strayCharacter | openString | notBitwise | noOperator | noRelation => cases h
    all_goals first | rfl | cases class_eq

theorem describes_of_refusal? {x : Lexeme} (hx : x ∈ l.lexemes)
    (refused : refusal? x = some ⟨fault, place⟩) :
    (Failure.rejected fault place l.text).diagnostic.Describes l place := by
  obtain ⟨holds, front, text, i, chars_eq, column, offends⟩ := offends_of_mem_lexemes hx refused
  have at_eq : l.text.toList[place.column - 1]? = text[i]? := by
    rw [column, Nat.add_sub_cancel, chars_eq, List.getElem?_append_right (Nat.le_add_right ..),
      Nat.add_sub_cancel_left]
  refine ⟨rfl, holds, fun shows => ?shown, fun class_eq => ?unended⟩
  case shown =>
    obtain ⟨c, shown⟩ := exists_shown (occurs_of_refusal? refused) shows
    obtain ⟨words, message_eq⟩ := message_of_shown? shown
    exact ⟨rfl, words, c, message_eq, at_eq.trans (offends.getElem? shown),
      fun class_eq => offends.isForeign class_eq shown⟩
  case unended =>
    obtain ⟨c, rest, rfl, rfl, quote, plain⟩ := offends.unended class_eq
    refine ⟨⟨c, at_eq, quote⟩, ?_⟩
    rw [column, chars_eq, List.append_cons, List.drop_left' (by simp)]
    exact plain

end

-- A text that is no program is diagnosed in one of its lines, and what is said of the place is so.
theorem parse_diagnosed {text : String} {failure : Failure} (h : parse text = .error failure) :
    failure.diagnostic.faultClass ≠ .sourceUnavailable ∧
    ∃ l ∈ keptLines text, ∃ place, failure.diagnostic.Describes l place := by
  rw [parse_eq] at h
  obtain ⟨fault, place, line, rfl⟩ := rejected_of_readFrom h
  refine ⟨fault.faultClass_ne, ?_⟩
  rcases exists_of_readFrom h with
    ⟨before, l, after, t, lines_eq, ht, error, rfl⟩ |
    ⟨t, construct, l, ht, unclosed, rfl, last_eq, rfl, rfl⟩
  case inl =>
    have raises := t.raises_readLine l
    rw [error] at raises
    cases raises
    case structural structural =>
      have nothing : State.readLines {} [] = .ok {} := rfl
      obtain ⟨m, hm, holds, _⟩ := exists_line_of_error nothing rfl ht error
      have mem : m ∈ keptLines text := by
        rw [lines_eq, List.append_cons]
        exact List.mem_append_left _ hm
      exact ⟨m, mem, place, describes_of_isStructural holds structural⟩
    case own own =>
      obtain ⟨x, hx, refused⟩ := own
      exact ⟨l, by simp [lines_eq], place, describes_of_refusal? hx refused⟩
  case inr =>
    obtain ⟨before, lines_eq⟩ := exists_of_unclosed ht unclosed last_eq
    have holds : l.Holds l.stop := SourceLine.holds_right le_rfl
    exact ⟨l, by simp [lines_eq], l.stop, describes_of_shown?_eq_none holds rfl rfl nofun⟩

theorem parse_diagnosed_fraction :
    let failure := Failure.rejected (.number (.float 'e')) ⟨3, 5⟩ " 1.5e 'c)"
    parse "f(a\n// b\n 1.5e 'c)" = .error failure ∧ failure.diagnostic.Shows ∧
      ∃ l ∈ keptLines "f(a\n// b\n 1.5e 'c)", ∃ place, failure.diagnostic.Describes l place := by
  intro failure
  have rejected : parse "f(a\n// b\n 1.5e 'c)" = .error failure := rfl
  exact ⟨rejected, .inr (.inl rfl), (parse_diagnosed rejected).2⟩

end WispSyntax

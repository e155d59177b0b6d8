import WispSyntax.Token.Lexer

/-!
How tokens are written. `Spelt` is the grammar of the tokens that are no mistake.
-/

namespace WispSyntax

-- The words that are no names.
def isReserved : List Char → Bool
  | ['f', 'n'] | ['t', 'r', 'u', 'e'] | ['f', 'a', 'l', 's', 'e'] | ['n', 'i', 'l'] => true
  | _ => false

-- The marks that make a number of what follows them.
def isMarked : List Char → Bool
  | '0' :: 'x' :: _ | '0' :: 'b' :: _ => true
  | _ => false

def IsWord (text : List Char) : Prop :=
  text ≠ [] ∧ (∀ c ∈ text, isLetter c) ∧ ¬isReserved text

-- A name may begin with a digit if there is a letter in it and it does not look like a number.
def IsDigitName (text : List Char) : Prop :=
  (∃ c rest, text = c :: rest ∧ c.isDigit) ∧ (∀ c ∈ text, Token.isWordChar c) ∧
    (∃ c ∈ text, ¬c.isDigit) ∧ ¬isMarked text

def IsName (text : List Char) : Prop :=
  IsWord text ∨ IsDigitName text

inductive IsNumber : NumberForm → List Char → Prop
  | integer {digits} (ne : digits ≠ []) (isDigit : ∀ c ∈ digits, c.isDigit) :
      IsNumber .integer digits
  | float {whole fraction} (whole_ne : whole ≠ []) (whole_isDigit : ∀ c ∈ whole, c.isDigit)
      (fraction_ne : fraction ≠ []) (fraction_isDigit : ∀ c ∈ fraction, c.isDigit) :
      IsNumber .float (whole ++ '.' :: fraction)
  | marked {radix digits} (ne : digits ≠ []) (hasDigit : ∀ c ∈ digits, Token.hasDigit radix c) :
      IsNumber (.marked radix) ('0' :: radix.mark :: digits)

-- What may stand between two quotes on one line.
def IsQuotable (text : List Char) : Prop :=
  ∀ c ∈ text, ¬Token.isQuote c ∧ c ≠ '\n'

-- The ways to write a token, whatever stands around it.
inductive Spelt : Token → List Char → Prop
  | function : Spelt .function ['f', 'n']
  | constant (c : Constant) : Spelt (.constant c) c.word.toList
  | word {text called} (h : IsWord text) : Spelt (.name (String.ofList text) called) text
  | digitName {text} (h : IsDigitName text) : Spelt (.name (String.ofList text) false) text
  | number {form text} (h : IsNumber form text) : Spelt (.number form (String.ofList text)) text
  | string {text opening closing} (h : IsQuotable text) (ho : Token.isQuote opening)
      (hc : Token.isQuote closing) :
      Spelt (.string (String.ofList text)) (opening :: text ++ [closing])
  | operator (op : Operator) : Spelt (.operator op) op.symbol.toList
  | counter (c : Counter) : Spelt (.counter c) c.symbol.toList
  | openBrace : Spelt .openBrace ['{']
  | closeBrace : Spelt .closeBrace ['}']
  | openParen : Spelt .openParen ['(']
  | closeParen : Spelt .closeParen [')']
  | comma : Spelt .comma [',']

-- The tokens that are a mistake wherever they stand.
def Token.isMistake : Token → Bool
  | badNumber _ | openString | dot _ | colon | stray _ => true
  | _ => false

-- What the lexer may make of the front of a text: a token of the given length that is written
-- there. A dot at its end belongs to no token.
def StandsIn (t : Token) (length : Nat) (text : List Char) : Prop :=
  ∃ spelling rest, text = spelling ++ rest ∧ Spelt t spelling ∧
    (spelling.length = length ∨ spelling.length + 1 = length ∧ rest.head? = some '.') ∧
    (∀ name, t = .name name true → rest.head? = some '(')

theorem Spelt.ne_nil {t : Token} {spelling : List Char} (h : Spelt t spelling) :
    spelling ≠ [] := by
  cases h
  case constant c      => cases c <;> simp [Constant.word]
  case word h          => exact h.1
  case digitName h     =>
    obtain ⟨⟨c, rest, rfl, -⟩, -⟩ := h
    exact List.cons_ne_nil c rest
  case number h        => cases h <;> simp_all
  case operator op     => rcases op with ⟨⟨⟩⟩ | ⟨⟨⟩⟩ | _ | _ | _ <;> exact List.cons_ne_nil _ _
  case counter c       => cases c <;> exact List.cons_ne_nil _ _
  all_goals simp

end WispSyntax

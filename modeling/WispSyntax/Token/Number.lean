import WispSyntax.Text.Numeral
import WispSyntax.Token

/-!
Numbers, and the names that begin with a digit. Both are runs of letters and digits; what the run
is follows from its first two characters, the letters in it, and what a dot after it is for.
-/

namespace WispSyntax.Token

def isWordChar (c : Char) : Bool :=
  isLetter c || c.isDigit

-- The characters that make a bitwise operator with a dot before them.
def isBitwiseSuffix (c : Char) : Bool :=
  c = '&' || c = '|' || c = '^' || c = '<' || c = '>'

def isArithmeticSymbol (c : Char) : Bool :=
  c = '+' || c = '-' || c = '*' || c = '/' || c = '%' || c = '^'

-- What comes after a run of letters and digits.
inductive Ending
  -- No dot, or one that begins a bitwise operator
  | plain
  -- A dot before an arithmetic operator: it ends the run and means nothing else.
  | dropped
  -- A dot before a digit
  | fraction
  -- Any other dot
  | loose
deriving DecidableEq, Repr

namespace Ending

def ofChars : List Char → Ending
  | '.' :: c :: _ =>
    if isBitwiseSuffix c then .plain
    else if isArithmeticSymbol c then .dropped
    else if c.isDigit then .fraction
    else .loose
  | ['.']         => .loose
  | _             => .plain

-- The end of a number of the given length, which may not have a dot of its own after it.
def close (token : Token) (fault : NumberFault) (length : Nat) : Ending → Token × Nat
  | plain    => (token, length)
  | dropped  => (token, length + 1)
  | fraction => (.badNumber fault, length)
  | loose    => (.badNumber fault, length)

end Ending

def hasDigit : Radix → Char → Bool
  | .hexadecimal, c => isHexDigit c
  | .binary,      c => c = '0' || c = '1'

-- A number marked by its radix, given what follows the mark.
def readMarked (radix : Radix) (digits : List Char) (ending : Ending) : Token × Nat :=
  match digits.dropWhile (hasDigit radix) with
  | c :: _ => (.badNumber (.digit radix c), 2 + (digits.takeWhile (hasDigit radix)).length)
  | []     =>
    let token :=
      if digits.isEmpty then
        badNumber (.noDigits radix)
      else
        number (.marked radix) (String.ofList ('0' :: radix.mark :: digits))
    ending.close token (.digit radix '.') (2 + digits.length)

-- A number with a fraction, given the digits before the dot and the characters after it.
def readFloat (whole after : List Char) : Token × Nat :=
  let run    := after.takeWhile isWordChar
  let length := whole.length + 1
  match run.dropWhile Char.isDigit with
  | c :: _ => (.badNumber (.float c), length + (run.takeWhile Char.isDigit).length)
  | []     =>
    (Ending.ofChars (after.dropWhile isWordChar)).close
      (number .float (String.ofList (whole ++ '.' :: run))) (.float '.') (length + run.length)

-- The number or the name at the front of a text that begins with a digit, and its length.
def readNumber (text : List Char) : Token × Nat :=
  let run    := text.takeWhile isWordChar
  let after  := text.dropWhile isWordChar
  let ending := Ending.ofChars after
  match run with
  | '0' :: 'x' :: digits => readMarked .hexadecimal digits ending
  | '0' :: 'b' :: digits => readMarked .binary digits ending
  | _                    =>
    if run.all Char.isDigit then
      match ending with
      | .fraction => readFloat run (after.drop 1)
      | _         =>
        ending.close (number .integer (String.ofList run)) (.float '.') run.length
    else
      (name (String.ofList run) false, run.length + if ending = .dropped then 1 else 0)

end WispSyntax.Token

import WispSyntax.Source.Line
import WispSyntax.Text.Letter
import WispSyntax.Token.Number

/-!
The tokens of a line. What a token is does not depend on the tokens around it, so a line is read
on its own; mistakes become tokens too and count only when the parser gets to them.
-/

namespace WispSyntax

namespace Token

-- Any quote closes any other.
def isQuote (c : Char) : Bool :=
  c = '\'' || c = '"' || c = '`'

-- The token of a word, given the characters after it.
def ofWord (word after : List Char) : Token :=
  match word with
  | ['f', 'n']                => function
  | ['t', 'r', 'u', 'e']      => constant .truth
  | ['f', 'a', 'l', 's', 'e'] => constant .falsehood
  | ['n', 'i', 'l']           => constant .nil
  | _                         => name (String.ofList word) (after.head? = some '(')

-- The string after an opening quote, and its length without that quote.
def readString (rest : List Char) : Token × Nat :=
  let content := rest.takeWhile (!isQuote ·)
  match rest.dropWhile (!isQuote ·) with
  | []     => (openString, content.length)
  | _ :: _ => (string (String.ofList content), content.length + 1)

-- A token that begins with neither a letter nor a digit nor a quote, and how many more characters
-- it has.
def readSymbol : Char → List Char → Token × Nat
  | '+', '+' :: _ => (counter .increment, 1)
  | '+', _        => (operator (.math .add), 0)
  | '-', '-' :: _ => (counter .decrement, 1)
  | '-', _        => (operator (.math .subtract), 0)
  | '*', _        => (operator (.math .multiply), 0)
  | '/', _        => (operator (.math .divide), 0)
  | '%', _        => (operator (.math .modulo), 0)
  | '^', _        => (operator (.math .power), 0)
  | '.', '&' :: _ => (operator (.math .bitAnd), 1)
  | '.', '|' :: _ => (operator (.math .bitOr), 1)
  | '.', '^' :: _ => (operator (.math .bitXor), 1)
  | '.', '<' :: _ => (operator (.math .shiftLeft), 1)
  | '.', '>' :: _ => (operator (.math .shiftRight), 1)
  | '.', rest     => (dot rest.head?, 0)
  | '=', '=' :: _ => (operator (.relation .equal), 1)
  | '=', _        => (operator (.relation .assign), 0)
  | '<', '=' :: _ => (operator (.relation .lessEq), 1)
  | '<', _        => (operator (.relation .less), 0)
  | '>', '=' :: _ => (operator (.relation .greaterEq), 1)
  | '>', _        => (operator (.relation .greater), 0)
  | '!', '=' :: _ => (operator .notEqual, 1)
  | '!', _        => (operator .not, 0)
  | ':', ':' :: _ => (operator .cast, 1)
  | ':', _        => (colon, 0)
  | '{', _        => (openBrace, 0)
  | '}', _        => (closeBrace, 0)
  | '(', _        => (openParen, 0)
  | ')', _        => (closeParen, 0)
  | ',', _        => (comma, 0)
  | c,   _        => (stray c, 0)

-- The token that begins with a character, and how many more characters it has.
def read (c : Char) (rest : List Char) : Token × Nat :=
  if isLetter c then
    let word := c :: rest.takeWhile isLetter
    (ofWord word (rest.dropWhile isLetter), word.length - 1)
  else if c.isDigit then
    let (token, length) := readNumber (c :: rest)
    (token, length - 1)
  else if isQuote c then
    readString rest
  else
    readSymbol c rest

end Token

namespace Lexeme

-- The tokens of the characters from a place on. The first so many characters belong to a token that
-- has been read already.
def ofChars (place : Location) : Nat → List Char → List Lexeme
  | _,        []        => []
  | skip + 1, _ :: rest => ofChars (place.right 1) skip rest
  | 0,        c :: rest =>
    if isBlank c then
      ofChars (place.right 1) 0 rest
    else
      let (token, more) := Token.read c rest
      { token, start := place, stop := place.right (more + 1) } :: ofChars (place.right 1) more rest

theorem ofChars_drop (place : Location) (skip : Nat) (chars : List Char) :
    ofChars place skip chars = ofChars (place.right skip) 0 (chars.drop skip) := by
  induction chars generalizing place skip
  case nil => simp [ofChars]
  case cons c chars hi =>
    cases skip
    case zero      => rfl
    case succ skip => rw [ofChars, hi, Location.right_right, List.drop_succ_cons, Nat.add_comm]

end Lexeme

namespace SourceLine

-- The place of the first character.
def start (l : SourceLine) : Location where
  line   := l.number
  column := 1

-- The place after the last character.
def stop (l : SourceLine) : Location :=
  l.start.right l.text.length

def lexemes (l : SourceLine) : List Lexeme :=
  Lexeme.ofChars l.start 0 l.text.toList

end SourceLine
end WispSyntax

import WispSyntax.Source.Line
import WispSyntax.Token.Lexer
import WispSyntax.Viewer.Theme

/-!
The colours of a line of a program. They are found without the parser, so that they can be shown
for any text; a line is cut into strings, words and single characters.
-/

namespace WispSyntax.Highlight

def constantWords : List (List Char) :=
  ["true".toList, "false".toList, "nil".toList]

-- The style of a word: what it is itself goes before what its neighbours make of it.
def wordStyle (word previous : List Char) (called cast : Bool) : Style :=
  if word.head?.any Char.isDigit && word.all Char.isAlphanum then
    { fg := some Theme.number }
  else if word = "fn".toList then
    { fg := some Theme.keyword, bold := true }
  else if word ∈ constantWords then
    { fg := some Theme.number }
  else if previous = "fn".toList || called then
    { fg := some Theme.function }
  else if cast then
    { fg := some Theme.typeName }
  else
    { fg := some Theme.text }

def symbolStyle (c : Char) : Style :=
  if c ∈ ['{', '}', '(', ')'] then
    { fg := some Theme.primary }
  else if c ∈ "+-*/%^.&|=!<>:".toList then
    { fg := some Theme.operator }
  else
    { fg := some Theme.text }

-- A piece of a line: how many characters it has after its first one, its style, and the word that
-- counts as the previous one after it.
structure Piece where
  more     : Nat
  style    : Style
  previous : List Char

-- The piece that begins with a character. `before` holds the characters before it, the nearest
-- first; strings and blanks leave the previous word as it is.
def piece (before previous : List Char) (c : Char) (rest : List Char) : Piece :=
  if Token.isQuote c then
    let content := rest.takeWhile (!Token.isQuote ·)
    { more := min (content.length + 1) rest.length, style := { fg := some Theme.string }, previous }
  else if isAlphanumeric c then
    let tail   := rest.takeWhile isAlphanumeric
    let word   := c :: tail
    let called := (rest.dropWhile isAlphanumeric).head? = some '('
    let cast   := before.take 2 = "::".toList
    { more := tail.length, style := wordStyle word previous called cast, previous := word }
  else
    { more := 0, style := symbolStyle c, previous := if isBlank c then previous else [] }

-- The spans of the characters from some place on; the first so many belong to a span that has been
-- made already.
def spansFrom (before previous : List Char) : Nat → List Char → List Span
  | _,        []        => []
  | skip + 1, c :: rest => spansFrom (c :: before) previous skip rest
  | 0,        c :: rest =>
    let p := piece before previous c rest
    { text := String.ofList (c :: rest.take p.more), style := p.style } ::
      spansFrom (c :: before) p.previous p.more rest

-- The spans of a line. Blank lines and comments are a single span.
def spans (line : String) : List Span :=
  if SourceLine.isSkippable line then
    [{ text := line, style := { fg := some Theme.comment } }]
  else
    spansFrom [] [] 0 line.toList

end WispSyntax.Highlight

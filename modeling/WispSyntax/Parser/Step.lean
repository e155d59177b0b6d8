import WispSyntax.Parser.State
import WispSyntax.Token

/-!
What each token does to the state of the parser.
-/

namespace WispSyntax.Parser.State

-- A closing token means something only in the innermost construct that it can close, or whose
-- entries it can part; anywhere else it is a stray character.
def closes (s : State) : Token → Bool
  | .closeBrace => s.innermost = some .block
  | .closeParen => s.innermost = some .group || s.innermost = some .declaration
  | .comma      => s.innermost = some .group || s.innermost = some .declaration
  | _           => false

-- A cast that gets no type is a type query. One whose right side has begun with a declaration is no
-- longer waiting for anything itself.
def settleCast (s : State) : Except Refusal State :=
  match s.awaited, s.stack with
  | .anything, .operator .cast lhs place :: stack =>
    deliver s.program { kind := .typeOf, lhs, location := place } stack
  | _,         _                                  => .ok s

-- Turns finished parentheses into a node; after a signature the body of the function follows.
def closeList (s : State) (opening : Opening) (place : Location) (entries : List (List Node)) :
    Except Refusal State :=
  let params := entries.reverse
  match opening with
  | .group | .parameters => s.put { kind := .group, params, location := place }
  | .call name           => s.put { kind := .call, value := name, params, location := place }
  | .signature name      => .ok (s.await (.brace { name, params, place }))

def closeBlock (s : State) (header : Option Header) (place : Location) (content : Sequence) :
    Except Refusal State :=
  match header with
  | none   => s.put { kind := .block, children := content.toList, location := place }
  | some h => s.put { kind := .function, value := h.name, params := h.params,
                      children := content.toList, location := h.place }

-- The character of a closing token.
def bracket : Token → Char
  | .closeBrace => '}'
  | .closeParen => ')'
  | _           => ','

-- A closing token that means something, in the innermost frame.
def close (s : State) (token : Token) (place : Location) : Except Refusal State :=
  match s.stack, token with
  | .operator op _ _ :: _, _ =>
    .error { fault := .missingOperand op.family, place }
  | .naming _ :: _, _ =>
    .error { fault := .missingName, place }
  | .list opening start entries [] _ :: stack, .closeParen =>
    closeList { s with stack } opening start entries
  | .list opening start entries entry _ :: stack, .closeParen => do
    let full ← finishEntry opening entry
    closeList { s with stack } opening start (full :: entries)
  | .list _ _ _ [] _ :: _, .comma =>
    .error { fault := .emptyEntry, place }
  | .list opening start entries entry _ :: stack, .comma => do
    let full ← finishEntry opening entry
    return { s with stack := .list opening start (full :: entries) [] opening.budget :: stack }
  | .block header start content :: stack, .closeBrace =>
    closeBlock { s with stack } header start content
  | _, token =>
    .error { fault := .strayCharacter (bracket token), place }

-- A token where an expression may begin or go on.
def accept (s : State) (l : Lexeme) : Except Refusal State :=
  match l.token with
  | .function =>
    if .declaration ∈ s.constructs then
      .error { fault := .nestedFunction, place := l.start }
    else
      .ok (s.push (.naming l.start))
  | .constant c =>
    s.put (.leaf c.kind "" l.start)
  | .name text called =>
    if called && s.innermost ≠ some .declaration then
      .ok (s.await (.parenthesis (.call text) l.start))
    else
      s.put (.leaf .identifier text l.start)
  | .number form text =>
    s.put (.leaf form.kind text l.start)
  | .string text =>
    s.put (.leaf .string text l.start)
  | .operator .not =>
    .ok (s.push (.operator .not none l.start))
  | .operator op => do
    let (lhs, s) ← s.takeLeft op.family (if op = .notEqual then l.stop else l.start)
    return s.push (.operator op (some lhs) l.start)
  | .counter c => do
    let (lhs, s) ← s.takeLeft .math l.start
    if lhs.kind = .string then
      .error { fault := .countedString c, place := l.start }
    else
      s.put (.after c.kind lhs l.start)
  | .openBrace =>
    .ok (s.push (.openBlock none l.start))
  | .openParen =>
    let opening := if s.innermost = some .declaration then .parameters else .group
    .ok (s.push (.openList opening l.start))
  | .closeBrace | .closeParen | .comma =>
    if s.closes l.token then
      s.close l.token l.start
    else
      .error { fault := .strayCharacter (bracket l.token), place := l.start }
  | .badNumber fault =>
    .error { fault := .number fault, place := l.stop }
  | .openString =>
    .error { fault := .openString, place := l.start }
  | .dot next => do
    let _ ← s.takeLeft .math l.start
    let fault := match next with
      | none   => .endsAfterDot
      | some c => .notBitwise c
    .error { fault, place := l.stop }
  | .colon => do
    let _ ← s.takeLeft .typing l.start
    .error { fault := .singleColon, place := l.stop }
  | .stray c =>
    .error { fault := .strayCharacter c, place := l.start }

-- The next token of a line.
def step (s : State) (l : Lexeme) : Except Refusal State := do
  let s ← if l.token.isRelation || s.closes l.token then s.settleCast else .ok s
  match s.awaited, l.token with
  | .anything,                  _           => s.accept l
  | .parenthesis opening place, .openParen  =>
    return (s.await .anything).push (.openList opening place)
  | .parenthesis _ _,           _           =>
    .error { fault := .missingParenthesis, place := l.start }
  | .brace header,              .openBrace  =>
    return (s.await .anything).push (.openBlock header header.place)
  | .brace _,                   _           => .error { fault := .missingBrace, place := l.start }
  | .separator,                 .closeParen => (s.await .anything).close .closeParen l.start
  | .separator,                 .comma      => return s.await .anything
  | .separator,                 _           =>
    .error { fault := .unseparatedParameter, place := l.start }

-- The end of a line, given the place after its last character. It ends an entry, but neither
-- parentheses nor braces.
def endLine (s : State) (stop : Location) : Except Refusal State := do
  let s ← s.settleCast
  match s.awaited, s.stack with
  | .separator,   _                           => return s.await .anything
  | .anything,    []                          => return { s with program := s.program.settle }
  | .anything,    .operator op _ _ :: _       =>
    .error { fault := .missingOperand op.family, place := stop }
  | .anything,    .naming _ :: _              => .error { fault := .missingName, place := stop }
  | .anything,    .list _ _ _ [] _ :: _       => return s
  | .anything,    .list opening place entries entry _ :: stack =>
    let full ← finishEntry opening entry
    return { s with stack := .list opening place (full :: entries) [] opening.budget :: stack }
  | .anything,    .block header place content :: stack =>
    return { s with stack := .block header place content.settle :: stack }
  | _,            _                           => return s

end WispSyntax.Parser.State

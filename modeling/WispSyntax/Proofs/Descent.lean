import WispSyntax.Program
import WispSyntax.Proofs.Supplier

/-!
The parser by recursive descent. A session pulls lines from a supplier when it needs them. It keeps
its place in the line and the constructs that it is inside of, also when it has failed, and it can
be asked for a program again.
-/

namespace WispSyntax

structure Session (α : Type) where
  supplier : α
  -- The line that was pulled last, and how many of its characters have been read
  line     : SourceLine := { number := 0, text := "" }
  position : Nat := 0
  -- The constructs that the session is inside of, innermost first
  contexts : List Construct := []

-- The tokens that are left of the line.
def Session.rest {α : Type} (s : Session α) : List Lexeme :=
  Lexeme.ofChars (s.line.start.right s.position) 0 (s.line.text.toList.drop s.position)

-- A way to go on with a session. A failure leaves the session where it was.
def Builder (α β : Type) : Type :=
  Session α → Except Failure β × Session α

namespace Builder

open WispSyntax.Parser

variable {α β : Type}

instance : Monad (Builder α) where
  pure b   := fun s => (.ok b, s)
  bind x f := fun s =>
    match x s with
    | (.ok b, s)          => f b s
    | (.error failure, s) => (.error failure, s)

def reject (fault : Fault) (place : Location) : Builder α β :=
  fun s => (.error (.rejected fault place s.line.text), s)

-- The next token of the line.
def peek : Builder α (Option Lexeme) :=
  fun s => (.ok s.rest.head?, s)

-- The place of the next token, or the end of the line.
def here : Builder α Location :=
  fun s => (.ok (s.rest.head?.elim s.line.stop (·.start)), s)

def consume : Builder α Unit :=
  fun s => (.ok (), { s with position := s.rest.head?.elim s.position (·.stop.column - 1) })

-- Goes past the next token if it is the given one.
def eat (token : Token) : Builder α Bool := do
  match ← peek with
  | none   => return false
  | some l =>
    if l.token = token then
      consume
      return true
    else
      return false

def contexts : Builder α (List Construct) :=
  fun s => (.ok s.contexts, s)

-- Whether a token closes the innermost construct, or parts its entries.
def closesIn (innermost : Option Construct) : Token → Bool
  | .closeBrace          => innermost = some .block
  | .closeParen | .comma => innermost = some .group || innermost = some .declaration
  | _                    => false

-- Goes on inside of a construct, which is left on every way out.
def within (construct : Construct) (x : Builder α β) : Builder α β :=
  fun s =>
    let (result, s) := x { s with contexts := construct :: s.contexts }
    (result, { s with contexts := s.contexts.tail })

-- Stands for what does not come to an end in the given number of steps.
def stuck : Builder α β :=
  fun s => (.error (.unreadable "no end"), s)

section
variable [LineSupplier α]

-- Pulls the next line, if there is one.
def nextLine : Builder α Bool :=
  fun s =>
    match LineSupplier.hasNext s.supplier with
    | (false, supplier) => (.ok false, { s with supplier })
    | (true, supplier)  =>
      match LineSupplier.advance supplier with
      | (.ok (some line), supplier) => (.ok true, { s with supplier, line, position := 0 })
      | (.ok none, supplier)        => (.ok false, { s with supplier })
      | (.error reason, supplier)   => (.error (.unreadable reason), { s with supplier })

-- Pulls lines until one of them has a token.
def skipToToken (construct : Construct) : Nat → Builder α Unit
  | 0         => stuck
  | steps + 1 => do
    match ← peek with
    | some _ => return
    | none   =>
      if ← nextLine then
        skipToToken construct steps
      else
        reject (.openConstruct construct) (← here)

end

-- The newest node, as the left operand of an operator.
def takeLeft (family : Family) (place : Location) : List Node → Builder α (Node × List Node)
  | []         => reject (.leftOperand family) place
  | n :: nodes =>
    if family.acceptsLeft n.kind then
      return (n, nodes)
    else
      reject (.leftOperand family) n.location

section
variable (expressions : Budget → Builder α (List Node))

-- Exactly one expression after an operator.
def rightOperand (op : Operator) : Builder α Node := do
  match ← peek with
  | none   => reject (.missingOperand op.family) (← here)
  | some _ =>
    match ← expressions (.limited 1) with
    | []     => reject (.missingOperand op.family) (← here)
    | n :: _ =>
      if op.family.acceptsRight n.kind then
        return n
      else
        reject (.rightOperand op.family) n.location

-- A cast, or a type query if nothing follows that it could be cast to.
def typing (l : Lexeme) (nodes : List Node) : Builder α (Node × List Node) := do
  let (lhs, nodes) ← takeLeft .typing l.start nodes
  consume
  let query : Node := { kind := .typeOf, lhs, location := l.start }
  match ← peek with
  | none      => return (query, nodes)
  | some next =>
    if next.token.isRelation || closesIn (← contexts).head? next.token then
      return (query, nodes)
    else
      match ← expressions (.limited 1) with
      | []     => return (query, nodes)
      | n :: _ =>
        if n.kind = .identifier then
          return (combine .cast lhs n l.start, nodes)
        else
          reject (.rightOperand .typing) n.location

variable [LineSupplier α] (steps : Nat)

-- What stands in braces, the newest node first.
def content : Nat → List Node → Builder α (List Node)
  | 0,     _     => stuck
  | n + 1, nodes => do
    skipToToken .block steps
    if ← eat .closeBrace then
      return nodes
    else
      let more ← expressions .unbounded
      content n (more ++ nodes)

def block : Builder α Node := do
  let place ← here
  if ← eat .openBrace then
    let nodes ← within .block (content expressions steps steps [])
    return { kind := .block, children := nodes.reverse, location := place }
  else
    reject .missingBrace place

-- What has to follow a parameter.
def separator : Builder α Unit := do
  match ← peek with
  | none   => return
  | some l =>
    if l.token = .comma || l.token = .closeParen then
      return
    else
      reject .unseparatedParameter l.start

-- What an entry has to be, given the place where it begins, and what has to follow it.
def closeEntry (paired : Bool) (place : Location) (entry : List Node) : Builder α Unit := do
  if entry.isEmpty then
    reject .emptyEntry (← here)
  else if paired && !isParameter entry then
    reject .notParameter place
  else
    if paired then separator
    let _ ← eat .comma

-- What stands in parentheses, the newest entry first. Parameters are pairs.
def entries (paired : Bool) : Nat → List (List Node) → Builder α (List (List Node))
  | 0,     _    => stuck
  | n + 1, done => do
    skipToToken .group steps
    if ← eat .closeParen then
      return done
    else
      let place ← here
      let entry ← expressions (if paired then .limited 2 else .unbounded)
      closeEntry paired place entry
      entries paired n (entry.reverse :: done)

-- In the head of a declaration, the entries are its parameters.
def list : Builder α (List (List Node)) := do
  if (← contexts).head? = some .declaration then
    entries expressions steps true steps []
  else
    within .group (entries expressions steps false steps [])

def group : Builder α Node := do
  let place ← here
  if ← eat .openParen then
    let params ← list expressions steps
    return { kind := .group, params := params.reverse, location := place }
  else
    reject .missingParenthesis place

def name : Builder α String := do
  match ← expressions (.limited 1) with
  | []     => reject .missingName (← here)
  | n :: _ =>
    if n.kind = .identifier then
      return n.value
    else
      reject (.notName n.kind) n.location

def function (place : Location) : Builder α Node :=
  within .declaration do
    let value ← name expressions
    skipToToken .declaration steps
    let head ← group expressions steps
    skipToToken .declaration steps
    let body ← block expressions steps
    return { kind := .function, value, params := head.params, children := body.children
             location := place }

-- An expression that begins with a token, given the nodes before it, the newest first. An operator
-- takes one of these as its left operand.
def item (l : Lexeme) (nodes : List Node) : Builder α (Node × List Node) :=
  match l.token with
  | .function => do
    if (← contexts).contains .declaration then
      reject .nestedFunction l.start
    else
      consume
      return (← function expressions steps l.start, nodes)
  | .constant c => do
    consume
    return (.leaf c.kind "" l.start, nodes)
  | .name text called => do
    consume
    if called && (← contexts).head? ≠ some .declaration then
      let arguments ← group expressions steps
      return ({ kind := .call, value := text, params := arguments.params, location := l.start },
        nodes)
    else
      return (.leaf .identifier text l.start, nodes)
  | .number form text => do
    consume
    return (.leaf form.kind text l.start, nodes)
  | .string text => do
    consume
    return (.leaf .string text l.start, nodes)
  | .operator .not => do
    consume
    return (combine .not none (← rightOperand expressions .not) l.start, nodes)
  | .operator .cast => typing expressions l nodes
  | .operator op => do
    let (lhs, nodes) ← takeLeft op.family (if op = .notEqual then l.stop else l.start) nodes
    consume
    return (combine op lhs (← rightOperand expressions op) l.start, nodes)
  | .counter c => do
    let (lhs, nodes) ← takeLeft .math l.start nodes
    consume
    if lhs.kind = .string then
      reject (.countedString c) l.start
    else
      return (.after c.kind lhs l.start, nodes)
  | .openBrace => do
    return (← block expressions steps, nodes)
  | .openParen => do
    return (← group expressions steps, nodes)
  | .closeBrace | .closeParen | .comma =>
    reject (.strayCharacter (State.bracket l.token)) l.start
  | .badNumber fault =>
    reject (.number fault) l.stop
  | .openString =>
    reject .openString l.start
  | .dot next => do
    let _ ← takeLeft .math l.start nodes
    match next with
    | none   => reject .endsAfterDot l.stop
    | some c => reject (.notBitwise c) l.stop
  | .colon => do
    let _ ← takeLeft .typing l.start nodes
    reject .singleColon l.stop
  | .stray c =>
    reject (.strayCharacter c) l.start

end

variable [LineSupplier α]

-- Expressions side by side up to the end of the line, to a token that closes the construct around
-- them or to the end of the budget.
def dispatch : Nat → Budget → List Node → Builder α (List Node)
  | 0,         _,      _     => stuck
  | steps + 1, budget, nodes => do
    if budget.isSpent then
      return nodes
    else
      match ← peek with
      | none   => return nodes
      | some l =>
        if closesIn (← contexts).head? l.token then
          return nodes
        else
          let (node, nodes) ← item (fun budget => dispatch steps budget []) steps l nodes
          dispatch steps budget.spend (node :: nodes)

-- The lines that are left of a program, after nodes of which the newest comes first.
def lines : Nat → List Node → Builder α Node
  | 0,         _     => stuck
  | steps + 1, nodes => do
    if ← nextLine then
      let more ← dispatch steps .unbounded []
      lines steps (more ++ nodes)
    else
      return { kind := .root, children := nodes.reverse, location := { line := 1, column := 1 } }

end Builder

-- So many steps are enough to read all lines.
def Feed.size (f : Feed) : Nat :=
  f.lines.foldr (fun l n => l.lexemes.length + 1 + n) 0

namespace Session

variable {α : Type} [LineSupplier α]

def parseProgram : Builder α Node :=
  fun s => Builder.lines ((LineSupplier.feed s.supplier).size + 1) [] s

end Session
end WispSyntax

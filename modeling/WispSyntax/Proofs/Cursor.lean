import WispSyntax.Proofs.Descent
import WispSyntax.Proofs.Numerals

/-!
The descent without tokens: a session that goes through its line character by character and decides
at each what to read next. All that it goes through is recorded, so that one can tell afterwards
what happened on the way.
-/

namespace WispSyntax

open WispSyntax.Parser

-- Ways that the descent has prepared for, but that no input leads to.
inductive Arm
  -- No operator stands where one has been announced by its first character
  | operator
  | relation
  -- There is something that an expression could be cast to, but it yields no expression.
  | target
deriving DecidableEq, Repr

inductive Event
  -- The session has gone on and is now inside of these constructs, innermost first.
  | moved (contexts : List Construct)
  -- An operator misses its right operand before this character, or at the end of the line.
  | missingOperand (contexts : List Construct) (next : Option Char)
  | emptyEntry (next : Option Char)
  | fellThrough (arm : Arm)
  -- More turns or more levels were asked for than there are.
  | exhausted
deriving DecidableEq, Repr

-- A supplier, and what has happened so far, the newest event first.
structure Recorded (α : Type) where
  supplier : α
  events   : List Event := []

namespace Recorded

variable {α : Type} [LineSupplier α]

instance : LineSupplier (Recorded α) where
  hasNext r :=
    let (more, supplier) := LineSupplier.hasNext r.supplier
    (more, { r with supplier })
  advance r :=
    let (line, supplier) := LineSupplier.advance r.supplier
    (line, { r with supplier })
  feed r    := LineSupplier.feed r.supplier
  IsValid r := LineSupplier.IsValid r.supplier

end Recorded

namespace Session

variable {α : Type}

-- The characters that are left of the line.
def ahead (s : Session α) : List Char :=
  s.line.text.toList.drop s.position

-- The place of the next character, or the end of the line.
def place (s : Session α) : Location :=
  s.line.start.right s.position

-- How many characters and lines are left.
def amount [LineSupplier α] (s : Session α) : Nat :=
  s.ahead.length + (LineSupplier.feed s.supplier).lines.foldr (fun l n => l.text.length + 1 + n) 0

def events (s : Session (Recorded α)) : List Event :=
  s.supplier.events

-- The session with a record of what has happened so far.
def recorded (s : Session α) (events : List Event) : Session (Recorded α) :=
  { s with supplier := { supplier := s.supplier, events } }

-- The session without its record.
def plain (s : Session (Recorded α)) : Session α :=
  { s with supplier := s.supplier.supplier }

def noting (s : Session (Recorded α)) (event : Event) : Session (Recorded α) :=
  { s with supplier := { s.supplier with events := event :: s.events } }

-- The session so many characters further on.
def past (s : Session (Recorded α)) (n : Nat) : Session (Recorded α) :=
  { s.noting (.moved s.contexts) with position := s.position + n }

end Session

-- A way to go on with a session that is recorded.
abbrev Reading (α β : Type) : Type :=
  Builder (Recorded α) β

-- What a turn of a loop comes to.
inductive Turn (σ β : Type)
  | leave (result : β)
  | again (next : σ)

namespace Cursor

open Builder (reject contexts within nextLine stuck takeLeft)

variable {α β σ : Type}

def ahead : Reading α (List Char) :=
  fun s => (.ok s.ahead, s)

def peek : Reading α (Option Char) :=
  fun s => (.ok s.ahead.head?, s)

def here : Reading α Location :=
  fun s => (.ok s.place, s)

def note (event : Session (Recorded α) → Event) : Reading α Unit :=
  fun s => (.ok (), s.noting (event s))

def pass (n : Nat) : Reading α Unit :=
  fun s => (.ok (), s.past n)

def advance : Reading α (Option Char) := do
  match ← peek with
  | none   => return none
  | some c =>
    pass 1
    return some c

-- Goes past the next character if it is the given one.
def eat (c : Char) : Reading α Bool := do
  if (← peek) = some c then
    pass 1
    return true
  else
    return false

def takeWhile (p : Char → Bool) : Reading α (List Char) := do
  let run := (← ahead).takeWhile p
  pass run.length
  return run

def skipBlanks : Reading α Unit := do
  let _ ← takeWhile isBlank

def inside (construct : Construct) (x : Reading α β) : Reading α β :=
  fun s =>
    let inner : Reading α β := do
      note (.moved ·.contexts)
      x
    let (result, s) := within construct inner s
    (result, s.noting (.moved s.contexts))

-- Whether a character closes the innermost construct, or parts its entries.
def closes (innermost : Option Construct) : Char → Bool
  | '}'       => innermost = some .block
  | ')' | ',' => innermost = some .group || innermost = some .declaration
  | _         => false

def exhausted : Reading α β := do
  note fun _ => .exhausted
  stuck

def fallThrough (arm : Arm) (fault : Fault) (place : Location) : Reading α β := do
  note fun _ => .fellThrough arm
  reject fault place

-- So many turns at most.
def turns (turn : σ → Reading α (Turn σ β)) : Nat → σ → Reading α β
  | 0,     _ => exhausted
  | n + 1, x => do
    match ← turn x with
    | .leave result => return result
    | .again next   => turns turn n next

section
variable [LineSupplier α]

-- As many turns as the input has room for.
def loop (turn : σ → Reading α (Turn σ β)) (x : σ) : Reading α β :=
  fun s => turns turn (s.amount + 1) x s

def pullLine : Reading α Bool := do
  let more ← nextLine
  note (.moved ·.contexts)
  return more

def skipTurn (construct : Construct) (_ : Unit) : Reading α (Turn Unit Unit) := do
  skipBlanks
  if (← peek).isSome then
    return .leave ()
  else if ← pullLine then
    return .again ()
  else
    reject (.openConstruct construct) (← here)

def skipToToken (construct : Construct) : Reading α Unit :=
  loop (skipTurn construct) ()

-- One more character of a number, which decides what it turns out to be.
def digitTurn :
    Token.Guess × List Char → Reading α (Turn (Token.Guess × List Char) (Token.Guess × List Char))
  | (guess, taken) => do
    match ← ahead with
    | []        => return .leave (guess, taken)
    | c :: rest =>
      match guess.move taken c rest.head? with
      | .take guess =>
        pass 1
        return .again (guess, taken ++ [c])
      | .stop       => return .leave (guess, taken)
      | .stopAfter  =>
        pass 1
        return .leave (guess, taken)
      | .fail fault => reject (.number fault) (← here)

def number : Reading α Node := do
  let place ← here
  let (guess, taken) ← loop digitTurn (.integer, [])
  match guess with
  | .integer      => return .leaf .integer (String.ofList taken) place
  | .float        => return .leaf .float (String.ofList taken) place
  | .name         => return .leaf .identifier (String.ofList taken) place
  | .marked radix =>
    if taken.length = 2 then
      reject (.number (.noDigits radix)) (← here)
    else
      return .leaf radix.kind (String.ofList taken) place

end

-- The string after a quote.
def string : Reading α Node := do
  let place ← here
  let _ ← advance
  let content ← takeWhile (!Token.isQuote ·)
  match ← advance with
  | some _ => return .leaf .string (String.ofList content) place
  | none   => reject .openString place

def bitwise : Reading α MathOperator := do
  let take (op : MathOperator) : Reading α MathOperator := do
    pass 1
    return op
  match ← peek with
  | none     => reject .endsAfterDot (← here)
  | some '&' => take .bitAnd
  | some '|' => take .bitOr
  | some '^' => take .bitXor
  | some '<' => take .shiftLeft
  | some '>' => take .shiftRight
  | some c   => reject (.notBitwise c) (← here)

-- The symbol of an operator that stands at this place.
def mathSymbol (place : Location) : Reading α (MathOperator ⊕ Counter) := do
  match ← advance with
  | some '+' => return if ← eat '+' then .inr .increment else .inl .add
  | some '-' => return if ← eat '-' then .inr .decrement else .inl .subtract
  | some '*' => return .inl .multiply
  | some '/' => return .inl .divide
  | some '%' => return .inl .modulo
  | some '^' => return .inl .power
  | some '.' => return .inl (← bitwise)
  | _        => fallThrough .operator .noOperator place

def relationSymbol (place : Location) : Reading α Relation := do
  let first ← advance
  let doubled ← eat '='
  match first, doubled with
  | some '=', false => return .assign
  | some '=', true  => return .equal
  | some '<', false => return .less
  | some '<', true  => return .lessEq
  | some '>', false => return .greater
  | some '>', true  => return .greaterEq
  | _,        _     => fallThrough .relation .noRelation place

section
variable (expressions : Budget → Reading α (List Node))

def noOperand (op : Operator) : Reading α Node := do
  note fun s => .missingOperand s.contexts s.ahead.head?
  reject (.missingOperand op.family) (← here)

-- Exactly one expression after an operator.
def rightOperand (op : Operator) : Reading α Node := do
  skipBlanks
  match ← peek with
  | none   => noOperand op
  | some _ =>
    match ← expressions (.limited 1) with
    | []     => noOperand op
    | n :: _ =>
      if op.family.acceptsRight n.kind then
        return n
      else
        reject (.rightOperand op.family) n.location

-- The nodes before an operator come with the newest first. The result is the node of the operator
-- and those before it that are not its operand.
def math (nodes : List Node) : Reading α (Node × List Node) := do
  let place ← here
  let (lhs, nodes) ← takeLeft .math place nodes
  match ← mathSymbol place with
  | .inr c  =>
    if lhs.kind = .string then
      reject (.countedString c) place
    else
      return (.after c.kind lhs place, nodes)
  | .inl op =>
    return (combine (.math op) lhs (← rightOperand expressions (.math op)) place, nodes)

def relation (nodes : List Node) : Reading α (Node × List Node) := do
  let place ← here
  let (lhs, nodes) ← takeLeft .relation place nodes
  let op ← relationSymbol place
  return (combine (.relation op) lhs (← rightOperand expressions (.relation op)) place, nodes)

def negation (nodes : List Node) : Reading α (Node × List Node) := do
  let place ← here
  let _ ← advance
  if ← eat '=' then
    let (lhs, nodes) ← takeLeft .inequality (← here) nodes
    return (combine .notEqual lhs (← rightOperand expressions .notEqual) place, nodes)
  else
    return (combine .not none (← rightOperand expressions .not) place, nodes)

-- The characters that a comparison or an assignment begins with.
def isRelationSymbol (c : Char) : Bool :=
  c = '=' || c = '<' || c = '>'

-- A cast, or a type query if nothing follows that it could be cast to.
def typing (nodes : List Node) : Reading α (Node × List Node) := do
  let place ← here
  let (lhs, nodes) ← takeLeft .typing place nodes
  let _ ← advance
  if ← eat ':' then
    skipBlanks
    let query : Node := { kind := .typeOf, lhs, location := place }
    match ← peek with
    | none   => return (query, nodes)
    | some c =>
      if isRelationSymbol c || closes (← contexts).head? c then
        return (query, nodes)
      else
        match ← expressions (.limited 1) with
        | []     =>
          note fun _ => .fellThrough .target
          return (query, nodes)
        | n :: _ =>
          if n.kind = .identifier then
            return (combine .cast lhs n place, nodes)
          else
            reject (.rightOperand .typing) n.location
  else
    reject .singleColon (← here)

variable [LineSupplier α]

-- One more piece of what stands in braces, the newest node first.
def contentTurn (nodes : List Node) : Reading α (Turn (List Node) (List Node)) := do
  skipToToken .block
  if ← eat '}' then
    return .leave nodes
  else
    let more ← expressions .unbounded
    return .again (more ++ nodes)

def block : Reading α Node := do
  let place ← here
  if ← eat '{' then
    let nodes ← inside .block (loop (contentTurn expressions) [])
    skipBlanks
    return { kind := .block, children := nodes.reverse, location := place }
  else
    reject .missingBrace place

-- What has to follow a parameter.
def separator : Reading α Unit := do
  match ← peek with
  | none   => return
  | some c =>
    if c = ',' || c = ')' then
      return
    else
      reject .unseparatedParameter (← here)

-- What an entry has to be, given the place where it begins, and what has to follow it.
def closeEntry (paired : Bool) (place : Location) (entry : List Node) : Reading α Unit := do
  if entry.isEmpty then
    note (.emptyEntry ·.ahead.head?)
    reject .emptyEntry (← here)
  else if paired && !isParameter entry then
    reject .notParameter place
  else
    skipBlanks
    if paired then separator
    let _ ← eat ','

-- One more of the entries in parentheses, the newest first. Parameters are pairs.
def entriesTurn (paired : Bool) (done : List (List Node)) :
    Reading α (Turn (List (List Node)) (List (List Node))) := do
  skipToToken .group
  if ← eat ')' then
    return .leave done
  else
    let place ← here
    let entry ← expressions (if paired then .limited 2 else .unbounded)
    closeEntry paired place entry
    return .again (entry.reverse :: done)

-- In the head of a declaration, the entries are its parameters.
def list : Reading α (List (List Node)) := do
  if (← contexts).head? = some .declaration then
    loop (entriesTurn expressions true) []
  else
    inside .group (loop (entriesTurn expressions false) [])

def group : Reading α Node := do
  let place ← here
  if ← eat '(' then
    let params ← list expressions
    return { kind := .group, params := params.reverse, location := place }
  else
    reject .missingParenthesis place

def call (name : String) (place : Location) : Reading α Node := do
  let arguments ← group expressions
  return { kind := .call, value := name, params := arguments.params, location := place }

omit [LineSupplier α] in
def name : Reading α String := do
  skipBlanks
  let place ← here
  match ← expressions (.limited 1) with
  | []     => reject .missingName place
  | n :: _ =>
    if n.kind = .identifier then
      return n.value
    else
      reject (.notName n.kind) n.location

def function (place : Location) : Reading α Node :=
  inside .declaration do
    let value ← name expressions
    skipToToken .declaration
    let head ← group expressions
    skipToToken .declaration
    let body ← block expressions
    return { kind := .function, value, params := head.params, children := body.children
             location := place }

-- A keyword, a declaration, a call or an identifier.
def word : Reading α Node := do
  let place ← here
  match ← takeWhile isLetter with
  | ['f', 'n'] =>
    if (← contexts).contains .declaration then
      reject .nestedFunction place
    else
      function expressions place
  | ['t', 'r', 'u', 'e']      => return .leaf .truth "" place
  | ['f', 'a', 'l', 's', 'e'] => return .leaf .falsehood "" place
  | ['n', 'i', 'l']           => return .leaf .nil "" place
  | letters                   =>
    if (← peek) = some '(' && (← contexts).head? ≠ some .declaration then
      call expressions (String.ofList letters) place
    else
      return .leaf .identifier (String.ofList letters) place

-- An expression that begins with a character, given the nodes before it.
def item (c : Char) (nodes : List Node) : Reading α (Node × List Node) := do
  if isLetter c then
    return (← word expressions, nodes)
  else if c.isDigit then
    return (← number, nodes)
  else if Token.isQuote c then
    return (← string, nodes)
  else
    match c with
    | '+' | '-' | '*' | '/' | '%' | '^' | '.' => math expressions nodes
    | '=' | '<' | '>' => relation expressions nodes
    | '!'             => negation expressions nodes
    | ':'             => typing expressions nodes
    | '{'             => return (← block expressions, nodes)
    | '('             => return (← group expressions, nodes)
    | c               => reject (.strayCharacter c) (← here)

-- One more expression, given the budget that is left and the nodes so far, the newest first.
def expressionTurn :
    Budget × List Node → Reading α (Turn (Budget × List Node) (Budget × List Node))
  | (budget, nodes) => do
    if budget.isSpent then
      return .leave (budget, nodes)
    else
      skipBlanks
      match ← peek with
      | none   => return .leave (budget, nodes)
      | some c =>
        if closes (← contexts).head? c then
          return .leave (budget, nodes)
        else
          let (node, nodes) ← item expressions c nodes
          return .again (budget.spend, node :: nodes)

-- Expressions side by side up to the end of the line, to a character that closes the construct
-- around them or to the end of the budget, which comes back with them.
def sideBySide (budget : Budget) : Reading α (Budget × List Node) :=
  loop (expressionTurn expressions) (budget, [])

-- The rest of one line after another, the newest node first.
def programTurn (nodes : List Node) : Reading α (Turn (List Node) Node) := do
  if ← pullLine then
    let more ← expressions .unbounded
    return .again (more ++ nodes)
  else
    return .leave
      { kind := .root, children := nodes.reverse, location := { line := 1, column := 1 } }

end

variable [LineSupplier α]

-- Expressions that are so many levels deep at most.
def expressions : Nat → Budget → Reading α (List Node)
  | 0,         _      => exhausted
  | depth + 1, budget => do
    let (_, nodes) ← sideBySide (expressions depth) budget
    return nodes

-- A program, as many levels deep as the input has room for.
def program : Reading α Node :=
  fun s => loop (programTurn (expressions s.amount)) [] s

end Cursor
end WispSyntax

import WispSyntax.Parser.Frame

/-!
The state of the parser between two tokens, and how a finished node finds its place in it.
-/

namespace WispSyntax.Parser

-- Which token may come next. Where no expression may stand, only one or two tokens may.
inductive Awaited
  | anything
  | parenthesis (opening : Opening) (place : Location)
  | brace (header : Header)
  -- The comma or the parenthesis after a parameter
  | separator
deriving DecidableEq

namespace Awaited

def constructs : Awaited → List Construct
  | parenthesis (.signature _) _ => [.declaration]
  | brace _                      => [.declaration]
  | _                            => []

def unclosed : Awaited → Option Construct
  | parenthesis _ _ => some .declaration
  | brace _         => some .declaration
  | _               => none

end Awaited

-- The innermost frame comes first; `program` holds what stands outside all of them.
structure State where
  awaited : Awaited := .anything
  stack   : List Frame := []
  program : Sequence := {}
deriving DecidableEq

-- A fault and the place that is named for it.
structure Refusal where
  fault : Fault
  place : Location
deriving DecidableEq, Repr

namespace State

-- The open constructs, innermost first.
def constructs (s : State) : List Construct :=
  s.awaited.constructs ++ s.stack.flatMap Frame.constructs

def innermost (s : State) : Option Construct :=
  s.constructs.head?

-- The innermost construct that needs more input, if there is one.
def unclosed (s : State) : Option Construct :=
  s.awaited.unclosed.or (s.stack.findSome? Frame.unclosed)

def push (s : State) (f : Frame) : State :=
  { s with stack := f :: s.stack }

def await (s : State) (a : Awaited) : State :=
  { s with awaited := a }

end State

-- The place where an entry begins.
def entryStart (entry : List Node) : Location :=
  (entry.getLast?.map Node.start).getD {}

-- A name and its type, newest first.
def isParameter : List Node → Bool
  | [type, name] => name.kind = .identifier && type.kind = .identifier
  | _            => false

-- An entry in the order in which its nodes stand.
def finishEntry (opening : Opening) (entry : List Node) : Except Refusal (List Node) :=
  if opening.isPaired && !isParameter entry then
    .error { fault := .notParameter, place := entryStart entry }
  else
    .ok entry.reverse

-- The node of an operator with its operands.
def combine (op : Operator) (lhs : Option Node) (rhs : Node) (place : Location) : Node :=
  { kind := op.kind, lhs, rhs := some rhs, location := place }

namespace State

-- Hands a finished node to the innermost frame. An operator takes it as its right operand and is
-- then finished too, so that the node of the operator goes on to the next frame.
def deliver (program : Sequence) (n : Node) : List Frame → Except Refusal State
  | [] =>
    .ok { program := program.push n }
  | .operator op lhs place :: stack =>
    if op.family.acceptsRight n.kind then
      deliver program (combine op lhs n place) stack
    else
      .error { fault := .rightOperand op.family, place := n.location }
  | .naming place :: stack =>
    if n.kind = .identifier then
      .ok { awaited := .parenthesis (.signature n.value) place, stack, program }
    else
      .error { fault := .notName n.kind, place := n.location }
  | .list opening place entries entry budget :: stack =>
    if budget.spend.isSpent then do
      let full ← finishEntry opening (n :: entry)
      let list := .list opening place (full :: entries) [] opening.budget
      return { awaited := .separator, stack := list :: stack, program }
    else
      .ok { stack := .list opening place entries (n :: entry) budget.spend :: stack, program }
  | .block header place content :: stack =>
    .ok { stack := .block header place (content.push n) :: stack, program }

def put (s : State) (n : Node) : Except Refusal State :=
  deliver s.program n s.stack

-- Takes back the newest node of the line, for an operator that has it as its left operand. There is
-- none right after an operator or the word `fn`.
def takeBack (s : State) : Option (Node × State) :=
  match s.stack with
  | []                                              => do
    let (n, program) ← s.program.pop?
    return (n, { s with program })
  | .list opening place entries (n :: entry) budget :: stack =>
    some (n, { s with stack := .list opening place entries entry budget :: stack })
  | .block header place content :: stack            => do
    let (n, content) ← content.pop?
    return (n, { s with stack := .block header place content :: stack })
  | _                                               => none

-- The left operand of an operator at the given place.
def takeLeft (s : State) (family : Family) (place : Location) : Except Refusal (Node × State) :=
  match s.takeBack with
  | none        => .error { fault := .leftOperand family, place }
  | some (n, s) =>
    if family.acceptsLeft n.kind then
      .ok (n, s)
    else
      .error { fault := .leftOperand family, place := n.location }

end State
end WispSyntax.Parser

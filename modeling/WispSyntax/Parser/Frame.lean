import WispSyntax.Budget
import WispSyntax.Fault
import WispSyntax.Node

/-!
What the parser keeps for each construct and each operator that has begun and is not complete.
-/

namespace WispSyntax.Parser

-- Nodes side by side, the newest first. Only those of the line being read can still become the left
-- operand of an operator; the others are settled.
structure Sequence where
  settled : List Node := []
  recent  : List Node := []
deriving DecidableEq

namespace Sequence

def push (s : Sequence) (n : Node) : Sequence :=
  { s with recent := n :: s.recent }

def pop? (s : Sequence) : Option (Node × Sequence) :=
  match s.recent with
  | []          => none
  | n :: recent => some (n, { s with recent })

def settle (s : Sequence) : Sequence :=
  { settled := s.recent ++ s.settled, recent := [] }

def toList (s : Sequence) : List Node :=
  (s.recent ++ s.settled).reverse

theorem toList_push (s : Sequence) (n : Node) : (s.push n).toList = s.toList ++ [n] := by
  simp [push, toList]

theorem toList_settle (s : Sequence) : s.settle.toList = s.toList := by
  simp [settle, toList]

end Sequence

-- What a pair of parentheses encloses.
inductive Opening
  | group
  | call (name : String)
  -- A group in the head of a function declaration holds parameters, wherever it stands there.
  | parameters
  | signature (name : String)
deriving DecidableEq

namespace Opening

-- Parameters are pairs of a name and a type.
def isPaired : Opening → Bool
  | parameters | signature _ => true
  | group | call _           => false

-- How many nodes an entry may take.
def budget (o : Opening) : Budget :=
  if o.isPaired then .limited 2 else .unbounded

end Opening

-- The head of a function declaration, and the place where the declaration begins.
structure Header where
  name   : String
  params : List (List Node)
  place  : Location
deriving DecidableEq

inductive Frame
  -- An operator that waits for its right operand
  | operator (op : Operator) (lhs : Option Node) (place : Location)
  -- A declaration that waits for the name of the function
  | naming (place : Location)
  -- Parentheses: the finished entries and the nodes of the current one, each newest first
  | list (opening : Opening) (place : Location) (entries : List (List Node)) (entry : List Node)
      (budget : Budget)
  -- Braces, as the body of a function if there is a header
  | block (header : Option Header) (place : Location) (content : Sequence)
deriving DecidableEq

namespace Frame

-- Parentheses or braces with nothing in them yet.
def openList (opening : Opening) (place : Location) : Frame :=
  list opening place [] [] opening.budget

def openBlock (header : Option Header) (place : Location) : Frame :=
  block header place {}

-- The constructs that a frame is inside of or is, innermost first. Parameters belong to the
-- declaration in whose head they stand.
def constructs : Frame → List Construct
  | operator _ _ _                 => []
  | naming _                       => [.declaration]
  | list .group _ _ _ _            => [.group]
  | list (.call _) _ _ _ _         => [.group]
  | list .parameters _ _ _ _       => []
  | list (.signature _) _ _ _ _    => [.declaration]
  | block none _ _                 => [.block]
  | block (some _) _ _             => [.block, .declaration]

-- What the frame leaves open at the end of the input, in the words of the message.
def unclosed : Frame → Option Construct
  | operator _ _ _ => none
  | naming _       => some .declaration
  | list _ _ _ _ _ => some .group
  | block _ _ _    => some .block

end Frame
end WispSyntax.Parser

import WispSyntax.Kind

/-!
The operators of the language: how they are spelt, what they build, and which nodes they take as
operands. There is no precedence, so the left operand of an operator is simply the node before it.
-/

namespace WispSyntax

inductive MathOperator
  | add | subtract | multiply | divide | modulo | power
  | bitAnd | bitOr | bitXor | shiftLeft | shiftRight
deriving DecidableEq, Repr

namespace MathOperator

def kind : MathOperator → Kind
  | add        => .add
  | subtract   => .subtract
  | multiply   => .multiply
  | divide     => .divide
  | modulo     => .modulo
  | power      => .power
  | bitAnd     => .bitAnd
  | bitOr      => .bitOr
  | bitXor     => .bitXor
  | shiftLeft  => .shiftLeft
  | shiftRight => .shiftRight

def symbol : MathOperator → String
  | add        => "+"
  | subtract   => "-"
  | multiply   => "*"
  | divide     => "/"
  | modulo     => "%"
  | power      => "^"
  | bitAnd     => ".&"
  | bitOr      => ".|"
  | bitXor     => ".^"
  | shiftLeft  => ".<"
  | shiftRight => ".>"

end MathOperator

-- Assignment and the comparisons except `!=`.
inductive Relation
  | assign | equal | less | lessEq | greater | greaterEq
deriving DecidableEq, Repr

namespace Relation

def kind : Relation → Kind
  | assign    => .assignment
  | equal     => .equal
  | less      => .less
  | lessEq    => .lessEq
  | greater   => .greater
  | greaterEq => .greaterEq

def symbol : Relation → String
  | assign    => "="
  | equal     => "=="
  | less      => "<"
  | lessEq    => "<="
  | greater   => ">"
  | greaterEq => ">="

end Relation

-- The operators that change the variable before them by one.
inductive Counter
  | increment | decrement
deriving DecidableEq, Repr

namespace Counter

def kind : Counter → Kind
  | increment => .increment
  | decrement => .decrement

def symbol : Counter → String
  | increment => "++"
  | decrement => "--"

def verb : Counter → String
  | increment => "increment"
  | decrement => "decrement"

end Counter

-- The operators that wait for a node on their right.
inductive Operator
  | math (op : MathOperator)
  | relation (op : Relation)
  | notEqual
  | not
  | cast
deriving DecidableEq, Repr

-- Operators of one family accept the same operands.
inductive Family
  | math
  | relation
  | inequality
  | negation
  | typing
deriving DecidableEq, Repr

namespace Family

-- A type query or a cast may be compared, but binds no operand of another operator.
def acceptsLeft : Family → Kind → Bool
  | math,       k => k.isValue || k.isArithmetic || k.isBitwise
  | relation,   k => k.isValue || k.isBoolean || k = .typeOf || k = .typeCast
  | inequality, k => k.isValue || k.isBoolean
  | negation,   _ => false
  | typing,     k => k = .identifier

-- An operator is given the first node after it, so that it never meets a type query or a cast here.
def acceptsRight : Family → Kind → Bool
  | math,       k => k.isValue
  | relation,   k => k.isValue || k.isBoolean || k = .typeOf || k = .typeCast
  | inequality, k => k.isValue || k.isBoolean
  | negation,   k => k.isBoolean
  | typing,     k => k = .identifier

-- What stands on the left, in words.
def leftWords : Family → String
  | math       => "number or string as LHS of operator"
  | relation   => "type of, type cast, boolean, identifier, number or string as LHS of equality"
  | inequality => "bool, identifier, number or string as LHS of equality"
  | negation   => "nothing as LHS of `not`"
  | typing     => "identifier as LHS of type cast or `typeOf`"

def rightWords : Family → String
  | math       => "number or string as RHS of operator"
  | relation   => "type of, type cast, boolean, identifier, number or string as RHS of equality"
  | inequality => "bool, identifier, number or string as RHS of equality"
  | negation   => "bool as RHS of `not`"
  | typing     => "identifier as RHS of type cast"

-- Any expression at all, for an operator with nothing after it.
def someWords : Family → String
  | math     => "expression after operator"
  | relation => "expression after equality"
  | _        => "expression"

end Family

namespace Operator

def family : Operator → Family
  | math _     => .math
  | relation _ => .relation
  | notEqual   => .inequality
  | not        => .negation
  | cast       => .typing

def kind : Operator → Kind
  | math op     => op.kind
  | relation op => op.kind
  | notEqual    => .notEqual
  | not         => .not
  | cast        => .typeCast

def symbol : Operator → String
  | math op     => op.symbol
  | relation op => op.symbol
  | notEqual    => "!="
  | not         => "!"
  | cast        => "::"

end Operator
end WispSyntax

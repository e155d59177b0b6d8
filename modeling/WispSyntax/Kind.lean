import WispSyntax.Category

/-!
The kinds of nodes in a syntax tree.
-/

namespace WispSyntax

-- Lists, list identifiers, constants, variables, the logical operators `and` and `or`, bitwise
-- negation, conditionals, returns and exits are kinds that no rule of the parser builds yet.
inductive Kind
  -- Arithmetic
  | add | subtract | divide | multiply | power | modulo
  -- Logic
  | and | or
  -- Bitwise
  | bitAnd | bitOr | bitXor | shiftLeft | shiftRight
  -- Comparison
  | equal | notEqual | greater | less | greaterEq | lessEq
  -- Declaration and assignment
  | variableDecl | constantDecl | typeCast | assignment
  -- One operand
  | not | increment | decrement | typeOf | bitNot
  -- Values
  | integer | float | binary | hexadecimal | string | list | identifier | listIdentifier
  -- Conditionals
  | ifStatement | elseStatement | whileStatement | forStatement
  -- Keywords
  | returnStatement | exit | exitCode | exitNow | truth | falsehood | nil
  -- Return arrows
  | returnOnly | returnNil | returnError | returnNilOrError
  -- Structure
  | root | function | block | group | call
deriving DecidableEq, Repr

namespace Kind

def isNumeric : Kind → Bool
  | integer | float | binary | hexadecimal => true
  | _ => false

def isBoolean : Kind → Bool
  | truth | falsehood => true
  | _ => false

def isArithmetic : Kind → Bool
  | add | subtract | divide | multiply | power | modulo => true
  | _ => false

def isBitwise : Kind → Bool
  | bitAnd | bitOr | bitXor | shiftLeft | shiftRight | bitNot => true
  | _ => false

def isComparison : Kind → Bool
  | equal | notEqual | greater | less | greaterEq | lessEq => true
  | _ => false

-- Literals other than the keywords, identifiers and calls.
def isValue : Kind → Bool
  | string | identifier | call => true
  | k => k.isNumeric

def name : Kind → String
  | add              => "Add"
  | subtract         => "Subtract"
  | divide           => "Divide"
  | multiply         => "Multiply"
  | power            => "Exponential"
  | modulo           => "Modulo"
  | and              => "And"
  | or               => "Or"
  | bitAnd           => "Bitwise And"
  | bitOr            => "Bitwise Or"
  | bitXor           => "Bitwise Xor"
  | shiftLeft        => "Left Shift"
  | shiftRight       => "Right Shift"
  | equal            => "Equal"
  | notEqual         => "Not Equal"
  | greater          => "Greater"
  | less             => "Lesser"
  | greaterEq        => "Greater or Equal"
  | lessEq           => "Lesser or Equal"
  | variableDecl     => "Variable Declaration"
  | constantDecl     => "Constant Declaration"
  | typeCast         => "Type Cast"
  | assignment       => "Variable Assignment"
  | not              => "Not"
  | increment        => "Increment"
  | decrement        => "Decrement"
  | typeOf           => "Type Of"
  | bitNot           => "Bitwise Not"
  | integer          => "Integer"
  | float            => "Float"
  | binary           => "Binary"
  | hexadecimal      => "Hexadecimal"
  | string           => "String"
  | list             => "List"
  | identifier       => "Identifier"
  | listIdentifier   => "List-type Identifier"
  | ifStatement      => "If Statement"
  | elseStatement    => "Else Statement"
  | whileStatement   => "While Statement"
  | forStatement     => "For Statement"
  | returnStatement  => "Return"
  | exit             => "Exit"
  | exitCode         => "Exit Code"
  | exitNow          => "Exit Now"
  | truth            => "True"
  | falsehood        => "False"
  | nil              => "Nil"
  | returnOnly       => "Return Only"
  | returnNil        => "Return Nil"
  | returnError      => "Return Error"
  | returnNilOrError => "Return Nil or Error"
  | root             => "Root"
  | function         => "Function Declaration"
  | block            => "Block"
  | group            => "Group"
  | call             => "Function Call"

def category : Kind → Category
  | add | subtract | divide | multiply | power | modulo | increment | decrement => .math
  | and | or | not => .logic
  | bitAnd | bitOr | bitXor | shiftLeft | shiftRight | bitNot => .bitwise
  | equal | notEqual | greater | less | greaterEq | lessEq => .equality
  | variableDecl | constantDecl | typeCast | function => .assignment
  | ifStatement | elseStatement | whileStatement | forStatement => .conditional
  | returnStatement | exit | exitCode | exitNow | truth | falsehood | nil => .keyword
  | returnOnly | returnNil | returnError | returnNilOrError => .control
  | assignment | typeOf | integer | float | binary | hexadecimal | string | list | identifier
  | listIdentifier | root | block | group | call => .other

end Kind
end WispSyntax

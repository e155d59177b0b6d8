import WispSyntax.Operator

/-!
What can be wrong with a program text, and the words for it.
-/

namespace WispSyntax

-- Classes of faults, each with an exit code of its own.
inductive FaultClass
  | sourceUnavailable
  | invalidDigit
  | invalidFloat
  | invalidSymbol
  | unterminatedString
  | invalidOperand
  | invalidBitwiseOperator
  | missingExpression
  | malformedDeclaration
  | unterminatedConstruct
deriving DecidableEq, Repr

def FaultClass.exitCode : FaultClass → Nat
  | sourceUnavailable      => 10
  | invalidDigit           => 20
  | invalidFloat           => 21
  | invalidSymbol          => 22
  | unterminatedString     => 23
  | invalidOperand         => 24
  | invalidBitwiseOperator => 25
  | missingExpression      => 26
  | malformedDeclaration   => 27
  | unterminatedConstruct  => 28

theorem FaultClass.exitCode_inj {c d : FaultClass} (h : c.exitCode = d.exitCode) : c = d := by
  revert h; cases c <;> cases d <;> decide

-- The literals that are marked by a letter after a zero.
inductive Radix
  | hexadecimal
  | binary
deriving DecidableEq, Repr

namespace Radix

def mark : Radix → Char
  | hexadecimal => 'x'
  | binary      => 'b'

def kind : Radix → Kind
  | hexadecimal => .hexadecimal
  | binary      => .binary

end Radix

-- What can be wrong with a number.
inductive NumberFault
  | digit (radix : Radix) (found : Char)
  | noDigits (radix : Radix)
  | float (found : Char)
deriving DecidableEq, Repr

-- Constructs that can be left open at the end of the input.
inductive Construct
  | block
  | group
  | declaration
deriving DecidableEq, Repr

inductive Fault
  -- Single tokens
  | number (fault : NumberFault)
  | strayCharacter (found : Char)
  | openString
  -- Operators and their operands
  | noOperator
  | noRelation
  | leftOperand (family : Family)
  | rightOperand (family : Family)
  | missingOperand (family : Family)
  | countedString (counter : Counter)
  | endsAfterDot
  | notBitwise (found : Char)
  | singleColon
  -- Declarations
  | nestedFunction
  | missingName
  | notName (found : Kind)
  | notParameter
  | unseparatedParameter
  -- Brackets
  | missingParenthesis
  | missingBrace
  | emptyEntry
  | openConstruct (construct : Construct)
deriving DecidableEq, Repr

namespace NumberFault

def faultClass : NumberFault → FaultClass
  | digit _ _  => .invalidDigit
  | noDigits _ => .invalidDigit
  | float _    => .invalidFloat

def message : NumberFault → String
  | digit .hexadecimal c =>
    s!"Invalid char found in hexadecimal, expected `0-9`, `a-f` or `A-F`: `{c}`"
  | digit .binary c      => s!"Invalid char found in binary, expected `0` or `1`: `{c}`"
  | noDigits radix       => s!"Expected digits after `0{radix.mark}`"
  | float c              => s!"Invalid char in float, expected `0-9`: `{c}`"

end NumberFault

def Construct.name : Construct → String
  | block       => "block"
  | group       => "group"
  | declaration => "function declaration"

namespace Fault

-- An operator that is announced by its first character is never missing.
def occurs : Fault → Bool
  | noOperator | noRelation => false
  | _                       => true

def faultClass : Fault → FaultClass
  | number fault                                              => fault.faultClass
  | strayCharacter _ | noOperator | noRelation                => .invalidSymbol
  | openString                                                => .unterminatedString
  | leftOperand _ | rightOperand _ | countedString _          => .invalidOperand
  | missingOperand _                                          => .missingExpression
  | endsAfterDot | notBitwise _                               => .invalidBitwiseOperator
  | singleColon | nestedFunction | missingName | notName _    => .malformedDeclaration
  | notParameter | unseparatedParameter | missingParenthesis
  | missingBrace | emptyEntry | openConstruct _               => .unterminatedConstruct

def message : Fault → String
  | number fault            => fault.message
  | strayCharacter c        => s!"Invalid symbol: `{c}`"
  | openString              => "Missing string terminator"
  | noOperator              => "Expected operator"
  | noRelation              => "Expected equality operator"
  | leftOperand family      => s!"Expected {family.leftWords}"
  | rightOperand family     => s!"Expected {family.rightWords}"
  | missingOperand family   => s!"Expected {family.someWords}"
  | countedString counter   => s!"Expected number as LHS of {counter.verb}"
  | endsAfterDot            => "Expected operator after bitwise initializer"
  | notBitwise c            => s!"Invalid operator: `.{c}`"
  | singleColon             => "Expected another `:`"
  | nestedFunction          => "Functions cannot be declared inside a function"
  | missingName             => "Expected function name"
  | notName kind            => s!"Expected function name, found {kind.name}"
  | notParameter            => "Expected name and type for function parameter"
  | unseparatedParameter    => "Expected `,` or `)` after function parameter"
  | missingParenthesis      => "Expected `(`"
  | missingBrace            => "Expected `\x7b`"
  | emptyEntry              => "Expected expression before `,`"
  | openConstruct construct => s!"Unexpected EOF in {construct.name}"

end Fault
end WispSyntax

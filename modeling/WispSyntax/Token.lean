import WispSyntax.Fault
import WispSyntax.Location

/-!
Tokens: what a line of a program consists of, blanks left out.
-/

namespace WispSyntax

-- The words that stand for a value.
inductive Constant
  | truth
  | falsehood
  | nil
deriving DecidableEq, Repr

namespace Constant

def word : Constant → String
  | truth     => "true"
  | falsehood => "false"
  | nil       => "nil"

def kind : Constant → Kind
  | truth     => .truth
  | falsehood => .falsehood
  | nil       => .nil

end Constant

inductive NumberForm
  | integer
  | float
  | marked (radix : Radix)
deriving DecidableEq, Repr

def NumberForm.kind : NumberForm → Kind
  | integer      => .integer
  | float        => .float
  | marked radix => radix.kind

inductive Token
  | function
  | constant (c : Constant)
  -- A name is called if it is a word that has a parenthesis right after it.
  | name (text : String) (called : Bool)
  | number (form : NumberForm) (text : String)
  | string (text : String)
  | operator (op : Operator)
  | counter (c : Counter)
  | openBrace
  | closeBrace
  | openParen
  | closeParen
  | comma
  -- Tokens that are a mistake wherever they stand
  | badNumber (fault : NumberFault)
  | openString
  | dot (next : Option Char)
  | colon
  | stray (c : Char)
deriving DecidableEq, Repr

-- A token in its place. The token covers the columns from `start` up to `stop`, which it does not
-- reach. A number that is at fault stops at the character that is.
structure Lexeme where
  token : Token
  start : Location
  stop  : Location
deriving DecidableEq, Repr

namespace Token

-- A comparison or an assignment ends a type query before it.
def isRelation : Token → Bool
  | operator (.relation _) => true
  | _                      => false

end Token
end WispSyntax

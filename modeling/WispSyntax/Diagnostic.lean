import WispSyntax.Fault
import WispSyntax.Location
import WispSyntax.Text.Column

/-!
Reasons to give up on a program, and the reports that are shown for them.
-/

namespace WispSyntax

-- A report in its parts. The line is the one being read, which need not be the one of the place.
structure Diagnostic where
  faultClass : FaultClass
  message    : String
  location   : Option Location := none
  line       : Option String := none
deriving DecidableEq, Repr

-- Why there is no tree.
inductive Failure
  | unopened (path reason : String)
  | unreadable (reason : String)
  | rejected (fault : Fault) (location : Location) (line : String)
deriving DecidableEq, Repr

def Failure.diagnostic : Failure → Diagnostic
  | unopened path reason         => { faultClass := .sourceUnavailable
                                      message := s!"Failed to open {path}: {reason}" }
  | unreadable reason            => { faultClass := .sourceUnavailable
                                      message := s!"Failed to read source: {reason}" }
  | rejected fault location line => { faultClass := fault.faultClass
                                      message := fault.message
                                      location, line }

namespace Diagnostic

inductive Paint
  | boldRed
  | bold
  | brightBlue
deriving DecidableEq, Repr

def Paint.code : Paint → List Char
  | boldRed    => "\x1b[1;31m".toList
  | bold       => "\x1b[1m".toList
  | brightBlue => "\x1b[94m".toList

-- A reset inside a painted text turns the paint off, so the paint is put on again after it.
def repaint (code : List Char) : List Char → List Char
  | '\x1b' :: '[' :: '0' :: 'm' :: rest => "\x1b[0m".toList ++ code ++ repaint code rest
  | c :: rest                           => c :: repaint code rest
  | []                                  => []

def paint (coloured : Bool) (p : Paint) (text : String) : String :=
  if coloured then
    String.ofList (p.code ++ repaint p.code text.toList ++ "\x1b[0m".toList)
  else
    text

-- The line of the program with its number, and a caret under the column.
def excerpt (coloured : Bool) (l : Location) (line : String) : List String :=
  let bar    := paint coloured .brightBlue "|"
  let number := paint coloured .brightBlue (alignedNumber 3 l.line)
  let space  := String.ofList (List.replicate (l.column - 1) ' ')
  let caret  := paint coloured .boldRed "^"
  [s!"   {bar}", s!"{number} {bar} {line}", s!"   {bar} {space}{caret}"]

def reportLines (coloured : Bool) (path : String) (d : Diagnostic) : List String :=
  let title := paint coloured .boldRed s!"error[{d.faultClass.exitCode}]"
  let arrow := paint coloured .brightBlue "-->"
  let head  := title ++ ": " ++ paint coloured .bold d.message
  match d.location, d.line with
  | none,   _         => [head, s!"  {arrow} {path}"]
  | some l, none      => [head, s!"  {arrow} {path}:{l.text}"]
  | some l, some line => [head, s!"  {arrow} {path}:{l.text}"] ++ excerpt coloured l line

def report (coloured : Bool) (path : String) (d : Diagnostic) : String :=
  String.join ((d.reportLines coloured path).map (· ++ "\n"))

end Diagnostic
end WispSyntax

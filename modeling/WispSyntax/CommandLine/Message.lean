import WispSyntax.Text.ControlSequence

/-!
What the command line says about itself: texts with parts that a terminal sets off.
-/

namespace WispSyntax.CommandLine

inductive Emphasis
  | error
  | heading
  | literal
  | invalid
  | valid
deriving DecidableEq, Repr

def Emphasis.code : Emphasis → String
  | error   => "\x1b[1m\x1b[31m"
  | heading => "\x1b[1m\x1b[4m"
  | literal => "\x1b[1m"
  | invalid => "\x1b[33m"
  | valid   => "\x1b[32m"

structure Phrase where
  text     : String
  emphasis : Option Emphasis := none
deriving DecidableEq, Repr

namespace Phrase

instance : Coe String Phrase where
  coe text := { text }

def error (text : String) : Phrase where
  text
  emphasis := some .error

def heading (text : String) : Phrase where
  text
  emphasis := some .heading

def literal (text : String) : Phrase where
  text
  emphasis := some .literal

def invalid (text : String) : Phrase where
  text
  emphasis := some .invalid

def valid (text : String) : Phrase where
  text
  emphasis := some .valid

-- The text between the code that begins its emphasis and the one that ends it.
def styled (p : Phrase) : String :=
  match p.emphasis with
  | none   => p.text
  | some e => e.code ++ p.text ++ "\x1b[0m"

end Phrase

abbrev Message := List Phrase

namespace Message

def join (parts : List Message) : Message :=
  parts.flatten

def styled (m : Message) : String :=
  String.join (m.map Phrase.styled)

-- Without colours, control sequences that come from outside are taken out as well.
def text (coloured : Bool) (m : Message) : String :=
  if coloured then m.styled else withoutControls m.styled

end Message
end WispSyntax.CommandLine

import WispSyntax.CommandLine.Switch

/-!
What a run is asked to do.
-/

namespace WispSyntax.CommandLine

def defaultFile : String :=
  "main.wp"

-- The flags in the order in which they were given, and the file if there is one.
structure Arguments where
  flags : List Flag := []
  file  : Option String := none
deriving DecidableEq, Repr

namespace Arguments

def has (a : Arguments) (f : Flag) : Bool :=
  f ∈ a.flags

def path (a : Arguments) : String :=
  a.file.getD defaultFile

end Arguments
end WispSyntax.CommandLine

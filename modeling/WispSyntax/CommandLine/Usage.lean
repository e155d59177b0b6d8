import WispSyntax.CommandLine.Arguments
import WispSyntax.CommandLine.Message

/-!
How the program is used: all ways at once, or those that are left with some arguments given.
-/

namespace WispSyntax.CommandLine

-- What stands behind the switches of a usage.
inductive UsageRest
  | options
  | optionalFile
  | requiredFile
  | alternatives
deriving DecidableEq, Repr

def UsageRest.text : UsageRest → String
  | options      => "[OPTIONS] [FILE]"
  | optionalFile => "[FILE]"
  | requiredFile => "<FILE>"
  | alternatives => "<" ++ "|".intercalate ("FILE" :: Flag.all.map Flag.name) ++ ">"

structure Usage where
  switches : List Switch := []
  rest     : UsageRest := .options
deriving DecidableEq, Repr

namespace Usage

-- The usage with the given arguments, which stands for all there is if nothing is given.
def ofGiven (given : Arguments) : Usage :=
  match given.flags, given.file with
  | [],    none   => {}
  | flags, none   => { switches := flags.map .flag, rest := .optionalFile }
  | flags, some _ => { switches := flags.map .flag, rest := .requiredFile }

-- The usage of a switch that was given a value. It names the switch alone, unless there are flags
-- before it: then any argument of a run will do. A file does not count until a flag follows it.
def ofValued (given : Arguments) (s : Switch) : Usage :=
  match given.flags, s with
  | [],     s       => { switches := [s], rest := .optionalFile }
  | _ :: _, .flag _ => { rest := .alternatives }
  | _ :: _, s       => { switches := [s], rest := .alternatives }

def message (u : Usage) : Message :=
  .join
    [ [.heading "Usage:", " ", .literal "wisp"],
      u.switches.flatMap fun s => [" ", .literal s.name],
      [" ", u.rest.text] ]

end Usage
end WispSyntax.CommandLine

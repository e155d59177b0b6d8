import WispSyntax.CommandLine.Usage

/-!
Why the command line reads no program, and what it says instead.
-/

namespace WispSyntax.CommandLine

inductive Refusal
  | help
  | version
  | repeated (flag : Flag)
  | conflict (flag other : Flag) (given : Arguments)
  | unexpected (argument : String)
  | unknownOption (argument : String) (given : Arguments)
  | unwantedValue (switch : Switch) (value : String) (given : Arguments)
deriving DecidableEq, Repr

namespace Refusal

-- A switch with its purpose, which starts in the same column for all of them.
def switchLine (s : Switch) : Message :=
  let letter : Message :=
    match s.letter with
    | some c => [.literal (String.ofList ['-', c]), ", "]
    | none   => ["    "]
  let gap := String.ofList (List.replicate (12 - s.name.length) ' ')
  .join [["  "], letter, [.literal s.name, gap, s.purpose, "\n"]]

def helpMessage : Message :=
  .join
    [ ["Parse a Wisp source file and print its syntax tree\n\n"],
      ({} : Usage).message,
      ["\n\n", .heading "Arguments:", "\n"],
      [s!"  [FILE]  Source file to parse [default: {defaultFile}]\n\n"],
      [.heading "Options:", "\n"],
      Switch.all.flatMap switchLine ]

def versionMessage : Message :=
  ["wisp 0.1.0\n"]

def misuse (what : Message) (usage : Usage) : Message :=
  .join
    [ [.error "error:", " "],
      what,
      ["\n\n"],
      usage.message,
      ["\n\nFor more information, try '", .literal Switch.help.name, "'.\n"] ]

-- How to give an argument that looks like an option.
def tip (argument : String) : Message :=
  [ "\n\n  ", .valid "tip:", " to pass '", .invalid argument, "' as a value, use '",
    .valid s!"-- {argument}", "'" ]

def unexpectedArgument (argument : String) : Message :=
  ["unexpected argument '", .invalid argument, "' found"]

def message : Refusal → Message
  | help                             => helpMessage
  | version                          => versionMessage
  | repeated flag                    =>
    misuse ["the argument '", .invalid flag.name, "' cannot be used multiple times"] {}
  | conflict flag other given        =>
    misuse
      ["the argument '", .invalid flag.name, "' cannot be used with '", .invalid other.name, "'"]
      (.ofGiven { given with flags := given.flags.filter (· ≠ other) })
  | unexpected argument              => misuse (unexpectedArgument argument) {}
  | unknownOption argument given     =>
    misuse (unexpectedArgument argument ++ tip argument) (.ofGiven given)
  | unwantedValue switch value given =>
    misuse
      [ "unexpected value '", .invalid value, "' for '", .literal switch.name,
        "' found; no more were expected" ]
      (.ofValued given switch)

-- Help and version are what was asked for; the rest is misuse.
def exitCode : Refusal → Nat
  | help | version => 0
  | _              => 2

end Refusal
end WispSyntax.CommandLine

/-!
The switches of the command line: the flags of a run, and the two that ask about the program.
-/

namespace WispSyntax.CommandLine

inductive Flag
  | tree
  | tui
  | verbose
  | noColor
deriving DecidableEq, Repr

def Flag.all : List Flag :=
  [.tree, .tui, .verbose, .noColor]

inductive Switch
  | flag (flag : Flag)
  | help
  | version
deriving DecidableEq, Repr

namespace Switch

def all : List Switch :=
  Flag.all.map flag ++ [help, version]

def name : Switch → String
  | flag .tree    => "--tree"
  | flag .tui     => "--tui"
  | flag .verbose => "--verbose"
  | flag .noColor => "--no-color"
  | help          => "--help"
  | version       => "--version"

def letter : Switch → Option Char
  | flag .verbose => some 'v'
  | help          => some 'h'
  | version       => some 'V'
  | _             => none

def purpose : Switch → String
  | flag .tree    => "Print the full indented tree instead of the summary"
  | flag .tui     => "Explore the tree in an interactive terminal viewer"
  | flag .verbose => "Log progress and a node histogram to stderr"
  | flag .noColor => "Disable colored diagnostics"
  | help          => "Print help"
  | version       => "Print version"

def ofName? (name : String) : Option Switch :=
  all.find? (·.name = name)

def ofLetter? (letter : Char) : Option Switch :=
  all.find? (·.letter = some letter)

theorem ofName?_name (s : Switch) : ofName? s.name = some s := by
  rcases s with (_ | _ | _ | _) | _ | _ <;> decide +kernel

end Switch

def Flag.name (f : Flag) : String :=
  (Switch.flag f).name

end WispSyntax.CommandLine

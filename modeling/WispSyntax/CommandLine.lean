import WispSyntax.CommandLine.Arguments.Reader
import WispSyntax.Node.Outline
import WispSyntax.Node.Walk
import WispSyntax.Program
import WispSyntax.Source.Reads
import WispSyntax.Viewer

/-!
What the command line writes and how it exits, for given arguments and files.
-/

namespace WispSyntax.CommandLine

-- What there is to see of a run. A viewer is opened after the rest is written.
structure Outcome where
  exitCode : Nat := 0
  out      : String := ""
  err      : String := ""
  viewer   : Option Viewer := none

-- The reads of a file, or the reason why it cannot be opened.
abbrev Files := String → Except String (List Read)

-- Where the names of categories stand in the log.
def nameColumn : Column where
  width := 12

-- Counts by category, one to a line.
def countLines (root : Node) : List String :=
  root.histogram.map fun (c, count) => s!"  {nameColumn.fit c.name} {count}"

def unlines (lines : List String) : String :=
  String.join (lines.map (· ++ "\n"))

-- What is logged about a program that has a tree.
def log (root : Node) : String :=
  s!"Parsed successfully. Found {root.children.length} top-level nodes.\n" ++
    unlines (countLines root)

def fail (a : Arguments) (coloured : Bool) (path : String) (f : Failure) : Outcome :=
  let d := f.diagnostic
  { exitCode := d.faultClass.exitCode, err := d.report (coloured && !a.has .noColor) path }

-- A run with well-formed arguments.
def runWith (coloured : Bool) (files : Files) (a : Arguments) : Outcome :=
  let path := a.path
  let verbose (text : String) := if a.has .verbose then text else ""
  match files path with
  | .error reason => fail a coloured path (.unopened path reason)
  | .ok reads     =>
    let start := verbose s!"Parsing {path}...\n"
    match (Feed.ofReads reads).withoutComments.parse.1 with
    | .error f  =>
      let o := fail a coloured path f
      { o with err := start ++ o.err }
    | .ok root =>
      let err := start ++ verbose (log root)
      if a.has .tui then
        let source := unlines ((Feed.ofReads reads).lines.map (·.text))
        { err, viewer := some { root, source, path } }
      else if a.has .tree then
        { err, out := root.outlineText }
      else
        { err, out := unlines root.summary }

-- The file that a run reads, if it comes to that.
def fileToRead (args : List String) : Option String :=
  match Arguments.read args with
  | .ok a    => some a.path
  | .error _ => none

-- A run with the arguments as they are given. `coloured` says whether colours are wanted.
def run (coloured : Bool) (files : Files) (args : List String) : Outcome :=
  match Arguments.read args with
  | .ok a    => runWith coloured files a
  | .error r =>
    let text := r.message.text coloured
    if r.exitCode = 0 then { out := text } else { exitCode := r.exitCode, err := text }

end WispSyntax.CommandLine

import WispSyntax.Parser.Step
import WispSyntax.Source.Feed
import WispSyntax.Token.Lexer

/-!
Whole programs: the tree of the lines of a feed.
-/

namespace WispSyntax

namespace Parser

-- All tokens of a line and its end.
def State.readLine (s : State) (l : SourceLine) : Except Refusal State := do
  let s ← l.lexemes.foldlM State.step s
  s.endLine l.stop

-- The tree of everything outside the frames.
def State.root (s : State) : Node :=
  { kind := .root, children := s.program.toList, location := { line := 1, column := 1 } }

-- Reads lines from a state on, `last` being the line before them. The result comes with what is
-- left to be pulled: after a fault that is what follows the line of the fault.
def readFrom (s : State) (last : SourceLine) (failure : Option String) :
    List SourceLine → Except Failure Node × Feed
  | []        =>
    match failure, s.unclosed with
    | some reason, _              => (.error (.unreadable reason), { lines := [] })
    | none,        some construct =>
      (.error (.rejected (.openConstruct construct) last.stop last.text), { lines := [] })
    | none,        none           => (.ok s.root, { lines := [] })
  | l :: rest =>
    match s.readLine l with
    | .error r => (.error (.rejected r.fault r.place l.text), { lines := rest, failure })
    | .ok s    => readFrom s l failure rest

end Parser

-- The tree of a feed, or the reason why there is none, and what is left of the feed.
def Feed.parse (f : Feed) : Except Failure Node × Feed :=
  Parser.readFrom {} { number := 0, text := "" } f.failure f.lines

-- The tree of a program text.
def parse (text : String) : Except Failure Node :=
  ((Feed.ofText text).withoutComments.parse).1

end WispSyntax

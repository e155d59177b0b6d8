import WispSyntax.Proofs.Reading
import WispSyntax.Proofs.Relocation

/-!
Line numbers are only handed on. A program whose lines have other numbers, and which is read after
other nodes, has the same outcome but for these numbers and nodes (`readFrom_renumber`).
-/

namespace WispSyntax

section
variable (g : Nat → Nat)

def Location.renumber (l : Location) : Location :=
  { l with line := g l.line }

def SourceLine.renumber (l : SourceLine) : SourceLine :=
  { l with number := g l.number }

def Feed.renumber (f : Feed) : Feed :=
  { f with lines := f.lines.map (SourceLine.renumber g) }

def Failure.renumber : Failure → Failure
  | rejected fault location line => rejected fault (location.renumber g) line
  | failure                      => failure

theorem Lexeme.ofChars_renumber (place : Location) (skip : Nat) (chars : List Char) :
    ofChars (place.renumber g) skip chars =
      (ofChars place skip chars).map (relocate (Location.renumber g)) := by
  fun_induction ofChars place skip chars
  case case1 => rw [ofChars, List.map_nil]
  case case2 hi => rw [ofChars, ← hi]; rfl
  case case3 blank hi => rw [ofChars, if_pos blank, ← hi]; rfl
  case case4 blank token more read hi =>
    rw [ofChars, if_neg blank]
    simp only [read, List.map_cons, ← hi]
    rfl

theorem SourceLine.lexemes_renumber (l : SourceLine) :
    (l.renumber g).lexemes = l.lexemes.map (Lexeme.relocate (Location.renumber g)) :=
  Lexeme.ofChars_renumber g l.start 0 l.text.toList

theorem SourceLine.enumerate_renumber (first offset : Nat) (texts : List String) :
    enumerate (first + offset) texts = (enumerate first texts).map (renumber (· + offset)) := by
  induction texts generalizing first
  case nil => rfl
  case cons text texts hi =>
    have := hi (first + 1)
    rw [Nat.add_right_comm] at this
    simp_all [enumerate, renumber]

end

namespace Parser
variable {g : Nat → Nat} {older : List Node}

-- The outcome of a program after other nodes, the newest of them first.
def outcomeAfter (g : Nat → Nat) (older : List Node) : Except Failure Node → Except Failure Node
  | .ok root       =>
    .ok { root with children := older.reverse ++
                      root.children.map (Node.relocate (Location.renumber g)) }
  | .error failure => .error (failure.renumber g)

namespace State

theorem foldlM_relocate {f : Location → Location} (s : State) (lexemes : List Lexeme) :
    (lexemes.map (Lexeme.relocate f)).foldlM step (s.relocate f older) =
      relocated f (relocate f older) (lexemes.foldlM step s) := by
  induction lexemes generalizing s
  case nil => rfl
  case cons l lexemes hi =>
    rw [List.map_cons, List.foldlM_cons, List.foldlM_cons, step_relocate]
    exact relocated_bind _ fun t => hi t

theorem readLine_renumber (s : State) (l : SourceLine) :
    (s.relocate (Location.renumber g) older).readLine (l.renumber g) =
      relocated (Location.renumber g) (relocate (Location.renumber g) older) (s.readLine l) := by
  rw [readLine, readLine, SourceLine.lexemes_renumber, foldlM_relocate]
  exact relocated_bind _ fun t => endLine_relocate t l.stop

theorem root_relocate {f : Location → Location} (s : State) :
    (s.relocate f older).root =
      { s.root with children := older.reverse ++ s.root.children.map (Node.relocate f) } := by
  simp [root, relocate, Sequence.toList_after, Sequence.toList_relocate]

end State

theorem readFrom_renumber (s : State) (last : SourceLine) (failure : Option String)
    (lines : List SourceLine) :
    readFrom (s.relocate (Location.renumber g) older) (last.renumber g) failure
        (lines.map (SourceLine.renumber g)) =
      (outcomeAfter g older (readFrom s last failure lines).1,
        (readFrom s last failure lines).2.renumber g) := by
  induction lines generalizing s last
  case nil =>
    simp only [List.map_nil, readFrom, State.unclosed_relocate, State.root_relocate]
    cases failure <;> cases s.unclosed <;> rfl
  case cons l lines hi =>
    simp only [List.map_cons, readFrom, State.readLine_renumber]
    cases s.readLine l
    case error => rfl
    case ok t  => exact hi t l

end Parser
end WispSyntax

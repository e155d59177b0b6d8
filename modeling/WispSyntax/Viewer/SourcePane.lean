import WispSyntax.Screen.Pane
import WispSyntax.Text.Column
import WispSyntax.Text.Lines
import WispSyntax.Viewer.Highlight

/-!
The pane that shows the program text beside its tree.
-/

namespace WispSyntax

-- The first line that is shown, and the row at which the current line is kept, once there is one.
structure SourceScroll where
  offset : Nat := 0
  target : Option Nat := none
deriving DecidableEq, Repr

namespace SourceScroll

-- The row of the current line: the middle one at first.
def row (s : SourceScroll) (room : Nat) : Nat :=
  min (s.target.getD (room / 2)) (room - 1)

-- Brings the current line to its row, as far as the text reaches above and below it. Line 0, or a
-- line that the text does not have, moves nothing.
def follow (s : SourceScroll) (room current total : Nat) : SourceScroll :=
  let row := s.row room
  { target := some row
    offset :=
      if 0 < current && current ≤ total then
        min (current - 1 - row) (total - room)
      else
        s.offset }

-- Moves the text down by a row.
def lower (s : SourceScroll) : SourceScroll :=
  { s with target := s.target.map (· + 1) }

-- Moves the text up by a row.
def raise (s : SourceScroll) : SourceScroll :=
  { s with target := s.target.map (· - 1) }

end SourceScroll

namespace SourcePane

def lines (source : String) : List String :=
  (splitLines source.toList).map String.ofList

-- A line with its number. The current one has a background, which its number does without.
def lineSpans (number : Nat) (current : Bool) (line : String) : List Span :=
  let style : Style :=
    if current then { fg := some Theme.secondary, bold := true } else { fg := some Theme.comment }
  let content := Highlight.spans line
  { text := alignedNumber 4 number ++ " ", style } ::
    if current then
      content.map fun s => { s with style := s.style.onto Theme.currentLine }
    else
      content

-- The lines from the first shown one on.
def pane (lines : List String) (current first room : Nat) (focused : Bool) : Pane where
  title  := " Source Code "
  border := Theme.border focused
  lines  := ((lines.zipIdx.drop first).take room).map fun (line, i) =>
    lineSpans (i + 1) (i + 1 = current) line

end SourcePane
end WispSyntax

import WispSyntax.Node.Outline
import WispSyntax.Screen.Pane
import WispSyntax.Viewer.Row
import WispSyntax.Viewer.Theme

/-!
The pane that shows the rows of a tree.
-/

namespace WispSyntax

namespace Row

-- Whether the slots of a node are shown, or that it has none.
def marker (r : Row) (folds : Folds) : String :=
  match r.hasChildren, r.isFolded folds with
  | false, _     => "  "
  | true,  true  => "▸ "
  | true,  false => "▾ "

def spans (r : Row) (folds : Folds) (selected : Bool) : List Span :=
  let comment : Style := { fg := some Theme.comment }
  let kind    : Style := { fg := some (Theme.ofCategory r.node.kind.category), bold := selected }
  let plain : List Span := [
    { text := Node.indent r.depth },
    { text := r.marker folds, style := comment },
    { text := s!"{r.label}: ", style := comment },
    { text := r.node.describe, style := kind },
    { text := s!"  {r.node.location.text}", style := comment } ]
  if selected then
    plain.map fun s => { s with style := s.style.onto Theme.selection }
  else
    plain

end Row

namespace TreePane

-- The first row that is shown, moved no further than it takes to have the selected row in view.
def follow (room selected scroll : Nat) : Nat :=
  if selected < scroll then selected
  else if scroll + room ≤ selected then selected + 1 - room
  else scroll

theorem follow_le {room selected scroll : Nat} (h : 0 < room) :
    follow room selected scroll ≤ selected := by
  unfold follow; split <;> try split
  all_goals omega

theorem lt_follow_add (room selected scroll : Nat) (h : 0 < room) :
    selected < follow room selected scroll + room := by
  unfold follow; split <;> try split
  all_goals omega

theorem follow_follow {room selected scroll : Nat} (h : 0 < room) :
    follow room selected (follow room selected scroll) = follow room selected scroll := by
  have : follow room selected scroll ≤ selected := follow_le h
  have := lt_follow_add room selected scroll h
  rw [follow, if_neg (by omega), if_neg (by omega)]

-- The rows from the first shown one on.
def pane (rows : List Row) (folds : Folds) (selected first room : Nat) (focused : Bool) : Pane where
  title  := " Syntax Tree "
  border := Theme.border focused
  lines  := ((rows.zipIdx.drop first).take room).map fun (r, i) => r.spans folds (i = selected)

end TreePane
end WispSyntax

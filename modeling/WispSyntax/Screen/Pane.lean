import WispSyntax.Screen.Grid

/-!
Panes: text in a border with a title.
-/

namespace WispSyntax

structure Pane where
  title  : String
  border : Style
  lines  : List (List Span)
deriving DecidableEq, Repr

namespace Pane

-- How many lines a pane of a height shows. The smallest panes have no room for a line, but are
-- scrolled as if they had one.
def room (height : Nat) : Nat :=
  max (height - 2) 1

theorem room_pos (height : Nat) : 0 < room height := by
  simp only [room]
  omega

-- Text between two corners or walls. A row of a single column has only the left one.
def enclose (border : Style) (left right : Char) (width : Nat) (inside : Nat → List Cell) :
    List Cell :=
  match width with
  | 0         => []
  | 1         => [{ char := left, style := border }]
  | width + 2 =>
    { char := left, style := border } :: inside width ++ [{ char := right, style := border }]

-- A horizontal line with a title at its left end.
def edge (border : Style) (title : String) (width : Nat) : List Cell :=
  let shown := title.toList.take width ++ List.replicate (width - title.length) '─'
  shown.map ({ char := ·, style := border })

def topRow (p : Pane) (width : Nat) : List Cell :=
  enclose p.border '┌' '┐' width (edge p.border p.title)

def bottomRow (p : Pane) (width : Nat) : List Cell :=
  enclose p.border '└' '┘' width (edge p.border "")

def lineRow (p : Pane) (width : Nat) (line : List Span) : List Cell :=
  enclose p.border '│' '│' width (Screen.writeLeft · {} line)

-- The lines that have room, and empty ones below them.
def body (p : Pane) (width height : Nat) : Screen :=
  let shown := p.lines.take height
  (shown ++ List.replicate (height - shown.length) []).map (p.lineRow width)

def draw (p : Pane) (width height : Nat) : Screen :=
  match height with
  | 0          => []
  | 1          => [p.topRow width]
  | height + 2 => p.topRow width :: p.body width height ++ [p.bottomRow width]

theorem body_length (p : Pane) (width height : Nat) : (p.body width height).length = height := by
  simp only [body, List.length_map, List.length_append, List.length_take, List.length_replicate]
  omega

theorem draw_length (p : Pane) (width height : Nat) : (p.draw width height).length = height := by
  match height with
  | 0          => rfl
  | 1          => rfl
  | height + 2 => simp [draw, body_length]

end Pane
end WispSyntax

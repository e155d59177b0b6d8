import WispSyntax.Viewer.SourcePane
import WispSyntax.Viewer.StatusBar
import WispSyntax.Viewer.TreePane

/-!
The viewer: a tree and its source side by side, moved through by keys.
-/

namespace WispSyntax

inductive Focus
  | tree
  | source
deriving DecidableEq, Repr

def Focus.next : Focus → Focus
  | tree   => source
  | source => tree

inductive Key
  | up
  | down
  | left
  | right
  | home
  | bottom
  | enter
  | tab
  | escape
  | char (c : Char)
  | other
deriving DecidableEq, Repr

structure Viewer where
  root     : Node
  source   : String
  path     : String
  selected : Nat := 0
  folds    : Folds := []
  focus    : Focus := .tree
  -- The first row of the tree that is shown
  scroll   : Nat := 0
  listing  : SourceScroll := {}
  quit     : Bool := false
  status   : String := "Ready!"

namespace Viewer

def rows (v : Viewer) : List Row :=
  v.root.rows v.folds

def selectedRow (v : Viewer) : Option Row :=
  v.rows[v.selected]?

-- Selects a row, or the last one if there are not as many, and says what it shows.
def select (v : Viewer) (i : Nat) : Viewer :=
  let v := { v with selected := min i (v.rows.length - 1) }
  match v.selectedRow with
  | none   => v
  | some r => { v with status := s!"{r.node.kind.name} at {r.node.location.text}" }

def fold (v : Viewer) (p : Path) : Viewer :=
  { v with folds := v.folds.insert p, status := "Collapsed" }

def unfold (v : Viewer) (p : Path) : Viewer :=
  { v with folds := v.folds.erase p, status := "Expanded" }

-- Opens the selected node, or goes to its first slot if it is open.
def descend (v : Viewer) : Viewer :=
  match v.selectedRow with
  | none   => v
  | some r =>
    match r.hasChildren, r.isFolded v.folds with
    | false, _     => v
    | true,  true  => v.unfold r.path
    | true,  false => v.select (v.selected + 1)

-- Selects the row of the node above the one at a path, if it is not the root.
def selectParent (v : Viewer) (p : Path) : Viewer :=
  if p.isEmpty then
    v
  else
    match v.rows.findIdx? (·.path = p.dropLast) with
    | none   => v
    | some i => v.select i

-- Folds the selected node, or goes to the node above it if there is nothing to fold.
def ascend (v : Viewer) : Viewer :=
  match v.selectedRow with
  | none   => v
  | some r =>
    match r.hasChildren, r.isFolded v.folds with
    | true, false => v.fold r.path
    | _,    _     => v.selectParent r.path

-- Folds or opens the selected node.
def toggle (v : Viewer) : Viewer :=
  match v.selectedRow with
  | none   => v
  | some r =>
    match r.hasChildren, r.isFolded v.folds with
    | false, _     => v
    | true,  true  => v.unfold r.path
    | true,  false => v.fold r.path

-- The arrows up and down move the selection, or the listing if that has the focus. The listing
-- moves only after it has been drawn once.
def press (v : Viewer) : Key → Viewer
  | .char c => if c = 'q' || c = 'Q' then { v with quit := true } else v
  | .escape => { v with quit := true }
  | .tab    => { v with focus := v.focus.next }
  | .up     =>
    match v.focus with
    | .tree   => v.select (v.selected - 1)
    | .source => { v with listing := v.listing.lower }
  | .down   =>
    match v.focus with
    | .tree   => v.select (v.selected + 1)
    | .source => { v with listing := v.listing.raise }
  | .home   => v.select 0
  | .bottom => v.select (v.rows.length - 1)
  | .right  => v.descend
  | .left   => v.ascend
  | .enter  => v.toggle
  | .other  => v

-- The line of the selected node.
def currentLine (v : Viewer) : Nat :=
  (v.selectedRow.map (·.node.location.line)).getD 0

def statusBar (v : Viewer) : StatusBar where
  path     := v.path
  message  := v.status
  selected := v.selected
  total    := v.rows.length

-- Scrolls both panes to the selection, for a screen of some height.
def scrollTo (v : Viewer) (height : Nat) : Viewer :=
  let room := Pane.room (height - 1)
  { v with
    scroll  := TreePane.follow room v.selected v.scroll
    listing := v.listing.follow room v.currentLine (SourcePane.lines v.source).length }

-- The screen as it stands, without scrolling: the panes, and the status bar in the last row.
def screen (v : Viewer) (width height : Nat) : Screen :=
  let (left, right) := Screen.halves width
  let room := Pane.room (height - 1)
  let tree := TreePane.pane v.rows v.folds v.selected v.scroll room (v.focus = .tree)
  let source := SourcePane.pane (SourcePane.lines v.source) v.currentLine v.listing.offset room
    (v.focus = .source)
  Screen.beside (tree.draw left (height - 1)) (source.draw right (height - 1)) ++
    v.statusBar.draw width (min height 1)

-- Scrolls and draws.
def draw (v : Viewer) (width height : Nat) : Viewer × Screen :=
  let v := v.scrollTo height
  (v, v.screen width height)

end Viewer
end WispSyntax

import WispSyntax.Node.Slots
import WispSyntax.Viewer.Fold

/-!
A tree as rows, one for each node that no fold hides.
-/

namespace WispSyntax

structure Row where
  path : Path
  slot : Option Slot
  node : Node

namespace Row

-- The root stands in no slot.
def label (r : Row) : String :=
  match r.slot with
  | none      => "root"
  | some slot => slot.label

def depth (r : Row) : Nat :=
  r.path.length

def hasChildren (r : Row) : Bool :=
  !r.node.slots.isEmpty

def isFolded (r : Row) (folds : Folds) : Bool :=
  folds.any (· = r.path)

end Row

namespace Node

-- The row of a node and, unless it is folded, those of its slots.
def rowsFrom (folds : Folds) (path : Path) (slot : Option Slot) (n : Node) : List Row :=
  { path, slot, node := n } ::
    if path ∈ folds then
      []
    else
      n.slots.attach.zipIdx.flatMap fun (s, i) =>
        rowsFrom folds (path ++ [i]) (some s.1.1) s.1.2
termination_by n
decreasing_by exact sizeOf_lt_of_mem_slots s.2

theorem rowsFrom_eq (folds : Folds) (path : Path) (slot : Option Slot) (n : Node) :
    n.rowsFrom folds path slot =
      { path, slot, node := n } ::
        if path ∈ folds then
          []
        else
          n.slots.zipIdx.flatMap fun (s, i) => s.2.rowsFrom folds (path ++ [i]) (some s.1) := by
  rw [rowsFrom]
  congr 2
  conv => rhs; rw [← List.attach_map_subtype_val n.slots, List.zipIdx_map]
  simp [List.flatMap_map]

def rows (folds : Folds) (root : Node) : List Row :=
  root.rowsFrom folds [] none

theorem rows_ne_nil (folds : Folds) (root : Node) : root.rows folds ≠ [] := by
  rw [rows, rowsFrom_eq]
  exact List.cons_ne_nil _ _

end Node
end WispSyntax

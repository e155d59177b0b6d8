import WispSyntax.Node.Slots

/-!
Visiting all nodes of a tree, and counting them by category.
-/

namespace WispSyntax.Node

-- Each node before the nodes below it, with its depth.
def walkFrom (depth : Nat) (n : Node) : List (Nat × Node) :=
  (depth, n) :: n.slots.attach.flatMap fun s => walkFrom (depth + 1) s.1.2
termination_by n
decreasing_by exact sizeOf_lt_of_mem_slots s.2

theorem walkFrom_eq (depth : Nat) (n : Node) :
    n.walkFrom depth = (depth, n) :: n.slots.flatMap fun s => s.2.walkFrom (depth + 1) := by
  rw [walkFrom, List.flatMap_subtype (g := fun s => s.2.walkFrom (depth + 1)) (fun _ _ => rfl),
    List.unattach_attach]

def walk (n : Node) : List (Nat × Node) :=
  n.walkFrom 0

-- The nodes below a node, at any depth.
def descendants (n : Node) : List Node :=
  n.walk.tail.map (·.2)

-- How many of the nodes below a node belong to a category.
def count (n : Node) (c : Category) : Nat :=
  n.descendants.countP (·.kind.category = c)

-- The counts of the categories that occur below a node.
def histogram (n : Node) : List (Category × Nat) :=
  Category.all.filterMap fun c => if n.count c = 0 then none else some (c, n.count c)

end WispSyntax.Node

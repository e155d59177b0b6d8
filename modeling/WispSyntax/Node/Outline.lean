import WispSyntax.Node.Slots

/-!
Trees as text: a line for each node directly below the root, or an indented line for each node.
-/

namespace WispSyntax.Node

-- A node in a few words.
def describe (n : Node) : String :=
  if n.value.isEmpty then n.kind.name else s!"{n.kind.name} `{n.value}`"

-- A line for each child. It shows no operands and no parameters, so it does not tell all trees
-- apart.
def summary (n : Node) : List String :=
  n.children.map fun child => s!"Value: {child.value}, Kind: {child.kind.name}"

-- Two blanks for each level.
def indent (depth : Nat) : String :=
  String.ofList (List.replicate (2 * depth) ' ')

-- The lines below a node, each with the label of its slot.
def outlineBelow (depth : Nat) (n : Node) : List String :=
  n.slots.attach.flatMap fun s =>
    (indent depth ++ s!"{s.1.1.label}: {s.1.2.describe} @ {s.1.2.location.text}") ::
      outlineBelow (depth + 1) s.1.2
termination_by n
decreasing_by exact sizeOf_lt_of_mem_slots s.2

theorem outlineBelow_eq (depth : Nat) (n : Node) :
    n.outlineBelow depth = n.slots.flatMap fun s =>
      (indent depth ++ s!"{s.1.label}: {s.2.describe} @ {s.2.location.text}") ::
        s.2.outlineBelow (depth + 1) := by
  rw [outlineBelow, List.flatMap_subtype (g := fun s =>
      (indent depth ++ s!"{s.1.label}: {s.2.describe} @ {s.2.location.text}") ::
        s.2.outlineBelow (depth + 1)) (fun _ _ => rfl),
    List.unattach_attach]

def outline (n : Node) : List String :=
  s!"{n.describe} @ {n.location.text}" :: n.outlineBelow 1

-- The outline as a text, each line ended by a line feed.
def outlineText (n : Node) : String :=
  String.join (n.outline.map (· ++ "\n"))

end WispSyntax.Node

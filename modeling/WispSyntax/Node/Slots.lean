import WispSyntax.Node

/-!
The nodes directly below a node, each in its slot. What is in a slot is smaller than the node, so
functions recurse along the slots, and `slots_induction` is induction along them.
-/

namespace WispSyntax

-- Where a node stands below another one. Positions count from zero.
inductive Slot
  | lhs
  | rhs
  | alt
  | param (entry position : Nat)
  | child (position : Nat)
deriving DecidableEq, Repr

namespace Slot

def label : Slot → String
  | lhs       => "lhs"
  | rhs       => "rhs"
  | alt       => "alt"
  | param i j => s!"param {i}.{j}"
  | child i   => s!"child {i}"

end Slot

namespace Node

def paramSlots (params : List (List Node)) : List (Slot × Node) :=
  params.zipIdx.flatMap fun (entry, i) => entry.zipIdx.map fun (n, j) => (.param i j, n)

def childSlots (children : List Node) : List (Slot × Node) :=
  children.zipIdx.map fun (n, i) => (.child i, n)

-- All slots of a node in the order in which they are shown.
def slots (n : Node) : List (Slot × Node) :=
  n.lhs.toList.map (.lhs, ·) ++ n.rhs.toList.map (.rhs, ·) ++ n.alt.toList.map (.alt, ·) ++
    paramSlots n.params ++ childSlots n.children

theorem mem_of_mem_paramSlots {params : List (List Node)} {s : Slot × Node}
    (h : s ∈ paramSlots params) : ∃ entry ∈ params, s.2 ∈ entry := by
  simp only [paramSlots, List.mem_flatMap, List.mem_map] at h
  obtain ⟨⟨entry, i⟩, he, ⟨n, j⟩, hn, rfl⟩ := h
  exact ⟨entry, List.fst_mem_of_mem_zipIdx he, List.fst_mem_of_mem_zipIdx hn⟩

theorem mem_of_mem_childSlots {children : List Node} {s : Slot × Node}
    (h : s ∈ childSlots children) : s.2 ∈ children := by
  simp only [childSlots, List.mem_map] at h
  obtain ⟨⟨n, i⟩, hn, rfl⟩ := h
  exact List.fst_mem_of_mem_zipIdx hn

theorem sizeOf_lt_of_mem_slots {n : Node} {s : Slot × Node} (h : s ∈ n.slots) :
    sizeOf s.2 < sizeOf n := by
  obtain ⟨kind, value, lhs, rhs, alt, params, children, location⟩ := n
  simp only [slots, List.mem_append] at h
  rcases h with (((h | h) | h) | h) | h
  · cases lhs <;> simp_all; omega
  · cases rhs <;> simp_all; omega
  · cases alt <;> simp_all; omega
  · obtain ⟨entry, he, hs⟩ := mem_of_mem_paramSlots h
    have := List.sizeOf_lt_of_mem he
    have := List.sizeOf_lt_of_mem hs
    simp; omega
  · have := List.sizeOf_lt_of_mem (mem_of_mem_childSlots h)
    simp; omega

-- What holds of a node whenever it holds in all its slots holds of every node.
theorem slots_induction {motive : Node → Prop}
    (step : ∀ n : Node, (∀ s ∈ n.slots, motive s.2) → motive n) (n : Node) : motive n :=
  step n fun s _ => slots_induction step s.2
termination_by n
decreasing_by exact sizeOf_lt_of_mem_slots ‹_›

end Node
end WispSyntax

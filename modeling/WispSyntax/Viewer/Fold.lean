/-!
The nodes whose slots are hidden, known by their paths.
-/

namespace WispSyntax

-- The positions of the slots that lead from the root to a node.
abbrev Path := List Nat

-- Paths in lexicographic order, none of them twice.
abbrev Folds := List Path

namespace Folds

def insert (p : Path) : Folds → Folds
  | []        => [p]
  | q :: rest => if p = q then q :: rest else if p < q then p :: q :: rest else q :: insert p rest

theorem mem_insert {p q : Path} {f : Folds} : q ∈ f.insert p ↔ q = p ∨ q ∈ f := by
  induction f with
  | nil => simp [insert]
  | cons r f ih =>
    simp only [insert]
    split
    · simp_all
    · split
      · simp
      · simp only [List.mem_cons, ih]
        exact or_left_comm

end Folds
end WispSyntax

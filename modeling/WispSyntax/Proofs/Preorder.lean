import Mathlib.Algebra.BigOperators.Group.List.Basic
import Mathlib.Algebra.Ring.Nat
import WispSyntax.Proofs.Folding
import WispSyntax.Proofs.Outlines

/-!
The ways to go through a tree. Rows, visits and outlines come from recursions of their own, and all
of them meet the same nodes in the same order (`Row.map_subtree`), so that the lines of an outline
and the counts by category can be read off the rows (`traversals_agree`).
-/

namespace WispSyntax

namespace Row

-- The rows right below a row that is not folded.
def below (r : Row) : List Row :=
  r.node.slots.zipIdx.map fun (s, i) => ⟨r.path ++ [i], some s.1, s.2⟩

-- A row with all rows below it.
def subtree (folds : Folds) (r : Row) : List Row :=
  r.node.rowsFrom folds r.path r.slot

-- The line of a row in an outline. The first one, which is that of the root, has no label.
def outlineLine (r : Row) : String :=
  Node.indent r.depth ++ (if r.depth = 0 then "" else s!"{r.label}: ") ++
    s!"{r.node.describe} @ {r.node.location.text}"

theorem subtree_eq (folds : Folds) (r : Row) :
    r.subtree folds = r :: if r.path ∈ folds then [] else r.below.flatMap (subtree folds) := by
  rw [subtree, Node.rowsFrom_eq, below, List.flatMap_map]
  rfl

-- What holds of a row whenever it holds of the rows right below it holds of every row.
theorem below_induction {motive : Row → Prop}
    (step : ∀ r : Row, (∀ r' ∈ r.below, motive r') → motive r) (r : Row) : motive r := by
  obtain ⟨path, slot, n⟩ := r
  induction n using Node.slots_induction generalizing path slot
  case step n hi =>
    refine step _ fun r' hr => ?_
    obtain ⟨⟨s, i⟩, hs, rfl⟩ := List.mem_map.mp hr
    exact hi s (List.fst_mem_of_mem_zipIdx hs) _ _

section
variable {α : Type} {r : Row}

theorem flatMap_below {f : Slot × Node → List α} {g : Row → List α}
    (same : ∀ i s, g ⟨r.path ++ [i], some s.1, s.2⟩ = f s) :
    r.below.flatMap g = r.node.slots.flatMap f := by
  conv => rhs; rw [← List.zipIdx_map_fst 0 r.node.slots]
  rw [below, List.flatMap_map, List.flatMap_map]
  exact List.flatMap_congr fun (s, i) _ => same i s

-- What lists something for a row and then goes on to the rows right below it lists it for all rows
-- of the subtree.
theorem map_subtree {f : Row → α} {g : Row → List α}
    (step : ∀ r, g r = f r :: r.below.flatMap g) : (r.subtree []).map f = g r := by
  induction r using below_induction
  case step r hi =>
    rw [subtree_eq, if_neg List.not_mem_nil, step, List.map_cons, List.map_flatMap]
    congr 1
    exact List.flatMap_congr hi

theorem map_visit_subtree :
    (r.subtree []).map (fun r => (r.depth, r.node)) = r.node.walkFrom r.depth := by
  refine map_subtree (g := fun r => r.node.walkFrom r.depth) fun r => ?_
  rw [Node.walkFrom_eq, flatMap_below fun i s => ?_]
  rw [depth, List.length_append]
  rfl

theorem toList_outlineLine (r : Row) :
    r.outlineLine.toList = List.replicate (2 * r.depth) ' ' ++
      ((if r.depth = 0 then [] else r.label.toList ++ [':', ' ']) ++ r.node.caption) := by
  have label : s!"{r.label}: " = r.label ++ ": " := rfl
  rw [outlineLine, label, String.toList_append, String.toList_append, Node.toList_firstLine]
  split <;> simp [Node.indent]

theorem outlineLine_root (n : Node) :
    outlineLine ⟨[], none, n⟩ = s!"{n.describe} @ {n.location.text}" := by
  rw [← String.toList_inj, toList_outlineLine, Node.toList_firstLine]
  rfl

-- Below the root a line has the label of its slot.
theorem outlineLine_below (path : Path) (i : Nat) (s : Slot × Node) :
    outlineLine ⟨path ++ [i], some s.1, s.2⟩ = Node.slotLine (path.length + 1) s := by
  have depth_eq : depth ⟨path ++ [i], some s.1, s.2⟩ = path.length + 1 := by
    rw [depth, List.length_append, List.length_singleton]
  rw [← String.toList_inj, toList_outlineLine, Node.toList_slotLine, depth_eq,
    if_neg (Nat.succ_ne_zero _), List.append_assoc]
  rfl

theorem map_outlineLine_subtree :
    (r.subtree []).map outlineLine = r.outlineLine :: r.node.outlineBelow (r.depth + 1) := by
  refine map_subtree (g := fun r => r.outlineLine :: r.node.outlineBelow (r.depth + 1))
    fun r => ?_
  rw [Node.outlineBelow_eq_slotLines, Node.slotLines, flatMap_below fun i s => ?_]
  rw [outlineLine_below, depth, List.length_append]
  rfl

theorem feed_not_mem_outlineLine (line : '\n' ∉ r.node.value.toList) :
    '\n' ∉ r.outlineLine.toList := by
  have label : '\n' ∉ r.label.toList := by
    unfold Row.label
    split
    · decide
    · exact Slot.not_mem_label (by decide) _
  have caption := Node.feed_not_mem_caption line
  rw [toList_outlineLine]
  split <;> simp [label, caption]

-- A line ends with a digit.
theorem getLast?_outlineLine (r : Row) : r.outlineLine.toList.getLast? ≠ some '\r' := by
  intro last
  have ne : r.node.location.text.toList ≠ [] := by simp [Location.toList_text]
  rw [toList_outlineLine, Node.caption, ← List.append_assoc, ← List.append_assoc,
    List.getLast?_append_of_ne_nil _ ne] at last
  exact Location.not_mem_text rfl (by decide) _ (List.mem_of_getLast? last)

theorem withoutReturn_outlineLine (r : Row) :
    withoutReturn r.outlineLine.toList = r.outlineLine.toList :=
  if_neg r.getLast?_outlineLine

end
end Row

-- Each thing is counted once, for its own category.
theorem Category.sum_countP_all {α : Type} (category : α → Category) (xs : List α) :
    (all.map fun c => xs.countP (category · = c)).sum = xs.length := by
  induction xs
  case nil => rfl
  case cons x xs hi =>
    have own : (all.map fun c => if category x = c then 1 else 0).sum = 1 := by
      cases category x <;> rfl
    simp only [List.countP_cons, decide_eq_true_eq, List.sum_map_add, hi, own, List.length_cons]

namespace Node

section
variable {root : Node} {c : Category} {k : Nat}

theorem map_visit_rows (root : Node) :
    (root.rows []).map (fun r => (r.depth, r.node)) = root.walk :=
  Row.map_visit_subtree (r := ⟨[], none, root⟩)

theorem map_outlineLine_rows (root : Node) :
    (root.rows []).map (·.outlineLine) = root.outline := by
  refine (Row.map_outlineLine_subtree (r := ⟨[], none, root⟩)).trans ?_
  rw [Row.outlineLine_root]
  rfl

theorem map_node_rows (root : Node) : (root.rows []).map (·.node) = root.walk.map (·.2) := by
  rw [← map_visit_rows, List.map_map]
  rfl

theorem descendants_eq (root : Node) : root.descendants = (root.rows []).tail.map (·.node) := by
  rw [descendants, ← map_visit_rows, ← List.map_tail, List.map_map]
  rfl

theorem count_eq (root : Node) (c : Category) :
    root.count c = (root.rows []).tail.countP (·.node.kind.category = c) := by
  rw [count, descendants_eq, List.countP_map]
  rfl

theorem histogram_eq (root : Node) :
    root.histogram = (Category.all.filter (root.count · != 0)).map fun c => (c, root.count c) := by
  rw [histogram]
  induction Category.all
  case nil           => rfl
  case cons c cs hi =>
    by_cases none : root.count c = 0 <;> simp [none, hi]

theorem mem_histogram_iff : (c, k) ∈ root.histogram ↔ k = root.count c ∧ k ≠ 0 := by
  rw [histogram_eq]
  constructor
  case mp =>
    intro h
    obtain ⟨d, hd, eq⟩ := List.mem_map.mp h
    obtain ⟨rfl, rfl⟩ := Prod.mk.inj eq
    exact ⟨rfl, by simpa using (List.mem_filter.mp hd).2⟩
  case mpr =>
    rintro ⟨rfl, ne⟩
    exact List.mem_map_of_mem (List.mem_filter.mpr ⟨c.mem_all, by simpa using ne⟩)

theorem nodup_histogram (root : Node) : (root.histogram.map (·.1)).Nodup := by
  rw [histogram_eq, List.map_map, Function.comp_def, List.map_id']
  exact Category.all_nodup.filter _

theorem sum_histogram (root : Node) :
    (root.histogram.map (·.2)).sum = (root.rows []).length - 1 := by
  have all_counts : (root.histogram.map (·.2)).sum = (Category.all.map root.count).sum := by
    rw [← List.sum_filter_bne_zero (Category.all.map root.count), List.filter_map, histogram_eq,
      List.map_map]
    rfl
  have counts : root.count = fun c => (root.rows []).tail.countP (·.node.kind.category = c) :=
    funext root.count_eq
  rw [all_counts, counts, Category.sum_countP_all, List.length_tail]

theorem feed_not_mem_outline (inner : ∀ n ∈ root.inOrder, '\n' ∉ n.value.toList) :
    ∀ line ∈ root.outline, '\n' ∉ line.toList := by
  rw [← map_outlineLine_rows, List.forall_mem_map]
  intro r hr
  have visited : r.node ∈ root.walk.map (·.2) := map_node_rows root ▸ List.mem_map_of_mem hr
  exact Row.feed_not_mem_outlineLine
    (inner _ ((root.inOrder_perm_walkFrom 0).mem_iff.mpr visited))

-- The lines of an outline are told by the rows.
theorem splitLines_outlineText (inner : ∀ n ∈ root.inOrder, '\n' ∉ n.value.toList) :
    splitLines root.outlineText.toList = (root.rows []).map (·.outlineLine.toList) := by
  refine (splitLines_unlines (feed_not_mem_outline inner)).trans ?_
  rw [← map_outlineLine_rows, List.map_map]
  exact List.map_congr_left fun r _ => r.withoutReturn_outlineLine

-- A visit, the rows and the outline of a tree meet its nodes in the same order, and the histogram
-- counts the rows below the first one.
theorem traversals_agree (inner : ∀ n ∈ root.inOrder, '\n' ∉ n.value.toList) :
    let rows := root.rows []
    root.walk = rows.map (fun r => (r.depth, r.node)) ∧
    splitLines root.outlineText.toList = rows.map (·.outlineLine.toList) ∧
    (∀ c k, (c, k) ∈ root.histogram ↔ k = rows.tail.countP (·.node.kind.category = c) ∧ k ≠ 0) ∧
    (root.histogram.map (·.1)).Nodup ∧
    (root.histogram.map (·.2)).sum = rows.length - 1 := by
  refine ⟨?walk, splitLines_outlineText inner, ?counts, nodup_histogram root, sum_histogram root⟩
  case walk   => exact (map_visit_rows root).symm
  case counts =>
    intro c k
    rw [mem_histogram_iff, count_eq]

theorem traversals_agree_slots :
    let text (value : String) : Node := .leaf .string value ⟨1, 1⟩
    let root : Node :=
      { kind := .ifStatement, value := "a`\r", lhs := some (text ""), rhs := some (text ": "),
        alt := some (text "@"), params := [[], [text "b", text "c"]], children := [text "d"] }
    let rows := root.rows []
    (∀ n ∈ root.inOrder, '\n' ∉ n.value.toList) ∧
    root.walk = rows.map (fun r => (r.depth, r.node)) ∧
    splitLines root.outlineText.toList = rows.map (·.outlineLine.toList) ∧
    (∀ c k, (c, k) ∈ root.histogram ↔ k = rows.tail.countP (·.node.kind.category = c) ∧ k ≠ 0) ∧
    (root.histogram.map (·.1)).Nodup ∧
    (root.histogram.map (·.2)).sum = rows.length - 1 := by
  intro text root
  have inner : ∀ n ∈ root.inOrder, '\n' ∉ n.value.toList := by decide
  exact ⟨inner, traversals_agree inner⟩

end
end Node
end WispSyntax

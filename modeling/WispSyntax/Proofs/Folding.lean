import Mathlib.Data.List.Lex
import Mathlib.Data.List.Sort
import WispSyntax.Viewer.Row

/-!
Rows under folds. The path of a row leads to its node (`follow_of_mem_rows`), rows stand in the
order of their paths (`pairwise_rows`), and a fold does nothing but show or hide the rows below its
own (`rows_split`).
-/

namespace WispSyntax

namespace Folds

theorem pairwise_insert {p : Path} {f : Folds} (h : f.Pairwise (· < ·)) :
    (f.insert p).Pairwise (· < ·) := by
  induction f
  case nil => exact List.pairwise_singleton _ p
  case cons q f hi =>
    obtain ⟨first, rest⟩ := List.pairwise_cons.mp h
    rw [insert]
    split
    case isTrue => exact h
    case isFalse ne =>
      split
      case isTrue lt =>
        refine List.pairwise_cons.mpr ⟨List.forall_mem_cons.mpr ⟨lt, fun r hr => ?_⟩, h⟩
        exact lt.trans (first r hr)
      case isFalse le =>
        refine List.pairwise_cons.mpr ⟨fun r hr => ?_, hi rest⟩
        rcases mem_insert.mp hr with rfl | hr
        · exact (lt_or_gt_of_ne ne).resolve_left le
        · exact first r hr

theorem mem_erase {p q : Path} {f : Folds} (h : f.Pairwise (· < ·)) :
    q ∈ f.erase p ↔ q ≠ p ∧ q ∈ f :=
  List.Nodup.mem_erase_iff (h.imp ne_of_lt)

end Folds

namespace Node

-- The node to which the positions of slots lead.
def follow : Node → Path → Option Node
  | n, []     => some n
  | n, i :: p => n.slots[i]?.bind fun s => s.2.follow p

-- The rows of some slots of a node, given with their positions.
def slotRows (folds : Folds) (path : Path) (slots : List ((Slot × Node) × Nat)) : List Row :=
  slots.flatMap fun (s, i) => s.2.rowsFrom folds (path ++ [i]) (some s.1)

section
variable {folds folds' : Folds} {path : Path} {slot : Option Slot} {n : Node} {r : Row}

theorem rowsFrom_eq_append {xs ys : List ((Slot × Node) × Nat)} {i : Nat} {s : Slot × Node}
    (unfolded : path ∉ folds) (slots_eq : n.slots.zipIdx = xs ++ (s, i) :: ys) :
    n.rowsFrom folds path slot =
      { path, slot, node := n } :: slotRows folds path xs ++
        s.2.rowsFrom folds (path ++ [i]) (some s.1) ++ slotRows folds path ys := by
  rw [rowsFrom_eq, if_neg unfolded, slots_eq, List.flatMap_append, List.flatMap_cons,
    List.cons_append, List.cons_append, List.append_assoc]
  rfl

-- A row is that of the node itself, or comes from a slot of a node that is not folded.
theorem mem_rowsFrom_iff : r ∈ n.rowsFrom folds path slot ↔
    r = { path, slot, node := n } ∨
      path ∉ folds ∧ ∃ (i : Nat) (s : Slot × Node), n.slots[i]? = some s ∧
        r ∈ s.2.rowsFrom folds (path ++ [i]) (some s.1) := by
  rw [rowsFrom_eq, List.mem_cons]
  refine or_congr_right ?_
  split
  case isTrue folded => simp [folded]
  case isFalse unfolded =>
    simp only [unfolded, not_false_eq_true, true_and, List.mem_flatMap,
      List.mem_zipIdx_iff_getElem?]
    exact ⟨fun ⟨(s, i), hs, hr⟩ => ⟨i, s, hs, hr⟩, fun ⟨i, s, hs, hr⟩ => ⟨(s, i), hs, hr⟩⟩

theorem follow_of_mem_rowsFrom (h : r ∈ n.rowsFrom folds path slot) :
    ∃ p, r.path = path ++ p ∧ n.follow p = some r.node := by
  induction n using slots_induction generalizing path slot
  case step n hi =>
    rcases mem_rowsFrom_iff.mp h with rfl | ⟨_, i, s, hs, hr⟩
    · exact ⟨[], (List.append_nil path).symm, rfl⟩
    · obtain ⟨p, path_eq, leads⟩ := hi s (List.mem_of_getElem? hs) hr
      exact ⟨i :: p, by simp [path_eq], by simp [follow, hs, leads]⟩

theorem exists_path_of_mem_rowsFrom {i : Nat} (h : r ∈ n.rowsFrom folds (path ++ [i]) slot) :
    ∃ p, r.path = path ++ i :: p := by
  obtain ⟨p, path_eq, _⟩ := follow_of_mem_rowsFrom h
  exact ⟨p, by simp [path_eq]⟩

theorem pairwise_zipIdx {α : Type} (xs : List α) : xs.zipIdx.Pairwise (·.2 < ·.2) := by
  rw [← List.pairwise_map, List.zipIdx_map_snd]
  exact List.pairwise_lt_range'

theorem exists_zipIdx_eq_append {α : Type} {xs : List α} {x : α} {i : Nat} (h : xs[i]? = some x) :
    ∃ before after, xs.zipIdx = before ++ (x, i) :: after ∧
      (∀ z ∈ before, z.2 ≠ i) ∧ ∀ z ∈ after, z.2 ≠ i := by
  have mem : (x, i) ∈ xs.zipIdx := List.mem_zipIdx_iff_getElem?.mpr h
  obtain ⟨before, after, eq⟩ := List.append_of_mem mem
  have order := pairwise_zipIdx xs
  rw [eq, List.pairwise_append, List.pairwise_cons] at order
  obtain ⟨_, ⟨later, _⟩, earlier⟩ := order
  exact ⟨before, after, eq, fun z hz => (earlier z hz _ (.head _)).ne, fun z hz => (later z hz).ne'⟩

-- Rows are shown in the order of their paths, so that no two of them have the same one.
theorem pairwise_rowsFrom : (n.rowsFrom folds path slot).Pairwise (·.path < ·.path) := by
  induction n using slots_induction generalizing path slot
  case step n hi =>
    rw [rowsFrom_eq]
    split
    case isTrue => exact List.pairwise_singleton _ _
    case isFalse =>
      refine List.pairwise_cons.mpr ⟨?above, List.pairwise_flatMap.mpr ⟨?within, ?across⟩⟩
      case above =>
        intro r hr
        obtain ⟨⟨s, i⟩, _, hr⟩ := List.mem_flatMap.mp hr
        obtain ⟨p, path_eq⟩ := exists_path_of_mem_rowsFrom hr
        have lt : path ++ [] < path ++ i :: p := List.append_left_lt (List.nil_lt_cons i p)
        rwa [List.append_nil, ← path_eq] at lt
      case within =>
        intro ⟨s, i⟩ hs
        exact hi s (List.fst_mem_of_mem_zipIdx hs)
      case across =>
        refine (pairwise_zipIdx n.slots).imp fun {a b} lt r hr r' hr' => ?_
        obtain ⟨p, path_eq⟩ := exists_path_of_mem_rowsFrom hr
        obtain ⟨q, path_eq'⟩ := exists_path_of_mem_rowsFrom hr'
        rw [path_eq, path_eq']
        exact List.append_left_lt (List.cons_lt_cons_iff.mpr (.inl lt))

-- Folds elsewhere do not matter to the rows of a node.
theorem rowsFrom_congr (same : ∀ p, path <+: p → (p ∈ folds ↔ p ∈ folds')) :
    n.rowsFrom folds path slot = n.rowsFrom folds' path slot := by
  induction n using slots_induction generalizing path slot
  case step n hi =>
    rw [rowsFrom_eq, rowsFrom_eq]
    congr 1
    refine if_congr (same path (List.prefix_refl path)) rfl (List.flatMap_congr fun ⟨s, i⟩ hs => ?_)
    refine hi s (List.fst_mem_of_mem_zipIdx hs) fun p extends' => same p ?_
    exact (List.prefix_append path [i]).trans extends'

-- The node above that of a row has a row too, unless there is none.
theorem exists_parent_of_mem_rowsFrom (h : r ∈ n.rowsFrom folds path slot) :
    r.path = path ∨ ∃ r' ∈ n.rowsFrom folds path slot, r'.path = r.path.dropLast := by
  induction n using slots_induction generalizing path slot
  case step n hi =>
    rcases mem_rowsFrom_iff.mp h with rfl | ⟨unfolded, i, s, hs, hr⟩
    · exact .inl rfl
    · refine .inr ?_
      rcases hi s (List.mem_of_getElem? hs) hr with path_eq | ⟨r', hr', path_eq⟩
      · exact ⟨_, mem_rowsFrom_iff.mpr (.inl rfl), by simp [path_eq]⟩
      · exact ⟨r', mem_rowsFrom_iff.mpr (.inr ⟨unfolded, i, s, hs, hr'⟩), path_eq⟩

-- The rows of the slots beside the one that leads to a path.
theorem slotRows_congr {slots : List ((Slot × Node) × Nat)} {i : Nat} {q : Path}
    (beside : ∀ z ∈ slots, z.2 ≠ i)
    (same : ∀ p, p ≠ path ++ i :: q → (p ∈ folds ↔ p ∈ folds')) :
    slotRows folds path slots = slotRows folds' path slots := by
  refine List.flatMap_congr fun ⟨s, j⟩ hs => rowsFrom_congr fun p ⟨rest, extends'⟩ => same p ?_
  intro eq
  rw [← extends', ← List.append_cons] at eq
  exact beside _ hs (List.cons.inj (List.append_cancel_left eq)).1

-- The rows below a row follow right after it. Whether they are folded away or not, all the other
-- rows are the same.
theorem rowsFrom_split (h : r ∈ n.rowsFrom folds path slot)
    (same : ∀ p, p ≠ r.path → (p ∈ folds ↔ p ∈ folds')) :
    ∃ before after,
      n.rowsFrom folds path slot = before ++ r.node.rowsFrom folds r.path r.slot ++ after ∧
      n.rowsFrom folds' path slot = before ++ r.node.rowsFrom folds' r.path r.slot ++ after := by
  induction n using slots_induction generalizing path slot
  case step n hi =>
    rcases mem_rowsFrom_iff.mp h with rfl | ⟨unfolded, i, s, hs, hr⟩
    case inl => exact ⟨[], [], by simp, by simp⟩
    case inr =>
      obtain ⟨before, after, here, here'⟩ := hi s (List.mem_of_getElem? hs) hr
      obtain ⟨p, path_eq⟩ := exists_path_of_mem_rowsFrom hr
      obtain ⟨xs, ys, slots_eq, xs_ne, ys_ne⟩ := exists_zipIdx_eq_append hs
      have unfolded' : path ∉ folds' := by rwa [← same path (by simp [path_eq])]
      rw [path_eq] at same
      rw [rowsFrom_eq_append unfolded slots_eq, rowsFrom_eq_append unfolded' slots_eq, here, here',
        slotRows_congr xs_ne same, slotRows_congr ys_ne same]
      exists ⟨path, slot, n⟩ :: slotRows folds' path xs ++ before, after ++ slotRows folds' path ys
      simp only [List.cons_append, List.append_assoc, and_self]

end

section
variable {folds folds' : Folds} {root : Node} {r : Row}

theorem follow_of_mem_rows (h : r ∈ root.rows folds) : root.follow r.path = some r.node := by
  obtain ⟨p, path_eq, leads⟩ := follow_of_mem_rowsFrom h
  rwa [path_eq]

theorem pairwise_rows (folds : Folds) (root : Node) :
    (root.rows folds).Pairwise (·.path < ·.path) :=
  pairwise_rowsFrom

theorem exists_parent_of_mem_rows (h : r ∈ root.rows folds) (below : r.path ≠ []) :
    ∃ r' ∈ root.rows folds, r'.path = r.path.dropLast :=
  (exists_parent_of_mem_rowsFrom h).resolve_left below

-- Rows are told apart by their paths.
theorem eq_of_path_eq {i j : Nat} {r' : Row} (hi : (root.rows folds)[i]? = some r)
    (hj : (root.rows folds)[j]? = some r') (eq : r.path = r'.path) : i = j := by
  have paths : ((root.rows folds).map (·.path)).Nodup :=
    List.pairwise_map.mpr ((pairwise_rows folds root).imp ne_of_lt)
  have lt : i < ((root.rows folds).map (·.path)).length := by
    rw [List.length_map]
    exact (List.getElem?_eq_some_iff.mp hi).1
  refine (List.getElem?_inj lt paths).mp ?_
  rw [List.getElem?_map, List.getElem?_map, hi, hj, Option.map_some, Option.map_some, eq]

-- The rows around a row in its place.
theorem rows_split {i : Nat} (h : (root.rows folds)[i]? = some r)
    (same : ∀ p, p ≠ r.path → (p ∈ folds ↔ p ∈ folds')) :
    ∃ before after, before.length = i ∧
      root.rows folds = before ++ r.node.rowsFrom folds r.path r.slot ++ after ∧
      root.rows folds' = before ++ r.node.rowsFrom folds' r.path r.slot ++ after := by
  obtain ⟨before, after, here, here'⟩ := rowsFrom_split (List.mem_of_getElem? h) same
  refine ⟨before, after, ?_, here, here'⟩
  refine eq_of_path_eq (r := r) ?_ h rfl
  rw [rows, here, rowsFrom_eq, List.append_assoc, List.getElem?_append_right le_rfl]
  simp

-- A row keeps its place when it is folded or opened.
theorem getElem?_rows_of_same {i : Nat} (h : (root.rows folds)[i]? = some r)
    (same : ∀ p, p ≠ r.path → (p ∈ folds ↔ p ∈ folds')) : (root.rows folds')[i]? = some r := by
  obtain ⟨before, after, rfl, _, here'⟩ := rows_split h same
  rw [here', rowsFrom_eq, List.append_assoc, List.getElem?_append_right le_rfl]
  simp

-- Right below a row that is open stands that of its first slot.
theorem getElem?_rows_succ {i : Nat} (h : (root.rows folds)[i]? = some r)
    (unfolded : r.path ∉ folds) (ne : r.node.slots ≠ []) :
    ∃ r', (root.rows folds)[i + 1]? = some r' ∧ r'.path = r.path ++ [0] := by
  obtain ⟨before, after, rfl, here, _⟩ := rows_split h fun _ _ => Iff.rfl
  obtain ⟨s, slots, slots_eq⟩ := List.exists_cons_of_ne_nil ne
  have first : r.node.slots.zipIdx = [] ++ (s, 0) :: slots.zipIdx 1 := by
    rw [slots_eq, List.zipIdx_cons, List.nil_append]
  rw [here, rowsFrom_eq_append unfolded first, rowsFrom_eq]
  simp [slotRows]

end
end Node
end WispSyntax

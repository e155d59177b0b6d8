import WispSyntax.Proofs.Preorder

/-!
What folds hide. Without folds the rows of a tree list all of its nodes in pre-order, and folds take
away the rows below the folded ones and no others (`lists_rows_and_eq_filter`).
-/

namespace WispSyntax

namespace Row

-- No row above the row is folded.
def IsShown (folds : Folds) (r : Row) : Prop :=
  ∀ p ∈ folds, ¬(p <+: r.path ∧ p ≠ r.path)

instance (folds : Folds) : DecidablePred (IsShown folds) :=
  fun _ => inferInstanceAs (Decidable (∀ p ∈ folds, _))

-- What a row tells of the tree in which it stands.
structure Tells (root : Node) (r : Row) : Prop where
  depth       : r.depth = r.path.length
  leads       : root.follow r.path = some r.node
  root_label  : r.path = [] → r.label = "root"
  slot_label  : ∀ p i, r.path = p ++ [i] → ∃ parent s, root.follow p = some parent ∧
    parent.slots[i]? = some s ∧ r.label = s.1.label
  hasChildren : r.hasChildren ↔ r.node.slots ≠ []

section
variable {folds : Folds} {r r' : Row}

theorem mem_below_iff : r' ∈ r.below ↔
    ∃ i s, r.node.slots[i]? = some s ∧ r' = ⟨r.path ++ [i], some s.1, s.2⟩ := by
  constructor
  case mp =>
    intro h
    obtain ⟨⟨s, i⟩, hs, rfl⟩ := List.mem_map.mp h
    exact ⟨i, s, List.mem_zipIdx_iff_getElem?.mp hs, rfl⟩
  case mpr =>
    rintro ⟨i, s, hs, rfl⟩
    exact List.mem_map.mpr ⟨(s, i), List.mem_zipIdx_iff_getElem?.mpr hs, rfl⟩

theorem mem_subtree_iff : r' ∈ r.subtree folds ↔
    r' = r ∨ r.path ∉ folds ∧ ∃ b ∈ r.below, r' ∈ b.subtree folds := by
  rw [subtree_eq, List.mem_cons]
  refine or_congr_right ?_
  split
  case isTrue folded    => simp [folded]
  case isFalse unfolded => simp [unfolded, List.mem_flatMap]

theorem path_prefix_of_mem_subtree (h : r' ∈ r.subtree folds) : r.path <+: r'.path := by
  obtain ⟨p, path_eq, _⟩ := Node.follow_of_mem_rowsFrom h
  exact ⟨p, path_eq.symm⟩

-- What stands below a folded row is hidden.
theorem not_isShown_of_mem_below {b : Row} (folded : r.path ∈ folds) (hb : b ∈ r.below)
    (h : r' ∈ b.subtree []) : ¬r'.IsShown folds := by
  obtain ⟨i, s, _, rfl⟩ := mem_below_iff.mp hb
  obtain ⟨p, path_eq⟩ := path_prefix_of_mem_subtree h
  intro shown
  refine shown r.path folded ⟨⟨[i] ++ p, ?_⟩, fun same => ?_⟩
  · rw [← path_eq, List.append_assoc]
  · have lengths := congrArg List.length (same.trans path_eq.symm)
    simp at lengths

theorem IsShown.of_mem_below (h : r.IsShown folds) (unfolded : r.path ∉ folds)
    (hr : r' ∈ r.below) : r'.IsShown folds := by
  obtain ⟨i, s, _, rfl⟩ := mem_below_iff.mp hr
  intro p hp ⟨above, ne⟩
  have above : p <+: r.path := (List.prefix_concat_iff.mp above).resolve_left ne
  refine h p hp ⟨above, ?_⟩
  rintro rfl
  exact unfolded hp

theorem subtree_eq_filter (h : r.IsShown folds) :
    r.subtree folds = (r.subtree []).filter (·.IsShown folds) := by
  induction r using below_induction
  case step r hi =>
    rw [subtree_eq, subtree_eq [], if_neg List.not_mem_nil, List.filter_cons,
      if_pos (decide_eq_true h), List.filter_flatMap]
    congr 1
    split
    case isTrue folded =>
      refine (List.flatMap_eq_nil_iff.mpr fun b hb => ?_).symm
      refine List.filter_eq_nil_iff.mpr fun r' hr => ?_
      simpa using not_isShown_of_mem_below folded hb hr
    case isFalse unfolded =>
      exact List.flatMap_congr fun b hb => hi b hb (h.of_mem_below unfolded hb)

-- Every path that leads to a node is that of a row.
theorem exists_mem_subtree_of_follow {p : Path} {n : Node} (h : r.node.follow p = some n) :
    ∃ r' ∈ r.subtree [], r'.path = r.path ++ p ∧ r'.node = n := by
  induction p generalizing r
  case nil =>
    refine ⟨r, mem_subtree_iff.mpr (.inl rfl), (List.append_nil _).symm, ?_⟩
    exact Option.some.inj h
  case cons i p hi =>
    obtain ⟨s, hs, leads⟩ := Option.bind_eq_some_iff.mp h
    obtain ⟨r', mem, path_eq, node_eq⟩ := hi (r := ⟨r.path ++ [i], some s.1, s.2⟩) leads
    refine ⟨r', mem_subtree_iff.mpr (.inr ⟨List.not_mem_nil, _, ?_, mem⟩), ?_, node_eq⟩
    · exact mem_below_iff.mpr ⟨i, s, hs, rfl⟩
    · rw [path_eq, List.append_assoc]
      rfl

-- A row below another one stands in the slot to which its path leads.
theorem exists_slot_of_mem_subtree (h : r' ∈ r.subtree folds) :
    r' = r ∨ ∃ p i parent s, r'.path = r.path ++ (p ++ [i]) ∧ r.node.follow p = some parent ∧
      parent.slots[i]? = some s ∧ r'.slot = some s.1 := by
  induction r using below_induction
  case step r hi =>
    rcases mem_subtree_iff.mp h with rfl | ⟨_, b, hb, hr⟩
    case inl => exact .inl rfl
    case inr =>
      refine .inr ?_
      have found := hi b hb hr
      obtain ⟨i, s, hs, rfl⟩ := mem_below_iff.mp hb
      rcases found with rfl | ⟨p, j, parent, t, path_eq, leads, ht, slot_eq⟩
      · exact ⟨[], i, r.node, s, rfl, rfl, hs, rfl⟩
      · refine ⟨i :: p, j, parent, t, ?_, ?_, ht, slot_eq⟩
        · rw [path_eq, List.append_assoc]
          rfl
        · simpa [Node.follow, hs] using leads

end
end Row

namespace Node

-- Rows that list every node of a tree, each one before those in its slots.
structure Lists (root : Node) (rows : List Row) : Prop where
  nodes    : (rows.map (·.node)).Perm root.inOrder
  once     : ∀ p n, root.follow p = some n → (rows.map fun r => (r.path, r.node)).count (p, n) = 1
  ordered  : rows.Pairwise (·.path < ·.path)
  distinct : (rows.map (·.path)).Nodup
  tells    : ∀ r ∈ rows, r.Tells root

section
variable {root : Node} {folds : Folds} {r : Row}

theorem tells_of_mem_rows (h : r ∈ root.rows folds) : r.Tells root where
  depth       := rfl
  leads       := follow_of_mem_rows h
  root_label  := by
    intro top
    rcases Row.exists_slot_of_mem_subtree (r := ⟨[], none, root⟩) h with
      rfl | ⟨p, i, _, _, path_eq, _⟩
    · rfl
    · simp [top] at path_eq
  slot_label  := by
    intro p i path_eq
    rcases Row.exists_slot_of_mem_subtree (r := ⟨[], none, root⟩) h with
      rfl | ⟨q, j, parent, s, path_eq', leads, hs, slot_eq⟩
    · simp at path_eq
    · have path_eq' : r.path = q ++ [j] := path_eq'
      obtain ⟨rfl, last⟩ := List.append_inj' (path_eq.symm.trans path_eq') rfl
      obtain rfl := List.singleton_inj.mp last
      exact ⟨parent, s, leads, hs, by rw [Row.label, slot_eq]⟩
  hasChildren := by simp [Row.hasChildren]

theorem nodup_paths (folds : Folds) (root : Node) : ((root.rows folds).map (·.path)).Nodup :=
  List.pairwise_map.mpr ((pairwise_rows folds root).imp ne_of_lt)

theorem lists_rows (root : Node) : root.Lists (root.rows []) where
  nodes    := map_node_rows root ▸ (root.inOrder_perm_walkFrom 0).symm
  once     := by
    intro p n leads
    obtain ⟨r, hr, rfl, rfl⟩ := Row.exists_mem_subtree_of_follow (r := ⟨[], none, root⟩) leads
    refine List.count_eq_one_of_mem (List.Nodup.of_map Prod.fst ?_) (List.mem_map_of_mem hr)
    rw [List.map_map]
    exact nodup_paths [] root
  ordered  := pairwise_rows [] root
  distinct := nodup_paths [] root
  tells    := fun _ => tells_of_mem_rows

-- The rows under folds are those of the whole tree that have no folded row above them.
theorem lists_rows_and_eq_filter (root : Node) (folds : Folds) :
    root.Lists (root.rows []) ∧ root.rows folds = (root.rows []).filter (·.IsShown folds) := by
  have shown : Row.IsShown folds ⟨[], none, root⟩ := fun p _ ⟨above, ne⟩ =>
    ne (List.prefix_nil.mp above)
  exact ⟨lists_rows root, Row.subtree_eq_filter shown⟩

end
end Node
end WispSyntax

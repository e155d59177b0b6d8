import WispSyntax.Proofs.Navigation

/-!
The message of the status bar. It is written only when the selection moves or the selected node is
folded or opened, and it is true for as long as it stands (`tells_of_run`).
-/

namespace WispSyntax.Viewer

-- What the message says is so.
inductive Tells (v : Viewer) : Prop
  | ready (status : v.status = "Ready!") (selected : v.selected = 0) (folds : v.folds = [])
  | collapsed {r : Row} (status : v.status = "Collapsed") (hr : v.selectedRow = some r)
      (folded : r.path ∈ v.folds)
  | expanded {r : Row} (status : v.status = "Expanded") (hr : v.selectedRow = some r)
      (ne : r.node.slots ≠ []) (unfolded : r.path ∉ v.folds)
  | node {r : Row} (status : v.status = s!"{r.node.kind.name} at {r.node.location.text}")
      (hr : v.selectedRow = some r)

section
variable {v w : Viewer}

theorem selectedRow_congr (root : w.root = v.root) (folds : w.folds = v.folds)
    (selected : w.selected = v.selected) : w.selectedRow = v.selectedRow := by
  rw [selectedRow, selectedRow, rows, rows, root, folds, selected]

theorem status_select {r : Row} {i : Nat} (hr : (v.select i).selectedRow = some r) :
    (v.select i).status = s!"{r.node.kind.name} at {r.node.location.text}" := by
  have here : v.rows[min i (v.rows.length - 1)]? = some r := by
    rwa [selectedRow, rows_select, selected_select] at hr
  simp only [select]
  split
  case h_1 none_eq => exact absurd (here.symm.trans none_eq) (Option.some_ne_none r)
  case h_2 r' found =>
    have eq : r = r' := Option.some.inj (here.symm.trans found)
    rw [eq]

-- Whatever changes what the message is about writes another message.
theorem Tells.of_effect (h : v.Tells) (sound : v.Sound) (effect : v.Effect w) : w.Tells := by
  have sound' := sound.of_effect effect
  cases effect
  case select i =>
    obtain ⟨r, hr⟩ := sound'.exists_selectedRow
    exact .node (status_select hr) hr
  case fold r hr _ _ => exact .collapsed rfl (selectedRow_fold hr) (mem_folds_fold.mpr (.inl rfl))
  case unfold r hr ne _ =>
    refine .expanded rfl (sound.selectedRow_unfold hr) ne fun folded => ?_
    exact (sound.mem_folds_unfold.mp folded).1 rfl
  case other root folds selected status =>
    have row := selectedRow_congr root folds selected
    cases h
    case ready text first none         =>
      exact .ready (status.trans text) (selected.trans first) (folds.trans none)
    case collapsed text hr folded      =>
      exact .collapsed (status.trans text) (row.trans hr) (folds ▸ folded)
    case expanded text hr ne unfolded  =>
      exact .expanded (status.trans text) (row.trans hr) ne (folds ▸ unfolded)
    case node text hr                  => exact .node (status.trans text) (row.trans hr)

end

-- At all times the message is one of four, and true of the row that is selected.
theorem tells_of_run (root : Node) (source path : String) (events : List Event) :
    ((start root source path).run events).Tells := by
  refine (run_induction (P := fun v => v.Sound ∧ v.Tells) ?_ ?_ events).2
  · exact ⟨sound_start root source path, .ready rfl rfl rfl⟩
  · intro v e ⟨sound, tells⟩
    have effect := effect_handle v e
    exact ⟨sound.of_effect effect, tells.of_effect sound effect⟩

end WispSyntax.Viewer

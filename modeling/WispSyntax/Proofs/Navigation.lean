import WispSyntax.Proofs.Folding
import WispSyntax.Viewer

/-!
Moving through a tree. A key or a draw can do no more than select, fold or unfold (`effect_handle`),
so that the selection always stands on a row and only nodes with slots are folded (`sound_run`).
From there on the keys follow the edges of the tree, and folding leaves the selection where it is
(`Sound.steers`).
-/

namespace WispSyntax

namespace Row
variable {r : Row} {folds : Folds}

theorem hasChildren_eq : r.hasChildren = decide (r.node.slots ≠ []) := by
  rw [Bool.eq_iff_iff]
  simp [hasChildren]

theorem isFolded_eq : r.isFolded folds = decide (r.path ∈ folds) := by
  rw [Bool.eq_iff_iff]
  simp [isFolded]

end Row

namespace Viewer

-- What happens to a viewer from outside.
inductive Event
  | press (k : Key)
  | draw (width height : Nat)

def handle (v : Viewer) : Event → Viewer
  | .press k           => v.press k
  | .draw width height => (v.draw width height).1

def run (v : Viewer) (events : List Event) : Viewer :=
  events.foldl handle v

-- A viewer that has just been opened.
def start (root : Node) (source path : String) : Viewer where
  root   := root
  source := source
  path   := path

def selectedPath (v : Viewer) : Option Path :=
  v.selectedRow.map (·.path)

structure Sound (v : Viewer) : Prop where
  selected_lt : v.selected < v.rows.length
  leads       : ∀ p ∈ v.folds, ∃ n, v.root.follow p = some n ∧ n.slots ≠ []
  ordered     : v.folds.Pairwise (· < ·)

-- All that a key or a draw can do to the rows, the selection and the message.
inductive Effect (v : Viewer) : Viewer → Prop
  | select (i : Nat) : Effect v (v.select i)
  | fold {r : Row} (hr : v.selectedRow = some r) (ne : r.node.slots ≠ [])
      (unfolded : r.path ∉ v.folds) : Effect v (v.fold r.path)
  | unfold {r : Row} (hr : v.selectedRow = some r) (ne : r.node.slots ≠ [])
      (folded : r.path ∈ v.folds) : Effect v (v.unfold r.path)
  | other {w : Viewer} (root : w.root = v.root) (folds : w.folds = v.folds)
      (selected : w.selected = v.selected) (status : w.status = v.status) : Effect v w

-- What the keys do when the selection stands on a row.
structure Steers (v : Viewer) (r : Row) : Prop where
  left_fold     : r.node.slots ≠ [] → r.path ∉ v.folds →
    (∀ p, p ∈ (v.press .left).folds ↔ p = r.path ∨ p ∈ v.folds) ∧
    (v.press .left).selected = v.selected ∧
    (v.press .left).selectedPath = some r.path
  left_ascend   : r.node.slots = [] ∨ r.path ∈ v.folds → r.path ≠ [] →
    (v.press .left).folds = v.folds ∧
    (v.press .left).selectedPath = some r.path.dropLast
  left_root     : r.node.slots = [] ∨ r.path ∈ v.folds → r.path = [] → v.press .left = v
  right_leaf    : r.node.slots = [] → v.press .right = v
  right_unfold  : r.path ∈ v.folds →
    (∀ p, p ∈ (v.press .right).folds ↔ p ≠ r.path ∧ p ∈ v.folds) ∧
    (v.press .right).selectedPath = some r.path
  right_descend : r.node.slots ≠ [] → r.path ∉ v.folds →
    (v.press .right).folds = v.folds ∧
    (v.press .right).selectedPath = some (r.path ++ [0])
  enter         : r.node.slots ≠ [] →
    (r.path ∈ (v.press .enter).folds ↔ r.path ∉ v.folds) ∧
    (∀ p, p ≠ r.path → (p ∈ (v.press .enter).folds ↔ p ∈ v.folds)) ∧
    (v.press .enter).selectedPath = some r.path
  enter_twice   : r.node.slots ≠ [] →
    ((v.press .enter).press .enter).folds = v.folds ∧
    ((v.press .enter).press .enter).selected = v.selected ∧
    ((v.press .enter).press .enter).rows = v.rows

section
variable {v w : Viewer} {r : Row} {i : Nat} {p : Path}

@[simp]
theorem root_select : (v.select i).root = v.root := by
  dsimp only [select]
  split <;> rfl

@[simp]
theorem folds_select : (v.select i).folds = v.folds := by
  dsimp only [select]
  split <;> rfl

@[simp]
theorem selected_select : (v.select i).selected = min i (v.rows.length - 1) := by
  dsimp only [select]
  split <;> rfl

@[simp]
theorem rows_select : (v.select i).rows = v.rows := by
  rw [rows, root_select, folds_select, rows]

theorem selectedRow_select (h : v.rows[i]? = some r) : (v.select i).selectedRow = some r := by
  have lt := (List.getElem?_eq_some_iff.mp h).1
  rwa [selectedRow, rows_select, selected_select, min_eq_left (by omega)]

theorem selectedPath_eq (hr : v.selectedRow = some r) : v.selectedPath = some r.path := by
  rw [selectedPath, hr, Option.map_some]

theorem mem_rows_of_selectedRow (hr : v.selectedRow = some r) : r ∈ v.rows :=
  List.mem_of_getElem? hr

theorem follow_of_selectedRow (hr : v.selectedRow = some r) :
    v.root.follow r.path = some r.node :=
  Node.follow_of_mem_rows (mem_rows_of_selectedRow hr)

theorem descend_eq (hr : v.selectedRow = some r) :
    v.descend =
      if r.node.slots = [] then v
      else if r.path ∈ v.folds then v.unfold r.path
      else v.select (v.selected + 1) := by
  simp only [descend, hr, Row.hasChildren_eq, Row.isFolded_eq]
  by_cases leaf : r.node.slots = [] <;> by_cases folded : r.path ∈ v.folds <;> simp [leaf, folded]

theorem ascend_eq (hr : v.selectedRow = some r) :
    v.ascend =
      if r.node.slots = [] ∨ r.path ∈ v.folds then v.selectParent r.path else v.fold r.path := by
  simp only [ascend, hr, Row.hasChildren_eq, Row.isFolded_eq]
  by_cases leaf : r.node.slots = [] <;> by_cases folded : r.path ∈ v.folds <;> simp [leaf, folded]

theorem toggle_eq (hr : v.selectedRow = some r) :
    v.toggle =
      if r.node.slots = [] then v
      else if r.path ∈ v.folds then v.unfold r.path
      else v.fold r.path := by
  simp only [toggle, hr, Row.hasChildren_eq, Row.isFolded_eq]
  by_cases leaf : r.node.slots = [] <;> by_cases folded : r.path ∈ v.folds <;> simp [leaf, folded]

theorem Effect.refl : v.Effect v :=
  .other rfl rfl rfl rfl

theorem effect_descend : v.Effect v.descend := by
  cases hr : v.selectedRow
  case none =>
    rw [descend, hr]
    exact .refl
  case some r =>
    rw [descend_eq hr]
    split_ifs with leaf folded
    · exact .refl
    · exact .unfold hr leaf folded
    · exact .select _

theorem effect_selectParent : v.Effect (v.selectParent p) := by
  rw [selectParent]
  split
  · exact .refl
  · split
    · exact .refl
    · exact .select _

theorem effect_ascend : v.Effect v.ascend := by
  cases hr : v.selectedRow
  case none =>
    rw [ascend, hr]
    exact .refl
  case some r =>
    rw [ascend_eq hr]
    split_ifs with stays
    · exact effect_selectParent
    · have ⟨ne, unfolded⟩ := not_or.mp stays
      exact .fold hr ne unfolded

theorem effect_toggle : v.Effect v.toggle := by
  cases hr : v.selectedRow
  case none =>
    rw [toggle, hr]
    exact .refl
  case some r =>
    rw [toggle_eq hr]
    split_ifs with leaf folded
    · exact .refl
    · exact .unfold hr leaf folded
    · exact .fold hr leaf folded

theorem effect_press (k : Key) : v.Effect (v.press k) := by
  cases k
  case up | down =>
    rw [press]
    split
    · exact .select _
    · exact .other rfl rfl rfl rfl
  case home | bottom => exact .select _
  case left          => exact effect_ascend
  case right         => exact effect_descend
  case enter         => exact effect_toggle
  case tab | escape  => exact .other rfl rfl rfl rfl
  case other         => exact .refl
  case char c =>
    rw [press]
    split
    · exact .other rfl rfl rfl rfl
    · exact .refl

theorem effect_handle (v : Viewer) (e : Event) : v.Effect (v.handle e) := by
  cases e
  case press k => exact effect_press k
  case draw    => exact .other rfl rfl rfl rfl

theorem Effect.root_eq (h : v.Effect w) : w.root = v.root := by
  cases h
  case select            => exact root_select
  case fold | unfold     => rfl
  case other eq _ _ _    => exact eq

theorem mem_folds_fold : p ∈ (v.fold r.path).folds ↔ p = r.path ∨ p ∈ v.folds :=
  Folds.mem_insert

theorem selectedRow_fold (hr : v.selectedRow = some r) : (v.fold r.path).selectedRow = some r := by
  refine Node.getElem?_rows_of_same hr fun p ne => ?_
  rw [mem_folds_fold]
  simp [ne]

namespace Sound

theorem exists_selectedRow (h : v.Sound) : ∃ r, v.selectedRow = some r :=
  ⟨v.rows.get ⟨v.selected, h.selected_lt⟩, List.getElem?_eq_getElem h.selected_lt⟩

theorem mem_folds_unfold (h : v.Sound) : p ∈ (v.unfold r.path).folds ↔ p ≠ r.path ∧ p ∈ v.folds :=
  Folds.mem_erase h.ordered

theorem selectedRow_unfold (h : v.Sound) (hr : v.selectedRow = some r) :
    (v.unfold r.path).selectedRow = some r := by
  refine Node.getElem?_rows_of_same hr fun p ne => ?_
  rw [h.mem_folds_unfold]
  simp [ne]

-- Folding takes away no row at or above the selected one, and so the selection stays on a row.
theorem of_effect (h : v.Sound) (effect : v.Effect w) : w.Sound := by
  have lt := h.selected_lt
  cases effect
  case select i =>
    refine ⟨?_, by simpa using h.leads, by simpa using h.ordered⟩
    rw [rows_select, selected_select]
    omega
  case fold r hr ne _ =>
    have here := follow_of_selectedRow hr
    refine ⟨(List.getElem?_eq_some_iff.mp (selectedRow_fold hr)).1, fun p hp => ?_,
      Folds.pairwise_insert h.ordered⟩
    rcases mem_folds_fold.mp hp with rfl | hp
    · exact ⟨r.node, here, ne⟩
    · exact h.leads p hp
  case unfold r hr _ _ =>
    exact ⟨(List.getElem?_eq_some_iff.mp (h.selectedRow_unfold hr)).1,
      fun p hp => h.leads p (h.mem_folds_unfold.mp hp).2, h.ordered.sublist List.erase_sublist⟩
  case other root folds selected _ =>
    refine ⟨?_, by rw [root, folds]; exact h.leads, by rw [folds]; exact h.ordered⟩
    rwa [rows, root, folds, selected]

-- A row that is selected and folded has slots to hide.
theorem slots_ne_nil (h : v.Sound) (hr : v.selectedRow = some r) (folded : r.path ∈ v.folds) :
    r.node.slots ≠ [] := by
  obtain ⟨n, leads, ne⟩ := h.leads r.path folded
  rw [follow_of_selectedRow hr] at leads
  rwa [Option.some.inj leads]

end Sound

-- What an event keeps, a run keeps.
theorem run_induction {P : Viewer → Prop} (start : P v) (step : ∀ v e, P v → P (v.handle e))
    (events : List Event) : P (v.run events) := by
  induction events generalizing v
  case nil            => exact start
  case cons e rest hi => exact hi (step v e start)

theorem root_run (events : List Event) : (v.run events).root = v.root :=
  run_induction (P := (·.root = v.root)) rfl
    (fun w e eq => (effect_handle w e).root_eq.trans eq) events

theorem sound_start (root : Node) (source path : String) : (start root source path).Sound where
  selected_lt := List.length_pos_iff.mpr (Node.rows_ne_nil [] root)
  leads       := by simp [start]
  ordered     := .nil

theorem sound_run (root : Node) (source path : String) (events : List Event) :
    ((start root source path).run events).Sound :=
  run_induction (sound_start root source path) (fun w e h => h.of_effect (effect_handle w e)) events

-- The node above the selected one is never folded away.
theorem exists_selectParent_eq (hr : v.selectedRow = some r) (below : r.path ≠ []) :
    ∃ (i : Nat) (parent : Row), v.rows[i]? = some parent ∧ parent.path = r.path.dropLast ∧
      v.selectParent r.path = v.select i := by
  obtain ⟨parent, mem, path_eq⟩ :=
    Node.exists_parent_of_mem_rows (mem_rows_of_selectedRow hr) below
  rw [selectParent, if_neg (by simpa using below)]
  split
  case h_1 none_eq =>
    have ne := List.findIdx?_eq_none_iff.mp none_eq parent mem
    simp [path_eq] at ne
  case h_2 i found =>
    obtain ⟨lt, eq, _⟩ := List.findIdx?_eq_some_iff_getElem.mp found
    exact ⟨i, v.rows[i], List.getElem?_eq_getElem lt, by simpa using eq, rfl⟩

theorem Sound.enter (h : v.Sound) (hr : v.selectedRow = some r) (ne : r.node.slots ≠ []) :
    (r.path ∈ (v.press .enter).folds ↔ r.path ∉ v.folds) ∧
      (∀ p, p ≠ r.path → (p ∈ (v.press .enter).folds ↔ p ∈ v.folds)) ∧
      (v.press .enter).selected = v.selected ∧ (v.press .enter).selectedRow = some r := by
  rw [press, toggle_eq hr, if_neg ne]
  split_ifs with folded
  case pos =>
    refine ⟨?_, fun p other => ?_, rfl, h.selectedRow_unfold hr⟩
    · simp [h.mem_folds_unfold, folded]
    · simp [h.mem_folds_unfold, other]
  case neg =>
    refine ⟨?_, fun p other => ?_, rfl, selectedRow_fold hr⟩
    · simp [mem_folds_fold, folded]
    · simp [mem_folds_fold, other]

-- The row is still there to be folded or opened again, and folds that have the same members are
-- the same, for they are in order.
theorem Sound.enter_twice (h : v.Sound) (hr : v.selectedRow = some r) (ne : r.node.slots ≠ []) :
    ((v.press .enter).press .enter).folds = v.folds ∧
      ((v.press .enter).press .enter).selected = v.selected ∧
      ((v.press .enter).press .enter).rows = v.rows := by
  have h₁ : (v.press .enter).Sound := h.of_effect (effect_press .enter)
  have h₂ : ((v.press .enter).press .enter).Sound := h₁.of_effect (effect_press .enter)
  obtain ⟨flips₁, others₁, selected₁, hr₁⟩ := h.enter hr ne
  obtain ⟨flips₂, others₂, selected₂, _⟩ := h₁.enter hr₁ ne
  have folds_eq : ((v.press .enter).press .enter).folds = v.folds := by
    refine h₂.ordered.eq_of_mem_iff h.ordered fun p => ?_
    by_cases here : p = r.path
    case pos => rw [here, flips₂, flips₁, not_not]
    case neg => rw [others₂ p here, others₁ p here]
  refine ⟨folds_eq, selected₂.trans selected₁, ?_⟩
  rw [rows, folds_eq, (effect_press .enter).root_eq, (effect_press .enter).root_eq, rows]

theorem Sound.steers (h : v.Sound) (hr : v.selectedRow = some r) : v.Steers r where
  left_fold     := by
    intro ne unfolded
    rw [press, ascend_eq hr, if_neg (not_or.mpr ⟨ne, unfolded⟩)]
    exact ⟨fun p => mem_folds_fold, rfl, selectedPath_eq (selectedRow_fold hr)⟩
  left_ascend   := by
    intro stays below
    obtain ⟨i, parent, found, path_eq, eq⟩ := exists_selectParent_eq hr below
    rw [press, ascend_eq hr, if_pos stays, eq, ← path_eq]
    exact ⟨folds_select, selectedPath_eq (selectedRow_select found)⟩
  left_root     := by
    intro stays top
    rw [press, ascend_eq hr, if_pos stays, top]
    rfl
  right_leaf    := by
    intro leaf
    rw [press, descend_eq hr, if_pos leaf]
  right_unfold  := by
    intro folded
    rw [press, descend_eq hr, if_neg (h.slots_ne_nil hr folded), if_pos folded]
    exact ⟨fun p => h.mem_folds_unfold, selectedPath_eq (h.selectedRow_unfold hr)⟩
  right_descend := by
    intro ne unfolded
    obtain ⟨first, found, path_eq⟩ := Node.getElem?_rows_succ hr unfolded ne
    rw [press, descend_eq hr, if_neg ne, if_neg unfolded, ← path_eq]
    exact ⟨folds_select, selectedPath_eq (selectedRow_select found)⟩
  enter         := by
    intro ne
    obtain ⟨flips, others, _, stays⟩ := h.enter hr ne
    exact ⟨flips, others, selectedPath_eq stays⟩
  enter_twice   := h.enter_twice hr

end

-- Some row is selected at all times, and nothing is folded that has nothing to hide.
theorem selected_lt_and_leads_of_run (root : Node) (source path : String) (events : List Event) :
    let v := (start root source path).run events
    v.selected < v.rows.length ∧ ∀ p ∈ v.folds, ∃ n, root.follow p = some n ∧ n.slots ≠ [] := by
  have h := sound_run root source path events
  have root_eq : ((start root source path).run events).root = root := root_run events
  refine ⟨h.selected_lt, fun p hp => ?_⟩
  rw [← root_eq]
  exact h.leads p hp

theorem exists_steers_of_run (root : Node) (source path : String) (events : List Event) :
    let v := (start root source path).run events
    ∃ r, v.selectedRow = some r ∧ v.Steers r := by
  have h := sound_run root source path events
  obtain ⟨r, hr⟩ := h.exists_selectedRow
  exact ⟨r, hr, h.steers hr⟩

end Viewer
end WispSyntax

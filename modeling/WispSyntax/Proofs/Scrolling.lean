import WispSyntax.Proofs.Drawing
import WispSyntax.Proofs.Navigation
import WispSyntax.Proofs.Places

/-!
The selection stays in view. Wherever the panes stood before, a draw scrolls the tree to the
selected row and the text to the line of the selected node (`inView_scrollTo`), and if there is room
for them the screen shows both (`draw_inView`). Another draw of the same size finds nothing left to
scroll (`draw_draw`).
-/

namespace WispSyntax

namespace SourceScroll
variable {s : SourceScroll} {room current total : Nat}

theorem row_lt (pos : 0 < room) : s.row room < room := by
  simp only [row]
  omega

theorem offset_follow (inside : 0 < current ∧ current ≤ total) :
    (s.follow room current total).offset = min (current - 1 - s.row room) (total - room) := by
  simp [follow, inside]

-- The current line is shown, and no row below the text unless the text is shorter than the pane.
theorem follow_inView (pos : 0 < room) (inside : 0 < current ∧ current ≤ total) :
    (s.follow room current total).offset ≤ current - 1 ∧
      current - 1 < (s.follow room current total).offset + room ∧
      (total ≤ room → (s.follow room current total).offset = 0) ∧
      (room < total → (s.follow room current total).offset + room ≤ total) := by
  have lt := row_lt (s := s) pos
  rw [offset_follow inside]
  omega

-- The row that was drawn last is kept, for it has been moved into the pane already.
theorem row_follow : (s.follow room current total).row room = s.row room := by
  have le : s.row room ≤ room - 1 := Nat.min_le_right _ _
  exact Nat.min_eq_left le

theorem follow_follow :
    (s.follow room current total).follow room current total = s.follow room current total := by
  rw [follow, row_follow, follow]
  split <;> rfl

end SourceScroll

namespace Node

theorem mem_inOrder_of_follow {n m : Node} {p : Path} (h : n.follow p = some m) :
    m ∈ n.inOrder := by
  induction p generalizing n
  case nil =>
    cases h
    exact mem_inOrder_iff.mpr (.inl rfl)
  case cons i p hi =>
    obtain ⟨s, hs, leads⟩ := Option.bind_eq_some_iff.mp h
    have branch := mem_branches_of_mem_slots (List.mem_of_getElem? hs)
    exact mem_inOrder_iff.mpr (.inr ⟨s.2, branch, hi leads⟩)

end Node

namespace Parser
variable {text : String} {root : Node}

theorem location_of_parse (h : parse text = .ok root) : root.location = ⟨1, 1⟩ := by
  obtain ⟨s, _, _, rfl⟩ := parse_eq_ok_iff.mp h
  rfl

-- Every node of a text that is not empty stands on one of its lines.
theorem line_of_parse (h : parse text = .ok root) (ne : text ≠ "") {n : Node}
    (hn : n ∈ root.inOrder) :
    0 < n.location.line ∧ n.location.line ≤ (splitLines text.toList).length := by
  rw [(isProgram_of_parse h).inOrder_eq] at hn
  rcases List.mem_cons.mp hn with rfl | hn
  case inl =>
    have lines_ne : splitLines text.toList ≠ [] := by
      rw [ne_eq, splitLines_eq_nil_iff, String.toList_eq_nil_iff]
      exact ne
    have pos := List.length_pos_iff.mpr lines_ne
    simp only [location_of_parse h]
    omega
  case inr =>
    obtain ⟨ys, sub, marks⟩ := marks_of_parse h
    obtain ⟨l, hl, mark⟩ := exists_marks marks hn
    obtain ⟨_, _, _, pos, front, found, _⟩ := textAt_of_marks mark (sub.subset hl)
    have lt := (List.getElem?_eq_some_iff.mp found).1
    omega

end Parser

namespace Viewer

-- How the panes stand around the row `r` and its line, the text having so many lines.
structure InView (v : Viewer) (room total : Nat) (r : Row) : Prop where
  selected_le : v.scroll ≤ v.selected
  selected_lt : v.selected < v.scroll + room
  target      : ∃ row, v.listing.target = some row ∧ row < room
  line        : 0 < r.node.location.line ∧ r.node.location.line ≤ total
  line_le     : v.listing.offset ≤ r.node.location.line - 1
  line_lt     : r.node.location.line - 1 < v.listing.offset + room
  short       : total ≤ room → v.listing.offset = 0
  filled      : room < total → v.listing.offset + room ≤ total

section
variable {v : Viewer} {r : Row} {width height : Nat}

theorem source_select (i : Nat) : (v.select i).source = v.source := by
  dsimp only [select]
  split <;> rfl

theorem source_descend : v.descend.source = v.source := by
  unfold descend
  split
  · rfl
  · split
    · rfl
    · rfl
    · exact source_select _

theorem source_selectParent (p : Path) : (v.selectParent p).source = v.source := by
  unfold selectParent
  split
  · rfl
  · split
    · rfl
    · exact source_select _

theorem source_ascend : v.ascend.source = v.source := by
  unfold ascend
  split
  · rfl
  · split
    · rfl
    · exact source_selectParent _

theorem source_toggle : v.toggle.source = v.source := by
  unfold toggle
  split
  · rfl
  · split <;> rfl

theorem source_handle (v : Viewer) (e : Event) : (v.handle e).source = v.source := by
  rcases e with k | _
  case draw => rfl
  cases k
  case up | down =>
    simp only [handle, press]
    split
    · exact source_select _
    · rfl
  case home | bottom      => exact source_select _
  case right              => exact source_descend
  case left               => exact source_ascend
  case enter              => exact source_toggle
  case tab | escape | other => rfl
  case char c =>
    simp only [handle, press]
    split <;> rfl

theorem source_run (events : List Event) : (v.run events).source = v.source :=
  run_induction (P := (·.source = v.source)) rfl (fun w e eq => (source_handle w e).trans eq) events

theorem currentLine_eq (hr : v.selectedRow = some r) : v.currentLine = r.node.location.line := by
  rw [currentLine, hr]
  rfl

theorem length_lines (source : String) :
    (SourcePane.lines source).length = (splitLines source.toList).length := by
  rw [SourcePane.lines, List.length_map]

theorem listing_scrollTo (hr : v.selectedRow = some r) :
    (v.scrollTo height).listing = v.listing.follow (Pane.room (height - 1)) r.node.location.line
      (splitLines v.source.toList).length := by
  rw [← currentLine_eq hr, ← length_lines]
  rfl

-- No matter how the panes stood before.
theorem inView_scrollTo (height : Nat) (hr : v.selectedRow = some r)
    (line : 0 < r.node.location.line ∧
      r.node.location.line ≤ (splitLines v.source.toList).length) :
    (v.scrollTo height).InView (Pane.room (height - 1)) (splitLines v.source.toList).length r := by
  have pos := Pane.room_pos (height - 1)
  obtain ⟨line_le, line_lt, short, filled⟩ :=
    SourceScroll.follow_inView (s := v.listing) pos line
  rw [← listing_scrollTo hr] at line_le line_lt short filled
  exact ⟨TreePane.follow_le pos, TreePane.lt_follow_add _ _ _ pos,
    ⟨_, rfl, SourceScroll.row_lt pos⟩, line, line_le, line_lt, short, filled⟩

def treePane (v : Viewer) (height : Nat) : Pane :=
  TreePane.pane v.rows v.folds v.selected v.scroll (Pane.room (height - 1)) (v.focus = .tree)

def sourcePane (v : Viewer) (height : Nat) : Pane :=
  SourcePane.pane (SourcePane.lines v.source) v.currentLine v.listing.offset
    (Pane.room (height - 1)) (v.focus = .source)

theorem screen_eq : v.screen width height =
    Screen.beside ((v.treePane height).draw (Screen.halves width).1 (height - 1))
      ((v.sourcePane height).draw (Screen.halves width).2 (height - 1)) ++
      v.statusBar.draw width (min height 1) :=
  rfl

-- Below the edges a row of the screen is a row of the tree beside a line of the text.
theorem getElem?_screen {i : Nat} (lt : i < height - 1 - 2) :
    (v.screen width height)[i + 1]? =
      some ((v.treePane height).lineRow (Screen.halves width).1
          ((v.treePane height).lines[i]?.getD []) ++
        (v.sourcePane height).lineRow (Screen.halves width).2
          ((v.sourcePane height).lines[i]?.getD [])) := by
  have row := Screen.getElem?_beside
    ((v.treePane height).getElem?_draw (Screen.halves width).1 lt)
    ((v.sourcePane height).getElem?_draw (Screen.halves width).2 lt)
  rw [screen_eq, List.getElem?_append_left (List.getElem?_eq_some_iff.mp row).1, row]

theorem shows_screen (v : Viewer) {i : Nat} (wide : 4 ≤ width) (lt : i < height - 1 - 2) :
    (v.screen width height).Shows (i + 1) 0 (Screen.halves width).1
        ((v.treePane height).lines[i]?.getD []) ∧
      (v.screen width height).Shows (i + 1) (Screen.halves width).1 (Screen.halves width).2
        ((v.sourcePane height).lines[i]?.getD []) := by
  have left : 2 ≤ (Screen.halves width).1 := by simp only [Screen.halves]; omega
  have right : 2 ≤ (Screen.halves width).2 := by simp only [Screen.halves]; omega
  refine ⟨⟨_, getElem?_screen lt, Pane.within_lineRow _ _ left [] _⟩, ⟨_, getElem?_screen lt, ?_⟩⟩
  have inside := Pane.within_lineRow (v.sourcePane height)
    ((v.sourcePane height).lines[i]?.getD []) right
    ((v.treePane height).lineRow (Screen.halves width).1 ((v.treePane height).lines[i]?.getD [])) []
  rwa [Pane.lineRow_length left, List.append_nil] at inside

theorem room_eq (high : 4 ≤ height) : Pane.room (height - 1) = height - 1 - 2 := by
  simp only [Pane.room]
  omega

theorem not_lit_treePane {i : Nat} (lt : i < Pane.room (height - 1))
    (other : v.scroll + i ≠ v.selected) : ¬Screen.Lit Theme.selection
      (Screen.writeLeft width {} ((v.treePane height).lines[i]?.getD [])) := by
  refine Screen.not_lit_writeLeft (by simp) ?_
  rw [treePane, TreePane.getElem?_lines lt, decide_eq_false other]
  cases v.rows[v.scroll + i]?
  case none => simp
  case some r' =>
    intro s hs
    simp [Row.bg_spans_other hs]

theorem not_lit_sourcePane {i : Nat} (lt : i < Pane.room (height - 1)) :
    ¬Screen.Lit Theme.selection
      (Screen.writeLeft width {} ((v.sourcePane height).lines[i]?.getD [])) := by
  refine Screen.not_lit_writeLeft (by simp) ?_
  rw [sourcePane, SourcePane.getElem?_lines lt]
  cases (SourcePane.lines v.source)[v.listing.offset + i]?
  case none => simp
  case some line =>
    intro s hs
    rcases SourcePane.bg_of_mem_lineSpans hs with eq | eq <;> rw [eq] <;> decide

-- No row of the screen has the colour of the selection but that of the selected row.
theorem eq_of_isLit_screen {y : Nat} (high : 4 ≤ height)
    (lit : (v.screen width height).IsLit y Theme.selection) :
    y ≠ 0 ∧ v.scroll + (y - 1) = v.selected := by
  have plain (focused : Bool) : (Theme.border focused).bg ≠ some Theme.selection := by
    simp [Theme.bg_border]
  rw [screen_eq] at lit
  rcases Screen.isLit_of_append lit with lit | ⟨_, lit⟩
  case inr => exact absurd lit (StatusBar.not_isLit_draw (by decide))
  rcases Screen.isLit_of_beside lit with lit | lit
  case inl =>
    obtain ⟨i, lt, rfl, line⟩ := Pane.exists_of_isLit_draw (p := v.treePane height) (plain _) lit
    rw [← room_eq high] at lt
    exact ⟨i.succ_ne_zero, not_not.mp fun other => not_lit_treePane lt other line⟩
  case inr =>
    obtain ⟨i, lt, rfl, line⟩ := Pane.exists_of_isLit_draw (p := v.sourcePane height) (plain _) lit
    rw [← room_eq high] at lt
    exact absurd line (not_lit_sourcePane lt)

section
variable {total : Nat} (h : v.InView (Pane.room (height - 1)) total r)
  (hr : v.selectedRow = some r)
include h hr

theorem InView.treePane_lines :
    (v.treePane height).lines[v.selected - v.scroll]? = some (r.spans v.folds true) := by
  have le := h.selected_le
  have lt := h.selected_lt
  have found : v.rows[v.selected]? = some r := hr
  rw [treePane, TreePane.getElem?_lines (by omega), Nat.add_sub_cancel' le, found]
  simp

-- The one row of the screen in the colour of the selection is that of the selected row.
theorem InView.shows_selected (high : 4 ≤ height) (wide : 6 ≤ width) :
    ∃ y, (v.screen width height).Shows y 0 (Screen.halves width).1 (r.spans v.folds true) ∧
      ∀ y', (v.screen width height).IsLit y' Theme.selection ↔ y' = y := by
  have le := h.selected_le
  have lt := h.selected_lt
  have left : 3 ≤ (Screen.halves width).1 := by simp only [Screen.halves]; omega
  have room := room_eq high
  have inside : v.selected - v.scroll < height - 1 - 2 := by omega
  have line := h.treePane_lines hr
  refine ⟨v.selected - v.scroll + 1, ?_, fun y => ⟨fun lit => ?_, ?_⟩⟩
  · have wide : 4 ≤ width := by omega
    have shown := (shows_screen v wide inside).1
    rwa [line] at shown
  · obtain ⟨pos, eq⟩ := eq_of_isLit_screen high lit
    omega
  · rintro rfl
    refine ⟨_, getElem?_screen inside, Screen.lit_append.mpr (.inl ?_)⟩
    rw [line]
    refine Pane.lit_lineRow (by omega) ?_
    exact Screen.lit_writeLeft Row.cells_spans_ne_nil (by omega) fun s => Row.bg_spans_selected

theorem InView.shows_line (high : 4 ≤ height) (wide : 6 ≤ width)
    (total_eq : total = (splitLines v.source.toList).length) :
    ∃ y line, (splitLines v.source.toList)[r.node.location.line - 1]? = some line ∧
      (v.screen width height).Shows y (Screen.halves width).1 (Screen.halves width).2
        (SourcePane.lineSpans r.node.location.line true (String.ofList line)) := by
  obtain ⟨pos, le⟩ := h.line
  have line_le := h.line_le
  have line_lt := h.line_lt
  have room := room_eq high
  have inside : r.node.location.line - 1 - v.listing.offset < height - 1 - 2 := by omega
  obtain ⟨line, found⟩ : ∃ line,
      (splitLines v.source.toList)[r.node.location.line - 1]? = some line :=
    ⟨_, List.getElem?_eq_getElem (by omega)⟩
  refine ⟨r.node.location.line - 1 - v.listing.offset + 1, line, found, ?_⟩
  have wide : 4 ≤ width := by omega
  have shown := (shows_screen v wide inside).2
  rw [sourcePane, SourcePane.getElem?_lines (by omega), Nat.add_sub_cancel' line_le,
    currentLine_eq hr, Nat.sub_add_cancel pos, SourcePane.lines, List.getElem?_map, found] at shown
  simpa using shown

end
end

-- After any draw the selected row and the line of its node are in view, with no empty rows below a
-- text that fills its pane; and where the panes have room for a line, the screen shows both.
theorem draw_inView {text : String} {root : Node} (h : parse text = .ok root) (ne : text ≠ "")
    (path : String) (events : List Event) (width height : Nat) :
    let (v, screen) := ((start root text path).run events).draw width height
    let (left, right) := Screen.halves width
    ∃ r, v.selectedRow = some r ∧
      v.InView (max (height - 1 - 2) 1) (splitLines text.toList).length r ∧
      (4 ≤ height → 6 ≤ width →
        (∃ y, screen.Shows y 0 left (r.spans v.folds true) ∧
          ∀ y', screen.IsLit y' Theme.selection ↔ y' = y) ∧
        ∃ y line, (splitLines text.toList)[r.node.location.line - 1]? = some line ∧
          screen.Shows y left right
            (SourcePane.lineSpans r.node.location.line true (String.ofList line))) := by
  have sound := sound_run root text path events
  have root_eq : ((start root text path).run events).root = root := root_run events
  have source_eq : ((start root text path).run events).source = text := source_run events
  generalize (start root text path).run events = v at sound root_eq source_eq
  obtain ⟨r, hr⟩ := sound.exists_selectedRow
  have leads := follow_of_selectedRow hr
  rw [root_eq] at leads
  have line := Parser.line_of_parse h ne (Node.mem_inOrder_of_follow leads)
  rw [← source_eq] at line ⊢
  have inView := inView_scrollTo height hr line
  refine ⟨r, hr, inView, fun high wide => ⟨?_, ?_⟩⟩
  · exact inView.shows_selected hr high wide
  · exact inView.shows_line hr high wide rfl

theorem draw_inView_last :
    ∃ root, parse "a + b\nc" = .ok root ∧ "a + b\nc" ≠ "" ∧
      let (v, screen) := ((start root "a + b\nc" "main.wp").run
        [.press .bottom, .draw 9 9, .press .tab, .press .up]).draw 6 4
      ∃ r, v.selectedRow = some r ∧ v.InView 1 2 r ∧
        (∃ y, screen.Shows y 0 3 (r.spans v.folds true) ∧
          ∀ y', screen.IsLit y' Theme.selection ↔ y' = y) ∧
        ∃ y line, (splitLines "a + b\nc".toList)[r.node.location.line - 1]? = some line ∧
          screen.Shows y 3 3
            (SourcePane.lineSpans r.node.location.line true (String.ofList line)) := by
  let name (text : String) (place : Location) : Node := .leaf .identifier text place
  let sum : Node := .between .add (name "a" ⟨1, 1⟩) (name "b" ⟨1, 5⟩) ⟨1, 3⟩
  have h : parse "a + b\nc" =
      .ok { kind := .root, children := [sum, name "c" ⟨2, 1⟩], location := ⟨1, 1⟩ } := rfl
  have ne : "a + b\nc" ≠ "" := by decide
  obtain ⟨r, hr, inView, shown⟩ := draw_inView h ne "main.wp"
    [.press .bottom, .draw 9 9, .press .tab, .press .up] 6 4
  exact ⟨_, h, ne, r, hr, inView, shown (by decide) (by decide)⟩

section
variable (v : Viewer) (width height : Nat)

theorem currentLine_scrollTo : (v.scrollTo height).currentLine = v.currentLine :=
  rfl

theorem scrollTo_scrollTo : (v.scrollTo height).scrollTo height = v.scrollTo height := by
  have pos := Pane.room_pos (height - 1)
  rw [scrollTo, currentLine_scrollTo]
  simp only [scrollTo, TreePane.follow_follow pos, SourceScroll.follow_follow]

-- Whatever state the viewer is in, the first draw of a size brings the panes to where the next ones
-- leave them, and there is nothing else in the viewer that a draw touches.
theorem draw_draw :
    let (drawn, screen) := v.draw width height
    drawn.draw width height = (drawn, screen) ∧
      drawn = { v with scroll := drawn.scroll, listing := drawn.listing } := by
  refine ⟨?again, rfl⟩
  case again =>
    simp only [draw, scrollTo_scrollTo]

end
end Viewer
end WispSyntax

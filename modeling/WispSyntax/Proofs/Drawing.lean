import Mathlib.Tactic.SplitIfs
import WispSyntax.Viewer

/-!
What stands where on a screen. The lines of a pane stand below its edge, one in each row
(`getElem?_draw`), and where a row shows a colour that is not in the border, it comes from such a
line (`exists_of_isLit_draw`). Nothing that is drawn in the panes has the colour of the selection but
the selected row.
-/

namespace WispSyntax

namespace Screen

-- The cells of a row between the walls of a pane that begins at a column.
def within (column width : Nat) (row : List Cell) : List Cell :=
  (row.drop (column + 1)).take (width - 2)

-- The row of a pane shows the line.
def Shows (s : Screen) (y column width : Nat) (line : List Span) : Prop :=
  ∃ row, s[y]? = some row ∧ within column width row = writeLeft (width - 2) {} line

-- Some cell has the colour as its background.
def Lit (color : Color) (row : List Cell) : Prop :=
  ∃ c ∈ row, c.style.bg = some color

def IsLit (s : Screen) (y : Nat) (color : Color) : Prop :=
  ∃ row, s[y]? = some row ∧ Lit color row

section
variable {color : Color} {base : Style} {spans : List Span} {width : Nat} {row row' : List Cell}

@[simp]
theorem lit_append : Lit color (row ++ row') ↔ Lit color row ∨ Lit color row' := by
  simp [Lit, or_and_right, exists_or]

@[simp]
theorem lit_cons {c : Cell} : Lit color (c :: row) ↔ c.style.bg = some color ∨ Lit color row := by
  simp [Lit]

theorem not_lit_of_mem {style : Style} (bg : style.bg ≠ some color)
    (h : ∀ c ∈ row, c.style = style) : ¬Lit color row := by
  rintro ⟨c, hc, lit⟩
  exact bg (h c hc ▸ lit)

theorem exists_span_of_mem_cells {c : Cell} (h : c ∈ cells base spans) :
    ∃ s ∈ spans, c.style = s.style.atop base := by
  obtain ⟨s, hs, hc⟩ := List.mem_flatMap.mp h
  obtain ⟨_, _, rfl⟩ := List.mem_map.mp hc
  exact ⟨s, hs, rfl⟩

theorem not_lit_cells (plain : base.bg ≠ some color) (h : ∀ s ∈ spans, s.style.bg ≠ some color) :
    ¬Lit color (cells base spans) := by
  rintro ⟨c, hc, lit⟩
  obtain ⟨s, hs, style_eq⟩ := exists_span_of_mem_cells hc
  rw [style_eq, Style.atop, Option.or_eq_some_iff] at lit
  rcases lit with lit | ⟨_, lit⟩
  · exact h s hs lit
  · exact plain lit

theorem not_lit_writeLeft (plain : base.bg ≠ some color)
    (h : ∀ s ∈ spans, s.style.bg ≠ some color) : ¬Lit color (writeLeft width base spans) := by
  rw [writeLeft, lit_append, not_or]
  refine ⟨?_, not_lit_of_mem plain fun c hc => by rw [List.eq_of_mem_replicate hc]⟩
  rintro ⟨c, hc, lit⟩
  exact not_lit_cells plain h ⟨c, List.mem_of_mem_take hc, lit⟩

theorem not_lit_writeRight (plain : base.bg ≠ some color)
    (h : ∀ s ∈ spans, s.style.bg ≠ some color) : ¬Lit color (writeRight width base spans) := by
  rw [writeRight, lit_append, not_or]
  refine ⟨not_lit_of_mem plain fun c hc => by rw [List.eq_of_mem_replicate hc], ?_⟩
  rintro ⟨c, hc, lit⟩
  exact not_lit_cells plain h ⟨c, List.mem_of_mem_take hc, lit⟩

-- A text in one colour shows it wherever there is room for a character.
theorem lit_writeLeft (ne : cells base spans ≠ []) (pos : 0 < width)
    (h : ∀ s ∈ spans, s.style.bg = some color) : Lit color (writeLeft width base spans) := by
  obtain ⟨c, rest, cells_eq⟩ := List.exists_cons_of_ne_nil ne
  obtain ⟨s, hs, style_eq⟩ := exists_span_of_mem_cells (cells_eq ▸ List.mem_cons_self)
  obtain ⟨width, rfl⟩ := Nat.exists_eq_succ_of_ne_zero (Nat.ne_of_gt pos)
  refine ⟨c, ?_, by rw [style_eq, Style.atop, h s hs, Option.some_or]⟩
  rw [writeLeft, cells_eq]
  simp

end

section
variable {left right : Screen} {color : Color} {y : Nat}

theorem getElem?_beside {row row' : List Cell} (h : left[y]? = some row)
    (h' : right[y]? = some row') : (beside left right)[y]? = some (row ++ row') := by
  simp [beside, List.getElem?_zipWith, h, h']

theorem isLit_of_beside (h : (beside left right).IsLit y color) :
    left.IsLit y color ∨ right.IsLit y color := by
  obtain ⟨row, found, lit⟩ := h
  obtain ⟨front, back, hl, hr, rfl⟩ := List.getElem?_zipWith_eq_some.mp found
  exact (lit_append.mp lit).imp (⟨front, hl, ·⟩) (⟨back, hr, ·⟩)

theorem isLit_of_append (h : IsLit (left ++ right) y color) :
    left.IsLit y color ∨ ∃ z, right.IsLit z color := by
  obtain ⟨row, found, lit⟩ := h
  rw [List.getElem?_append] at found
  split at found
  · exact .inl ⟨row, found, lit⟩
  · exact .inr ⟨_, row, found, lit⟩

end

end Screen

namespace Pane

open Screen

section
variable {p : Pane} {width height i : Nat} {line : List Span} {color : Color}

theorem getElem?_body (lt : i < height) :
    (p.body width height)[i]? = some (p.lineRow width (p.lines[i]?.getD [])) := by
  rw [body, List.getElem?_map, List.getElem?_append, List.length_take, List.getElem?_take_of_lt lt,
    List.getElem?_replicate]
  by_cases here : i < p.lines.length
  case pos => rw [if_pos (by omega), List.getElem?_eq_getElem here]; rfl
  case neg =>
    rw [if_neg (by omega), if_pos (by omega), List.getElem?_eq_none (by omega)]
    rfl

-- Below its upper edge a pane has its lines.
theorem getElem?_draw (p : Pane) (width : Nat) (lt : i < height - 2) :
    (p.draw width height)[i + 1]? = some (p.lineRow width (p.lines[i]?.getD [])) := by
  obtain ⟨height, rfl⟩ : ∃ n, height = n + 2 := ⟨height - 2, by omega⟩
  rw [draw, List.cons_append, List.getElem?_cons_succ, List.getElem?_append_left]
  · exact getElem?_body lt
  · rwa [body_length]

theorem lineRow_eq (le : 2 ≤ width) :
    p.lineRow width line =
      { char := '│', style := p.border } :: writeLeft (width - 2) {} line ++
        [{ char := '│', style := p.border }] := by
  obtain ⟨width, rfl⟩ := Nat.exists_eq_add_of_le' le
  rfl

theorem lineRow_length (le : 2 ≤ width) : (p.lineRow width line).length = width := by
  rw [lineRow_eq le, List.length_append, List.length_cons, writeLeft_length, List.length_singleton]
  omega

-- The line of a pane, with what stands on both sides of the pane.
theorem within_lineRow (p : Pane) (line : List Span) (le : 2 ≤ width) (front rest : List Cell) :
    within front.length width (front ++ (p.lineRow width line ++ rest)) =
      writeLeft (width - 2) {} line := by
  rw [lineRow_eq le, within, List.drop_length_add_append]
  simp only [List.cons_append, List.drop_succ_cons, List.drop_zero, List.append_assoc]
  exact List.take_left' (writeLeft_length _ _ _)

theorem mem_enclose {border : Style} {l r : Char} {inside : Nat → List Cell} {c : Cell}
    (h : c ∈ enclose border l r width inside) : c.style = border ∨ c ∈ inside (width - 2) := by
  unfold enclose at h
  split at h
  case h_1 => cases h
  case h_2 => exact .inl (by rw [List.mem_singleton.mp h])
  case h_3 =>
    simp only [List.cons_append, List.mem_cons, List.mem_append, List.not_mem_nil, or_false] at h
    rcases h with rfl | h | rfl
    · exact .inl rfl
    · exact .inr h
    · exact .inl rfl

theorem style_of_mem_edge {border : Style} {title : String} {c : Cell}
    (h : c ∈ edge border title width) : c.style = border := by
  obtain ⟨_, _, rfl⟩ := List.mem_map.mp h
  rfl

section
variable (plain : p.border.bg ≠ some color)
include plain

theorem not_lit_topRow : ¬Lit color (p.topRow width) :=
  not_lit_of_mem plain fun _ hc => (mem_enclose hc).elim id style_of_mem_edge

theorem not_lit_bottomRow : ¬Lit color (p.bottomRow width) :=
  not_lit_of_mem plain fun _ hc => (mem_enclose hc).elim id style_of_mem_edge

theorem lit_of_lineRow (h : Lit color (p.lineRow width line)) :
    Lit color (writeLeft (width - 2) {} line) := by
  obtain ⟨c, hc, lit⟩ := h
  rcases mem_enclose hc with border | inside
  · exact absurd (border ▸ lit) plain
  · exact ⟨c, inside, lit⟩

-- Only its lines bring a colour into a pane that is not in its border.
theorem exists_of_isLit_draw {y : Nat} (h : (p.draw width height).IsLit y color) :
    ∃ i < height - 2, y = i + 1 ∧
      Lit color (writeLeft (width - 2) {} (p.lines[i]?.getD [])) := by
  obtain ⟨row, found, lit⟩ := h
  unfold draw at found
  split at found
  case h_1 => simp at found
  case h_2 =>
    obtain rfl : row = p.topRow width := by simpa using List.mem_of_getElem? found
    exact absurd lit (not_lit_topRow plain)
  case h_3 height =>
    rw [List.cons_append] at found
    rcases y with _ | i
    case zero =>
      obtain rfl : p.topRow width = row := by simpa using found
      exact absurd lit (not_lit_topRow plain)
    case succ =>
      rw [List.getElem?_cons_succ, List.getElem?_append, body_length] at found
      split at found
      case isTrue lt =>
        rw [getElem?_body lt] at found
        obtain rfl := Option.some.inj found
        exact ⟨i, lt, rfl, lit_of_lineRow plain lit⟩
      case isFalse =>
        obtain rfl : row = p.bottomRow width := by simpa using List.mem_of_getElem? found
        exact absurd lit (not_lit_bottomRow plain)

end

theorem lit_lineRow (le : 2 ≤ width) (h : Lit color (writeLeft (width - 2) {} line)) :
    Lit color (p.lineRow width line) := by
  rw [lineRow_eq le]
  simp [h]

end
end Pane

namespace StatusBar
variable {s : StatusBar} {color : Color} {span : Span}

theorem bg_of_mem_state (h : span ∈ s.state) :
    span.style.bg = some Theme.primary ∨ span.style.bg = some Theme.currentLine := by
  simp only [state, List.mem_cons, List.not_mem_nil, or_false] at h
  rcases h with rfl | rfl | rfl | rfl
  · exact .inl rfl
  all_goals exact .inr rfl

theorem bg_of_mem_keys (h : span ∈ keys) :
    span.style.bg = some Theme.comment ∨ span.style.bg = some Theme.currentLine := by
  revert span
  decide

-- The colours behind the text of the status bar are its own.
theorem not_isLit_draw {width height y : Nat}
    (other : color ∉ [Theme.currentLine, Theme.primary, Theme.comment]) :
    ¬(s.draw width height).IsLit y color := by
  simp only [List.mem_cons, List.not_mem_nil, or_false, not_or] at other
  obtain ⟨currentLine, primary, comment⟩ := other
  have bar : StatusBar.plain.bg ≠ some color := fun eq => currentLine (Option.some.inj eq).symm
  rintro ⟨row, found, lit⟩
  have mem := List.mem_of_getElem? found
  rcases height with _ | height
  case zero => cases mem
  case succ =>
    rcases List.mem_cons.mp mem with rfl | mem
    · rw [Screen.lit_append] at lit
      refine lit.elim (Screen.not_lit_writeLeft bar fun span h => ?_)
        (Screen.not_lit_writeRight bar fun span h => ?_)
      · rcases bg_of_mem_state h with eq | eq <;> rw [eq] <;> grind
      · rcases bg_of_mem_keys h with eq | eq <;> rw [eq] <;> grind
    · rw [List.eq_of_mem_replicate mem] at lit
      exact Screen.not_lit_writeLeft bar (by simp) lit

end StatusBar

namespace Row
variable {r : Row} {folds : Folds} {s : Span}

theorem bg_spans_selected (h : s ∈ r.spans folds true) : s.style.bg = some Theme.selection := by
  obtain ⟨_, _, rfl⟩ := List.mem_map.mp h
  rfl

theorem bg_spans_other (h : s ∈ r.spans folds false) : s.style.bg = none := by
  simp only [spans, Bool.false_eq_true, if_false, List.mem_cons, List.not_mem_nil, or_false] at h
  rcases h with rfl | rfl | rfl | rfl | rfl <;> rfl

theorem marker_ne : (r.marker folds).toList ≠ [] := by
  unfold marker
  split <;> decide

-- The row of a node is never empty: there is its marker.
theorem cells_spans_ne_nil : Screen.cells {} (r.spans folds true) ≠ [] := by
  intro nil
  let marker : Span :=
    { text := r.marker folds, style := { fg := some Theme.comment, bg := some Theme.selection } }
  have here : marker ∈ r.spans folds true := by simp [spans, marker, Style.onto]
  have none := List.flatMap_eq_nil_iff.mp nil marker here
  exact marker_ne (List.map_eq_nil_iff.mp none)

end Row

namespace Highlight

-- The colours of a line are all in front.
theorem bg_wordStyle (word previous : List Char) (called cast : Bool) :
    (wordStyle word previous called cast).bg = none := by
  unfold wordStyle
  split_ifs <;> rfl

theorem bg_symbolStyle (c : Char) : (symbolStyle c).bg = none := by
  unfold symbolStyle
  split_ifs <;> rfl

theorem bg_piece (before previous : List Char) (c : Char) (rest : List Char) :
    (piece before previous c rest).style.bg = none := by
  unfold piece
  split
  · rfl
  · split
    · exact bg_wordStyle ..
    · exact bg_symbolStyle c

theorem bg_of_mem_spansFrom {before previous : List Char} {skip : Nat} {chars : List Char}
    {s : Span} (h : s ∈ spansFrom before previous skip chars) : s.style.bg = none := by
  fun_induction spansFrom before previous skip chars
  case case1 => cases h
  case case2 hi => exact hi h
  case case3 hi =>
    rcases List.mem_cons.mp h with rfl | h
    · exact bg_piece ..
    · exact hi h

theorem bg_of_mem_spans {line : String} {s : Span} (h : s ∈ spans line) : s.style.bg = none := by
  unfold spans at h
  split at h
  · rw [List.mem_singleton.mp h]
  · exact bg_of_mem_spansFrom h

end Highlight

namespace SourcePane

theorem bg_of_mem_lineSpans {number : Nat} {current : Bool} {line : String} {s : Span}
    (h : s ∈ lineSpans number current line) :
    s.style.bg = none ∨ s.style.bg = some Theme.currentLine := by
  rcases List.mem_cons.mp h with rfl | h
  case inl => exact .inl (by cases current <;> rfl)
  case inr =>
    cases current
    case false => exact .inl (Highlight.bg_of_mem_spans h)
    case true =>
      obtain ⟨_, _, rfl⟩ := List.mem_map.mp h
      exact .inr rfl

theorem getElem?_lines {lines : List String} {current first room i : Nat} {focused : Bool}
    (lt : i < room) : (pane lines current first room focused).lines[i]? =
      lines[first + i]?.map (lineSpans (first + i + 1) (first + i + 1 = current)) := by
  simp [pane, List.getElem?_take_of_lt lt, List.getElem?_drop, List.getElem?_zipIdx,
    Function.comp_def]

end SourcePane

theorem TreePane.getElem?_lines {rows : List Row} {folds : Folds} {selected first room i : Nat}
    {focused : Bool} (lt : i < room) : (pane rows folds selected first room focused).lines[i]? =
      rows[first + i]?.map (·.spans folds (first + i = selected)) := by
  simp [pane, List.getElem?_take_of_lt lt, List.getElem?_drop, List.getElem?_zipIdx,
    Function.comp_def]

theorem Theme.bg_border (focused : Bool) : (Theme.border focused).bg = none := by
  cases focused <;> rfl

end WispSyntax

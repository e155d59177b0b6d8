import WispSyntax.Diagnostic
import WispSyntax.Proofs.Captions
import WispSyntax.Proofs.LineEnds

/-!
Where the caret of a report stands. The line of the program is set off by its number, but the caret
below it by three blanks, however wide the number is, so that it stands to the left of the column
that it is meant for (`report_caret`).
-/

namespace WispSyntax

open CommandLine (unlines)

-- The last two lines of a text.
def EndsIn (text above below : List Char) : Prop :=
  '\n' ∉ above ∧ '\n' ∉ below ∧
    ∃ front, text = front ++ above ++ '\n' :: below ++ ['\n'] ∧ ∀ c ∈ front.getLast?, c = '\n'

section
variable {c : Char} {text : List Char}

theorem endsIn_unlines (lines : List String) {edge above below : String}
    (inner : '\n' ∉ above.toList) (inner' : '\n' ∉ below.toList) :
    EndsIn (unlines (lines ++ [edge, above, below])).toList above.toList below.toList := by
  refine ⟨inner, inner', (unlines (lines ++ [edge])).toList, ?_, ?_⟩
  all_goals simp [unlines, String.join_append]

theorem getElem?_append_mark (free : c ∉ text) (i : Nat) :
    (text ++ [c])[i]? = some c ↔ i = text.length := by
  refine ⟨fun h => ?_, fun h => by simp [h]⟩
  rw [List.getElem?_append] at h
  split at h
  case isTrue  => exact absurd (List.mem_of_getElem? h) free
  case isFalse =>
    have within := (List.getElem?_eq_some_iff.mp h).1
    rw [List.length_singleton] at within
    omega

theorem toList_alignedNumber (width n : Nat) :
    (alignedNumber width n).toList =
      List.replicate (width - (Nat.toDigits 10 n).length) ' ' ++ Nat.toDigits 10 n := by
  simp [alignedNumber, Column.fit, Column.fitChars, Column.cut, Column.lead]

end

namespace Diagnostic

-- How far to the left the caret stands: one place up to line 999, and from there on one place more
-- for each further digit of the number.
def shift (line : Nat) : Nat :=
  max 1 ((Nat.toDigits 10 line).length - 2)

theorem length_alignedNumber (line : Nat) :
    (alignedNumber 3 line).toList.length = shift line + 2 := by
  simp only [toList_alignedNumber, shift, List.length_append, List.length_replicate]
  omega

theorem excerpt_eq (l : Location) (line : String) :
    excerpt false l line =
      ["   |", alignedNumber 3 l.line ++ " | " ++ line,
        String.ofList ("   | ".toList ++ List.replicate (l.column - 1) ' ' ++ ['^'])] := by
  simp [excerpt, paint, toString, ← String.toList_inj]

theorem report_eq {d : Diagnostic} {l : Location} {line : String} (location : d.location = some l)
    (line_eq : d.line = some line) (path : String) :
    ∃ lines, d.report false path = unlines (lines ++ excerpt false l line) := by
  rw [report, reportLines, location, line_eq]
  exact ⟨_, rfl⟩

-- The line above the caret shows the line of the program, and in it the column. The caret, of which
-- there is but one in its line, always stands before that.
theorem report_caret {d : Diagnostic} {l : Location} {line : String}
    (location : d.location = some l) (line_eq : d.line = some line) (inner : '\n' ∉ line.toList)
    (path : String) :
    ∃ above below front, EndsIn (d.report false path).toList above below ∧
      above = front ++ line.toList ∧
      ∀ i, below[i]? = some '^' ↔ i + shift l.line = front.length + (l.column - 1) := by
  obtain ⟨lines, report_eq⟩ := report_eq location line_eq path
  rw [report_eq, excerpt_eq]
  refine ⟨_, _, (alignedNumber 3 l.line ++ " | ").toList, endsIn_unlines lines ?above ?below,
    String.toList_append, fun i => ?_⟩
  case above => simp [toList_alignedNumber, not_mem_toDigits, inner]
  case below => simp
  have free : '^' ∉ "   | ".toList ++ List.replicate (l.column - 1) ' ' := by simp
  rw [String.toList_ofList, getElem?_append_mark free, String.toList_append, List.length_append,
    List.length_append, length_alignedNumber, List.length_replicate]
  have bar : "   | ".toList.length = 5 := rfl
  have bar' : " | ".toList.length = 3 := rfl
  omega

theorem report_caret_thousand :
    let d : Diagnostic :=
      { faultClass := .invalidSymbol, message := "Invalid symbol: `@`", location := some ⟨1000, 3⟩
        line := some "x @ y" }
    ∃ above below front, EndsIn (d.report false "main.wp").toList above below ∧
      above = front ++ "x @ y".toList ∧
      ∀ i, below[i]? = some '^' ↔ i + shift 1000 = front.length + (3 - 1) := by
  intro d
  have inner : '\n' ∉ "x @ y".toList := by decide
  exact @report_caret d _ _ rfl rfl inner "main.wp"

-- The caret of a fault at the sign `@` stands under the blank before it.
theorem caret_not_under_column : ¬∀ (d : Diagnostic) (l : Location) (line path : String),
    d.location = some l → d.line = some line → 1 ≤ l.column → l.column ≤ line.length + 1 →
      '\n' ∉ line.toList → ∀ above below front, EndsIn (d.report false path).toList above below →
        above = front ++ line.toList →
          ∀ i, below[i]? = some '^' → i = front.length + (l.column - 1) := by
  intro under
  let d : Diagnostic :=
    { faultClass := .invalidSymbol, message := "Invalid symbol: `@`", location := some ⟨3, 3⟩
      line := some "x @ y" }
  have ends : EndsIn (d.report false "main.wp").toList "  3 | x @ y".toList "   |   ^".toList :=
    ⟨by decide, by decide, "error[22]: Invalid symbol: `@`\n  --> main.wp:3:3\n   |\n".toList,
      by decide, by simp⟩
  have caret := under d ⟨3, 3⟩ "x @ y" "main.wp" rfl rfl (by decide) (by decide) (by decide) _ _
    "  3 | ".toList ends (by decide) 7 (by decide)
  exact absurd caret (by decide)

end Diagnostic
end WispSyntax

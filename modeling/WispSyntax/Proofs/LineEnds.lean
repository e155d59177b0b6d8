import WispSyntax.CommandLine
import WispSyntax.Proofs.FreeForm

/-!
What lines end with. Line by line, a text has back the lines that it was made of, except for a
carriage return at the end of a line (`splitLines_unlines`). Blanks at the end of a line, and so
carriage returns, are not seen.
-/

namespace WispSyntax

open CommandLine (unlines)

-- A line without the carriage return that belongs to the line feed after it.
def withoutReturn (line : List Char) : List Char :=
  if line.getLast? = some '\r' then line.dropLast else line

section
variable {c : Char} {line rest blanks blanks' : List Char}

theorem withoutReturn_cons (h : IsInner c line) :
    withoutReturn (c :: line) = c :: withoutReturn line := by
  obtain ⟨_, notLast⟩ := h
  cases line
  case nil =>
    have ne : c ≠ '\r' := fun isReturn => (notLast isReturn).1 rfl
    simp [withoutReturn, ne]
  case cons d line =>
    simp only [withoutReturn, List.getLast?_cons_cons, List.dropLast_cons_cons]
    split <;> rfl

theorem splitLines_ended (inner : '\n' ∉ line) :
    splitLines (line ++ ['\n']) = [withoutReturn line] := by
  induction line using lines_induction
  case none   => rfl
  case feed   => simp at inner
  case pair   => simp at inner
  case single => rfl
  case inner c line here hi =>
    rw [splitLines_cons here, hi (fun h => inner (.tail _ h)), withoutReturn_cons here]
    rfl

theorem splitLines_unended (inner : '\n' ∉ line) (ne : line ≠ []) : splitLines line = [line] := by
  induction line
  case nil => contradiction
  case cons c line hi =>
    have notFeed : c ≠ '\n' := fun h => inner (h ▸ .head _)
    have inner' : '\n' ∉ line := fun h => inner (.tail _ h)
    rw [splitLines]
    case x_1 => exact notFeed
    case x_2 => rintro after - rfl; simp at inner'
    cases line
    case nil  => rfl
    case cons => rw [hi inner' (List.cons_ne_nil _ _)]

theorem splitLines_cons_line (inner : '\n' ∉ line) (rest : List Char) :
    splitLines (line ++ '\n' :: rest) = withoutReturn line :: splitLines rest := by
  rw [splitLines_append, splitLines_ended inner, List.singleton_append]

theorem toList_unlines_cons (line : String) (lines : List String) :
    (unlines (line :: lines)).toList = line.toList ++ '\n' :: (unlines lines).toList := by
  simp [unlines, String.join_cons]

theorem splitLines_unlines {lines : List String} (inner : ∀ line ∈ lines, '\n' ∉ line.toList) :
    splitLines (unlines lines).toList = lines.map (withoutReturn ·.toList) := by
  induction lines
  case nil => rfl
  case cons line lines hi =>
    have ⟨here, inner⟩ := List.forall_mem_cons.mp inner
    rw [toList_unlines_cons, splitLines_cons_line here, hi inner, List.map_cons]

theorem Respaced.append_blanks (blank : ∀ c ∈ blanks, isBlank c) (blank' : ∀ c ∈ blanks', isBlank c)
    (quoted : Bool) (text : List Char) : Respaced quoted (text ++ blanks) (text ++ blanks') := by
  induction text generalizing quoted
  case nil          => exact .trailing blank blank'
  case cons c _ hi => exact .char c (hi _)

theorem isRespaced_append_blanks (blank : ∀ c ∈ blanks, isBlank c) (line : List Char) :
    IsRespaced line (line ++ blanks) := by
  have inner := @Respaced.append_blanks [] blanks nofun blank false line
  rw [List.append_nil] at inner
  exact inner.dropBlanks rfl

theorem isSkippable_append_blanks (blank : ∀ c ∈ blanks, isBlank c) (line : List Char) :
    SourceLine.isSkippable (String.ofList line) =
      SourceLine.isSkippable (String.ofList (line ++ blanks)) := by
  apply Parser.alike_isSkippable
  rw [String.toList_ofList, String.toList_ofList]
  exact isRespaced_append_blanks blank line

theorem withoutReturn_append (line : List Char) :
    ∃ blanks, line = withoutReturn line ++ blanks ∧ ∀ c ∈ blanks, isBlank c := by
  unfold withoutReturn
  split
  case isTrue last =>
    refine ⟨['\r'], (List.dropLast_append_getLast? _ last).symm, fun c hc => ?_⟩
    rw [List.mem_singleton.mp hc]
    rfl
  case isFalse =>
    exists []
    simp

-- All carriage returns at the end of a line are blanks like the last one.
theorem dropReturns_append (line : List Char) :
    ∃ blanks, line = Read.dropReturns line ++ blanks ∧ ∀ c ∈ blanks, isBlank c := by
  refine ⟨(line.reverse.takeWhile (· = '\r')).reverse, ?_, fun c hc => ?_⟩
  · rw [Read.dropReturns, ← List.reverse_append, List.takeWhile_append_dropWhile,
      List.reverse_reverse]
  · have isReturn := List.mem_takeWhile_imp (List.mem_reverse.mp hc)
    rw [of_decide_eq_true isReturn]
    rfl

theorem getLast?_dropReturns (line : List Char) :
    (Read.dropReturns line).getLast? ≠ some '\r' := by
  have head := List.head?_dropWhile_not (· = '\r') line.reverse
  intro last
  rw [Read.dropReturns, List.getLast?_reverse] at last
  simp [last] at head

theorem dropReturns_withoutReturn (line : List Char) :
    Read.dropReturns (withoutReturn line) = Read.dropReturns line := by
  unfold withoutReturn
  split
  case isTrue last =>
    have eq := List.dropLast_append_getLast? _ last
    nth_rewrite 2 [← eq]
    simp [Read.dropReturns]
  case isFalse => rfl

theorem isSkippable_withoutReturn (line : String) :
    SourceLine.isSkippable (String.ofList (withoutReturn line.toList)) =
      SourceLine.isSkippable line := by
  have ⟨blanks, eq, blank⟩ := withoutReturn_append line.toList
  rw [isSkippable_append_blanks blank, ← eq, String.ofList_toList]

end
end WispSyntax

import Mathlib.Data.List.Nodup
import Mathlib.Data.List.Pairwise
import Mathlib.Order.Monotone.Basic
import WispSyntax.Proofs.LineEnds

/-!
Blank lines and comments are not seen. Texts that differ in nothing but such lines have the same
outcome, except that their other lines may have other numbers (`parse_sameCode`).
-/

namespace WispSyntax

open CommandLine (unlines)

-- Lists of lines that differ in blank lines and comments. These may be put in anywhere, and left
-- out.
inductive SameCode : List String → List String → Prop
  | nil : SameCode [] []
  | line {lines lines'} (line : String) (next : SameCode lines lines') :
      SameCode (line :: lines) (line :: lines')
  | left {line lines lines'} (skippable : SourceLine.isSkippable line)
      (next : SameCode lines lines') : SameCode (line :: lines) lines'
  | right {line lines lines'} (skippable : SourceLine.isSkippable line)
      (next : SameCode lines lines') : SameCode lines (line :: lines')

-- The other lines, with their numbers among all lines.
def codeLines (lines : List String) : List SourceLine :=
  (SourceLine.enumerate 1 lines).filter (!SourceLine.isSkippable ·.text)

def codeNumbers (lines : List String) : List Nat :=
  (codeLines lines).map (·.number)

-- The first of these lines of one list has the number of the first one of the other list for its
-- new number, and so on.
def Matches (g : Nat → Nat) (lines lines' : List String) : Prop :=
  (codeNumbers lines).map g = codeNumbers lines'

section
variable {lines lines' : List String}

theorem SameCode.filter_eq (h : SameCode lines lines') :
    lines.filter (!SourceLine.isSkippable ·) = lines'.filter (!SourceLine.isSkippable ·) := by
  induction h
  case nil                   => rfl
  case line hi               => rw [List.filter_cons, List.filter_cons, hi]
  case left skippable _ hi  => rwa [List.filter_cons, skippable]
  case right skippable _ hi => rwa [List.filter_cons, skippable]

theorem codeLines_text (lines : List String) :
    (codeLines lines).map (·.text) = lines.filter (!SourceLine.isSkippable ·) := by
  have text := SourceLine.enumerate_text 1 lines
  nth_rewrite 2 [← text]
  rw [List.filter_map]
  rfl

theorem codeNumbers_ascending (lines : List String) : (codeNumbers lines).Pairwise (· < ·) := by
  have all := List.pairwise_lt_range' (s := 1) (n := lines.length)
  refine List.pairwise_map.mpr (.filter _ (List.pairwise_map.mpr ?_))
  rw [← List.pairwise_map, List.zipIdx_map_snd]
  exact all

theorem SourceLine.eq_map_renumber {g : Nat → Nat} {xs ys : List SourceLine}
    (texts : xs.map (·.text) = ys.map (·.text))
    (numbers : (xs.map (·.number)).map g = ys.map (·.number)) : ys = xs.map (renumber g) := by
  induction xs generalizing ys <;> cases ys <;> simp only [List.map_cons, List.map_nil,
    List.cons.injEq, reduceCtorEq] at texts numbers ⊢
  case cons.cons l xs hi l' ys =>
    refine ⟨?_, hi texts.2 numbers.2⟩
    rw [renumber, numbers.1, texts.1]

theorem Matches.codeLines_eq {g : Nat → Nat} (h : Matches g lines lines')
    (same : SameCode lines lines') : codeLines lines' = (codeLines lines).map (.renumber g) := by
  refine SourceLine.eq_map_renumber ?_ h
  rw [codeLines_text, codeLines_text, same.filter_eq]

theorem exists_map_eq {xs ys : List Nat} (nodup : xs.Nodup) (length : xs.length = ys.length) :
    ∃ g : Nat → Nat, xs.map g = ys := by
  induction xs generalizing ys <;> cases ys <;> simp only [List.length_cons, List.length_nil,
    Nat.add_right_cancel_iff, reduceCtorEq] at length
  case nil.nil => exact ⟨id, rfl⟩
  case cons.cons x xs hi y ys =>
    have ⟨other, nodup⟩ := List.nodup_cons.mp nodup
    have ⟨g, eq⟩ := hi nodup length
    exists Function.update g x y
    have unchanged : ∀ z ∈ xs, Function.update g x y z = g z := by
      rintro z hz
      exact Function.update_of_ne (ne_of_mem_of_not_mem hz other) ..
    rw [List.map_cons, Function.update_self, List.map_congr_left unchanged, eq]

theorem Matches.strictMonoOn {g : Nat → Nat} (h : Matches g lines lines') :
    StrictMonoOn g { n | n ∈ codeNumbers lines } := by
  have ascending := codeNumbers_ascending lines'
  rw [← h, List.pairwise_map] at ascending
  let Keeps (m n : Nat) : Prop := (m < n → g m < g n) ∧ (n < m → g n < g m)
  have keeps : (codeNumbers lines).Pairwise Keeps :=
    (ascending.and (codeNumbers_ascending lines)).imp fun ⟨image, lt⟩ =>
      ⟨fun _ => image, fun gt => absurd gt lt.asymm⟩
  have : Std.Symm Keeps := ⟨fun _ _ => And.symm⟩
  intro m hm n hn lt
  exact (keeps.forall hm hn lt.ne).1 lt

theorem exists_matches (same : SameCode lines lines') : ∃ g, Matches g lines lines' := by
  refine exists_map_eq (codeNumbers_ascending lines).nodup ?_
  have texts := congrArg List.length same.filter_eq
  rw [← codeLines_text, ← codeLines_text, List.length_map, List.length_map] at texts
  rw [codeNumbers, codeNumbers, List.length_map, List.length_map, texts]

theorem keptLines_unlines (inner : ∀ line ∈ lines, '\n' ∉ line.toList) :
    keptLines (unlines lines) = (codeLines lines).map fun l =>
      { l with text := String.ofList (withoutReturn l.text.toList) } := by
  simp only [keptLines, Feed.withoutComments, Feed.ofText, splitLines_unlines inner, List.map_map,
    SourceLine.enumerate, List.zipIdx_map, List.filter_map, codeLines]
  simp [Function.comp_def, isSkippable_withoutReturn]

end
namespace Parser

-- Blank lines and comments make no difference to the outcome of a text but for the numbers of its
-- other lines.
theorem parse_sameCode {lines lines' : List String} (same : SameCode lines lines')
    (inner : ∀ line ∈ lines, '\n' ∉ line.toList) (inner' : ∀ line ∈ lines', '\n' ∉ line.toList) :
    (∃ g, Matches g lines lines' ∧ StrictMonoOn g { n | n ∈ codeNumbers lines }) ∧
    ∀ g, Matches g lines lines' →
      (∃ root, parse (unlines lines) = .ok root ∧
        parse (unlines lines') = .ok { root with
          children := root.children.map (Node.relocate (Location.renumber g)) }) ∨
      ∃ fault place line, parse (unlines lines) = .error (.rejected fault place line) ∧
        parse (unlines lines') = .error (.rejected fault (place.renumber g) line) := by
  have ⟨g, renumbers⟩ := exists_matches same
  refine ⟨⟨g, renumbers, renumbers.strictMonoOn⟩, fun g renumbers => ?_⟩
  have kept : keptLines (unlines lines') = (keptLines (unlines lines)).map (.renumber g) := by
    rw [keptLines_unlines inner, keptLines_unlines inner', renumbers.codeLines_eq same,
      List.map_map, List.map_map]
    rfl
  have outcome : parse (unlines lines') = outcomeAfter g [] (parse (unlines lines)) := by
    let before : SourceLine := { number := 0, text := "" }
    rw [parse_eq, parse_eq, kept]
    generalize keptLines (unlines lines) = xs
    calc (readFrom {} before none (xs.map (.renumber g))).1
      _ = (readFrom {} (before.renumber g) none (xs.map (.renumber g))).1 :=
        congrArg Prod.fst (readFrom_of_closed rfl ..)
      _ = outcomeAfter g [] (readFrom {} before none xs).1 :=
        congrArg Prod.fst (@readFrom_renumber g [] {} before none xs)
  cases first : parse (unlines lines)
  case ok root =>
    rw [first] at outcome
    exact .inl ⟨root, rfl, outcome⟩
  case error =>
    have ⟨fault, place, line, rejected⟩ := rejected_of_readFrom ((parse_eq _).symm.trans first)
    rw [first, rejected] at outcome
    exact .inr ⟨fault, place, line, rejected ▸ rfl, outcome⟩

theorem parse_sameCode_call :
    SameCode ["f(a,", "b)"] ["// c", "f(a,", " \r", "b)"] ∧
    Matches (2 * ·) ["f(a,", "b)"] ["// c", "f(a,", " \r", "b)"] ∧
    ∃ root, parse (unlines ["f(a,", "b)"]) = .ok root ∧
      parse (unlines ["// c", "f(a,", " \r", "b)"]) = .ok { root with
        children := root.children.map (Node.relocate (Location.renumber (2 * ·))) } := by
  have same : SameCode ["f(a,", "b)"] ["// c", "f(a,", " \r", "b)"] :=
    .right rfl (.line _ (.right rfl (.line _ .nil)))
  have numbers : Matches (2 * ·) ["f(a,", "b)"] ["// c", "f(a,", " \r", "b)"] := rfl
  let name (text : String) (place : Location) : Node := .leaf .identifier text place
  let call : Node := { kind := .call, value := "f", params := [[name "a" ⟨1, 3⟩], [name "b" ⟨2, 1⟩]]
                       location := ⟨1, 1⟩ }
  have first : parse (unlines ["f(a,", "b)"]) =
      .ok { kind := .root, children := [call], location := ⟨1, 1⟩ } := rfl
  refine ⟨same, numbers, ?_⟩
  cases (parse_sameCode same (by decide) (by decide)).2 _ numbers
  case inl accepted => exact accepted
  case inr rejected =>
    have ⟨_, _, _, rejected, _⟩ := rejected
    exact absurd (first.symm.trans rejected) (by simp)

end Parser
end WispSyntax

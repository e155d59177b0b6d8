import Mathlib.Data.List.Nodup
import WispSyntax.Node.Outline

/-!
What a line of an outline tells. As long as a value holds no backquote, the line of a node tells its
depth and its slot and, in its caption, the kind, the value and the place of the node
(`slotLine_injective`).
-/

namespace WispSyntax

-- Texts that are cut at the first mark of a kind.
theorem eq_of_append_cons_eq {α : Type} {mark : α} {front front' rest rest' : List α}
    (free : mark ∉ front) (free' : mark ∉ front')
    (h : front ++ mark :: rest = front' ++ mark :: rest') : front = front' ∧ rest = rest' := by
  induction front generalizing front'
  case nil =>
    cases front'
    case nil  => exact ⟨rfl, (List.cons.inj h).2⟩
    case cons => exact absurd ((List.cons.inj h).1 ▸ .head _) free'
  case cons c front hi =>
    cases front'
    case nil => exact absurd ((List.cons.inj h).1 ▸ .head _) free
    case cons d front' =>
      obtain ⟨rfl, rest_eq⟩ := List.cons.inj h
      obtain ⟨rfl, rfl⟩ := hi (fun h => free (.tail _ h)) (fun h => free' (.tail _ h)) rest_eq
      exact ⟨rfl, rfl⟩

theorem not_mem_toDigits {c : Char} (digit : c.isDigit = false) (n : Nat) :
    c ∉ Nat.toDigits 10 n :=
  fun h => by simp [Nat.isDigit_of_mem_toDigits (by decide) (by decide) h] at digit

theorem toDigits_injective {m n : Nat} (h : Nat.toDigits 10 m = Nat.toDigits 10 n) : m = n := by
  rw [← Nat.ofDigitChars_ten_toDigits (n := m), h, Nat.ofDigitChars_ten_toDigits]

namespace Kind

-- Every kind, once.
def all : List Kind :=
  [add, subtract, divide, multiply, power, modulo, and, or, bitAnd, bitOr, bitXor, shiftLeft,
    shiftRight, equal, notEqual, greater, less, greaterEq, lessEq, variableDecl, constantDecl,
    typeCast, assignment, not, increment, decrement, typeOf, bitNot, integer, float, binary,
    hexadecimal, string, list, identifier, listIdentifier, ifStatement, elseStatement,
    whileStatement, forStatement, returnStatement, exit, exitCode, exitNow, truth, falsehood, nil,
    returnOnly, returnNil, returnError, returnNilOrError, root, function, block, group, call]

theorem mem_all (k : Kind) : k ∈ all := by
  cases k <;> decide +kernel

theorem name_injective {j k : Kind} (h : j.name = k.name) : j = k := by
  have names : (all.map name).Nodup := by decide +kernel
  exact List.inj_on_of_nodup_map names j.mem_all k.mem_all h

-- Names are made of letters, blanks and hyphens.
theorem not_mem_name {c : Char} (mark : c ∈ ['`', '@', '\n']) (k : Kind) : c ∉ k.name.toList := by
  have free : all.all fun k => ['`', '@', '\n'].all (· ∉ k.name.toList) := by decide +kernel
  have free := List.all_eq_true.mp (List.all_eq_true.mp free k k.mem_all) c mark
  simpa using free

end Kind

namespace Location

theorem toList_text (l : Location) :
    l.text.toList = Nat.toDigits 10 l.line ++ ':' :: Nat.toDigits 10 l.column := by
  have parts : l.text = l.line.repr ++ ":" ++ l.column.repr := rfl
  simp [parts]

theorem text_injective {a b : Location} (h : a.text.toList = b.text.toList) : a = b := by
  rw [toList_text, toList_text] at h
  obtain ⟨line, column⟩ := eq_of_append_cons_eq (not_mem_toDigits rfl _) (not_mem_toDigits rfl _) h
  obtain ⟨_, _⟩ := a
  obtain ⟨_, _⟩ := b
  rw [mk.injEq]
  exact ⟨toDigits_injective line, toDigits_injective column⟩

theorem not_mem_text {c : Char} (digit : c.isDigit = false) (ne : c ≠ ':') (l : Location) :
    c ∉ l.text.toList := by
  rw [toList_text, List.mem_append, List.mem_cons]
  simp [not_mem_toDigits digit, ne]

end Location

namespace Slot

theorem toList_label_param (i j : Nat) : (param i j).label.toList =
    "param ".toList ++ (Nat.toDigits 10 i ++ '.' :: Nat.toDigits 10 j) := by
  have parts : (param i j).label = "param " ++ i.repr ++ "." ++ j.repr := rfl
  simp [parts]

theorem toList_label_child (i : Nat) :
    (child i).label.toList = "child ".toList ++ Nat.toDigits 10 i := by
  have parts : (child i).label = "child " ++ i.repr := rfl
  simp [parts]

-- The letter with which the label of a slot begins.
def initial : Slot → Char
  | lhs       => 'l'
  | rhs       => 'r'
  | alt       => 'a'
  | param _ _ => 'p'
  | child _   => 'c'

theorem head?_label (s : Slot) : s.label.toList.head? = some s.initial := by
  cases s
  case param => rw [toList_label_param]; rfl
  case child => rw [toList_label_child]; rfl
  all_goals rfl

theorem label_injective {s t : Slot} (h : s.label.toList = t.label.toList) : s = t := by
  have initial := congrArg List.head? h
  rw [head?_label, head?_label, Option.some_inj] at initial
  cases s <;> cases t
  case param.param =>
    rw [toList_label_param, toList_label_param] at h
    obtain ⟨entry, position⟩ := eq_of_append_cons_eq (not_mem_toDigits rfl _)
      (not_mem_toDigits rfl _) (List.append_cancel_left h)
    rw [toDigits_injective entry, toDigits_injective position]
  case child.child =>
    rw [toList_label_child, toList_label_child] at h
    rw [toDigits_injective (List.append_cancel_left h)]
  all_goals first
    | rfl
    | simp [Slot.initial] at initial

theorem not_mem_label {c : Char} (mark : c ∈ [':', '\n']) (s : Slot) : c ∉ s.label.toList := by
  rcases List.mem_pair.mp mark with rfl | rfl <;> cases s
  case inl.param | inr.param =>
    rw [toList_label_param]
    simp [not_mem_toDigits]
  case inl.child | inr.child =>
    rw [toList_label_child]
    simp [not_mem_toDigits]
  all_goals decide

end Slot

namespace Node

-- What a line tells of a node itself.
def caption (n : Node) : List Char :=
  n.describe.toList ++ " @ ".toList ++ n.location.text.toList

theorem toList_firstLine (n : Node) :
    (s!"{n.describe} @ {n.location.text}").toList = n.caption := by
  have parts : s!"{n.describe} @ {n.location.text}" = n.describe ++ " @ " ++ n.location.text := rfl
  simp [parts, caption]

theorem toList_describe (n : Node) : n.describe.toList =
    n.kind.name.toList ++
      if n.value = "" then [] else " `".toList ++ (n.value.toList ++ ['`']) := by
  unfold describe
  by_cases empty : n.value = ""
  case pos => simp [empty]
  case neg =>
    have parts : s!"{n.kind.name} `{n.value}`" = n.kind.name ++ " `" ++ n.value ++ "`" := rfl
    simp [empty, parts]

theorem caption_of_empty {n : Node} (empty : n.value = "") :
    n.caption = (n.kind.name.toList ++ [' ']) ++ '@' :: (' ' :: n.location.text.toList) := by
  simp [caption, toList_describe, empty]

theorem caption_of_ne {n : Node} (ne : n.value ≠ "") :
    n.caption = (n.kind.name.toList ++ [' ']) ++ '`' :: (n.value.toList ++
      '`' :: (" @ ".toList ++ n.location.text.toList)) := by
  simp [caption, toList_describe, ne]

-- A backquote stands in a caption just where there is a value.
theorem mem_caption_iff (n : Node) : '`' ∈ n.caption ↔ n.value ≠ "" := by
  have name := n.kind.not_mem_name (c := '`') (by decide)
  have place := n.location.not_mem_text (c := '`') rfl (by decide)
  by_cases empty : n.value = ""
  case pos => simp [caption_of_empty empty, empty, name, place]
  case neg => simp [caption_of_ne empty, empty]

theorem caption_injective {m n : Node} (plain : '`' ∉ m.value.toList) (plain' : '`' ∉ n.value.toList)
    (h : m.caption = n.caption) :
    m.kind = n.kind ∧ m.value = n.value ∧ m.location = n.location := by
  have name {c : Char} (mark : c ∈ ['`', '@', '\n']) (blank : c ≠ ' ') (k : Kind) :
      c ∉ k.name.toList ++ [' '] := by
    simp [k.not_mem_name mark, blank]
  have empty_iff : m.value = "" ↔ n.value = "" := by
    rw [← not_iff_not, ← ne_eq, ← ne_eq, ← mem_caption_iff, ← mem_caption_iff, h]
  by_cases empty : m.value = ""
  case pos =>
    rw [caption_of_empty empty, caption_of_empty (empty_iff.mp empty)] at h
    obtain ⟨kind, rest⟩ := eq_of_append_cons_eq (name (by decide) (by decide) _)
      (name (by decide) (by decide) _) h
    refine ⟨Kind.name_injective ?_, by rw [empty, empty_iff.mp empty], ?_⟩
    · exact String.toList_inj.mp (List.append_cancel_right kind)
    · exact Location.text_injective (List.cons.inj rest).2
  case neg =>
    rw [caption_of_ne empty, caption_of_ne (mt empty_iff.mpr empty)] at h
    obtain ⟨kind, rest⟩ := eq_of_append_cons_eq (name (by decide) (by decide) _)
      (name (by decide) (by decide) _) h
    obtain ⟨value, rest⟩ := eq_of_append_cons_eq plain plain' rest
    refine ⟨Kind.name_injective ?_, String.toList_inj.mp value, ?_⟩
    · exact String.toList_inj.mp (List.append_cancel_right kind)
    · exact Location.text_injective (List.append_cancel_left rest)

-- The line of a node below another one.
def slotLine (depth : Nat) (s : Slot × Node) : String :=
  indent depth ++ s!"{s.1.label}: {s.2.describe} @ {s.2.location.text}"

theorem toList_slotLine (depth : Nat) (s : Slot × Node) : (slotLine depth s).toList =
    List.replicate (2 * depth) ' ' ++ (s.1.label.toList ++ ':' :: (' ' :: s.2.caption)) := by
  have parts : s!"{s.1.label}: {s.2.describe} @ {s.2.location.text}" =
      s.1.label ++ ": " ++ s.2.describe ++ " @ " ++ s.2.location.text := rfl
  simp [slotLine, indent, parts, caption]

theorem slotLine_injective {depth : Nat} {s t : Slot × Node} (plain : '`' ∉ s.2.value.toList)
    (plain' : '`' ∉ t.2.value.toList) (h : slotLine depth s = slotLine depth t) :
    s.1 = t.1 ∧ s.2.kind = t.2.kind ∧ s.2.value = t.2.value ∧ s.2.location = t.2.location := by
  have chars := congrArg String.toList h
  rw [toList_slotLine, toList_slotLine] at chars
  obtain ⟨label, rest⟩ := eq_of_append_cons_eq (s.1.not_mem_label (by decide))
    (t.1.not_mem_label (by decide)) (List.append_cancel_left chars)
  exact ⟨Slot.label_injective label, caption_injective plain plain' (List.cons.inj rest).2⟩

-- How far a line is indented.
def indentation (line : String) : Nat :=
  (line.toList.takeWhile (· = ' ')).length

theorem indentation_slotLine (depth : Nat) (s : Slot × Node) :
    indentation (slotLine depth s) = 2 * depth := by
  have blanks : ∀ c ∈ List.replicate (2 * depth) ' ', decide (c = ' ') := fun c hc => by
    simp [List.eq_of_mem_replicate hc]
  obtain ⟨rest, label⟩ := List.head?_eq_some_iff.mp s.1.head?_label
  have initial : s.1.initial ≠ ' ' := by cases s.1 <;> simp [Slot.initial]
  rw [indentation, toList_slotLine, List.takeWhile_append_of_pos blanks, label]
  simp [initial]

theorem feed_not_mem_caption {n : Node} (line : '\n' ∉ n.value.toList) : '\n' ∉ n.caption := by
  have name := n.kind.not_mem_name (c := '\n') (by decide)
  have place := n.location.not_mem_text (c := '\n') rfl (by decide)
  by_cases empty : n.value = ""
  case pos => simp [caption_of_empty empty, name, place]
  case neg => simp [caption_of_ne empty, name, place, line]

theorem feed_not_mem_slotLine {s : Slot × Node} (line : '\n' ∉ s.2.value.toList) (depth : Nat) :
    '\n' ∉ (slotLine depth s).toList := by
  have label := s.1.not_mem_label (c := '\n') (by decide)
  rw [toList_slotLine]
  simp [label, feed_not_mem_caption line]

end Node
end WispSyntax

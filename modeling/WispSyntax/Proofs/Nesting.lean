import WispSyntax.Proofs.Pieces
import WispSyntax.Proofs.Punctuation

/-!
Brackets of accepted texts. They are properly nested, and there are as many of them as the tree has
nodes with parentheses and with braces (`parse_nested`).
-/

namespace WispSyntax

def isBracket (c : Char) : Bool :=
  c = '(' || c = ')' || c = '\x7b' || c = '\x7d'

-- The brackets of the lines of a text that are read, outside string literals.
def brackets (text : String) : List Char :=
  (keptLines text).flatMap fun l => (unquoted false l.text.toList).filter isBracket

-- The opening bracket of the type of a closing one.
def opener? : Char → Option Char
  | ')'    => some '('
  | '\x7d' => some '\x7b'
  | _      => none

-- Reads a word of brackets after those in `opened`, the last of which comes first. A closing
-- bracket is a match for the last one that is open, or for none at all.
def readBrackets (opened : List Char) : List Char → Option (List Char)
  | []        => some opened
  | c :: rest =>
    match opener? c, opened with
    | none,        _              => readBrackets (c :: opened) rest
    | some opener, last :: opened => if opener = last then readBrackets opened rest else none
    | some _,      []             => none

-- Each closing bracket has a match, and nothing stays open.
def IsNested (word : List Char) : Prop :=
  readBrackets [] word = some []

instance (word : List Char) : Decidable (IsNested word) :=
  inferInstanceAs (Decidable (_ = _))

-- A word that may stand anywhere among brackets.
def IsClosed (word : List Char) : Prop :=
  ∀ opened rest, readBrackets opened (word ++ rest) = readBrackets opened rest

namespace IsClosed

variable {v w : List Char}

theorem isNested (h : IsClosed w) : IsNested w := by
  have nested := h [] []
  rwa [List.append_nil] at nested

theorem nil : IsClosed [] :=
  fun _ _ => rfl

theorem append (hv : IsClosed v) (hw : IsClosed w) : IsClosed (v ++ w) := by
  intro opened rest
  rw [List.append_assoc, hv, hw]

theorem flatMap {α : Type} {xs : List α} {f : α → List Char} (h : ∀ x ∈ xs, IsClosed (f x)) :
    IsClosed (xs.flatMap f) := by
  induction xs
  case nil => exact nil
  case cons x xs hi =>
    obtain ⟨here, h⟩ := List.forall_mem_cons.mp h
    rw [List.flatMap_cons]
    exact here.append (hi h)

theorem enclose {opener closer : Char} (h : IsClosed w) (opens : opener? opener = none)
    (closes : opener? closer = some opener) : IsClosed (opener :: w ++ [closer]) := by
  intro opened rest
  rw [List.append_assoc, List.cons_append]
  simp only [readBrackets, opens]
  rw [h]
  simp [readBrackets, closes]

end IsClosed

namespace Kind

-- The brackets of a node before its parameters, between these and its children, and at its end.
def firstMarks : Kind → List Char
  | group | call | function => ['(']
  | block                   => ['\x7b']
  | _                       => []

def middleMarks : Kind → List Char
  | function => [')', '\x7b']
  | _        => []

def lastMarks : Kind → List Char
  | group | call     => [')']
  | function | block => ['\x7d']
  | _                => []

end Kind

namespace Node

-- The brackets of a tree.
def marks : Node → List Char :=
  weave (·.kind.firstMarks) (·.kind.middleMarks) (·.kind.lastMarks)

theorem marks_pieces (n : Node) :
    n.pieces.flatMap (·.token.marks.filter isBracket) = n.marks := by
  have first (m : Node) : (m.mark ++ unplaced (m.kind.opening m.value)).flatMap
      (·.token.marks.filter isBracket) = m.kind.firstMarks := by
    unfold mark unplaced
    cases m.kind <;> rfl
  have middle (m : Node) : (unplaced m.kind.middle).flatMap (·.token.marks.filter isBracket) =
      m.kind.middleMarks := by
    cases m.kind <;> rfl
  have last (m : Node) : (unplaced m.kind.closing).flatMap (·.token.marks.filter isBracket) =
      m.kind.lastMarks := by
    cases m.kind <;> rfl
  rw [pieces, flatMap_weave, marks]
  simp only [first, middle, last]

theorem marks_eq (n : Node) :
    n.marks = n.lhs.toList.flatMap marks ++ n.kind.firstMarks ++ n.rhs.toList.flatMap marks ++
      n.alt.toList.flatMap marks ++ n.params.flatten.flatMap marks ++ n.kind.middleMarks ++
      n.children.flatMap marks ++ n.kind.lastMarks := by
  rw [marks, weave_eq]

theorem isClosed_marks (n : Node) : IsClosed n.marks := by
  induction n using branches_induction
  case step n hi =>
    have within (ms : List Node) (h : ∀ m ∈ ms, m ∈ n.branches) : IsClosed (ms.flatMap marks) :=
      .flatMap fun m hm => hi m (h m hm)
    have lhs := within n.lhs.toList (by simp +contextual [branches])
    have rhs := within n.rhs.toList (by simp +contextual [branches])
    have alt := within n.alt.toList (by simp +contextual [branches])
    have params := within n.params.flatten (by simp +contextual [branches])
    have children := within n.children (by simp +contextual [branches])
    have entries := (rhs.append alt).append params
    cases kind : n.kind <;> rw [marks_eq, kind]
    case function =>
      have head := entries.enclose (rfl : opener? '(' = none) (rfl : opener? ')' = some '(')
      have body := children.enclose (rfl : opener? '\x7b' = none)
        (rfl : opener? '\x7d' = some '\x7b')
      simpa [Kind.firstMarks, Kind.middleMarks, Kind.lastMarks]
        using lhs.append (head.append body)
    case block =>
      have body := (entries.append children).enclose (rfl : opener? '\x7b' = none)
        (rfl : opener? '\x7d' = some '\x7b')
      simpa [Kind.firstMarks, Kind.middleMarks, Kind.lastMarks] using lhs.append body
    case group | call =>
      have list := (entries.append children).enclose (rfl : opener? '(' = none)
        (rfl : opener? ')' = some '(')
      simpa [Kind.firstMarks, Kind.middleMarks, Kind.lastMarks] using lhs.append list
    all_goals
      simpa [Kind.firstMarks, Kind.middleMarks, Kind.lastMarks]
        using lhs.append (entries.append children)

-- The brackets of a tree are those of its nodes.
theorem count_marks {c : Char} {p : Kind → Bool}
    (own : ∀ k : Kind, (k.firstMarks ++ k.middleMarks ++ k.lastMarks).count c =
      if p k then 1 else 0) (n : Node) : n.marks.count c = n.inOrder.countP (p ·.kind) := by
  rw [marks, (n.weave_perm _ _ _).count_eq]
  induction n.inOrder
  case nil => rfl
  case cons m ms hi =>
    rw [List.flatMap_cons, List.count_append, own, hi, List.countP_cons, Nat.add_comm]

end Node

-- The kinds of the nodes that are written with parentheses and with braces.
def Kind.hasParentheses : Kind → Bool
  | group | call | function => true
  | _                       => false

def Kind.hasBraces : Kind → Bool
  | block | function => true
  | _                => false

namespace Parser
variable {text : String} {root : Node}

theorem brackets_of_parse (h : parse text = .ok root) :
    brackets text = root.children.flatMap Node.marks := by
  have lines (l : SourceLine) : l.lexemes.flatMap (·.token.marks.filter isBracket) =
      (unquoted false l.text.toList).filter isBracket := by
    have marks := marks_ofChars l.start 0 l.text.toList
    rw [← List.filter_flatMap, SourceLine.lexemes, marks, List.drop_zero, unquotedMarks,
      List.filter_filter]
    exact List.filter_congr fun c _ => by simp +contextual [isBracket, isPunctuation]
  have tree := (covers_of_parse h).flatMap_eq (f := (·.marks.filter isBracket)) rfl fun _ => rfl
  rw [List.flatMap_assoc, List.flatMap_assoc] at tree
  simp only [lines, Node.marks_pieces] at tree
  exact tree.symm

-- Brackets are counted over the nodes of a tree.
theorem count_of_parse {c : Char} {p : Kind → Bool}
    (own : ∀ k : Kind, (k.firstMarks ++ k.middleMarks ++ k.lastMarks).count c =
      if p k then 1 else 0) (h : parse text = .ok root) :
    (brackets text).count c = root.descendants.countP (p ·.kind) := by
  have perm := (isProgram_of_parse h).descendants_perm
  rw [brackets_of_parse h, ← perm.countP_eq, List.count_flatMap, List.countP_flatMap]
  simp only [Function.comp_def, Node.count_marks own]

-- The brackets of an accepted text are properly nested, one pair of parentheses for each group,
-- call and function, and one pair of braces for each block and function. Other texts are rejected.
theorem parse_nested (text : String) :
    (∀ root, parse text = .ok root →
      IsNested (brackets text) ∧
      (brackets text).count '(' = root.descendants.countP (·.kind.hasParentheses) ∧
      (brackets text).count '\x7b' = root.descendants.countP (·.kind.hasBraces)) ∧
    (¬IsNested (brackets text) → ∃ failure, parse text = .error failure) := by
  have accepted (root : Node) (h : parse text = .ok root) : IsNested (brackets text) := by
    rw [brackets_of_parse h]
    exact (IsClosed.flatMap fun n _ => n.isClosed_marks).isNested
  refine ⟨fun root h => ⟨accepted root h, ?parentheses, ?braces⟩, fun bad => ?rejected⟩
  case parentheses => exact count_of_parse (fun k => by cases k <;> rfl) h
  case braces      => exact count_of_parse (fun k => by cases k <;> rfl) h
  case rejected =>
    cases parsed : parse text
    case error failure => exact ⟨failure, rfl⟩
    case ok root       => exact absurd (accepted root parsed) bad

theorem parse_nested_strings :
    (∃ root, parse "fn f() \x7b\n  g('\x7d', (a))\n\x7d" = .ok root ∧
      IsNested (brackets "fn f() \x7b\n  g('\x7d', (a))\n\x7d") ∧
      (brackets "fn f() \x7b\n  g('\x7d', (a))\n\x7d").count '(' =
        root.descendants.countP (·.kind.hasParentheses) ∧
      (brackets "fn f() \x7b\n  g('\x7d', (a))\n\x7d").count '\x7b' =
        root.descendants.countP (·.kind.hasBraces)) ∧
    ∃ failure, parse "(\x7b')'\n)\x7d" = .error failure := by
  let name : Node := .leaf .identifier "a" ⟨2, 11⟩
  let group : Node := { kind := .group, params := [[name]], location := ⟨2, 10⟩ }
  let call : Node :=
    { kind := .call, value := "g", params := [[.leaf .string "\x7d" ⟨2, 5⟩], [group]],
      location := ⟨2, 3⟩ }
  let declaration : Node :=
    { kind := .function, value := "f", params := [], children := [call], location := ⟨1, 1⟩ }
  have h : parse "fn f() \x7b\n  g('\x7d', (a))\n\x7d" =
      .ok { kind := .root, children := [declaration], location := ⟨1, 1⟩ } := rfl
  exact ⟨⟨_, h, (parse_nested _).1 _ h⟩, (parse_nested _).2 (by decide)⟩

end Parser
end WispSyntax

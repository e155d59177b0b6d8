import WispSyntax.Proofs.Spelling
import WispSyntax.Proofs.Traversal

/-!
The shape of syntax trees. `Node.WellFormed` says, kind by kind, which slots a node fills and with
what; every slot that a rule does not name is empty.
-/

namespace WispSyntax

theorem Kind.eq_math_kind {k : Kind} (h : k.isArithmetic ∨ k.isBitwise) (ne : k ≠ .bitNot) :
    ∃ op : MathOperator, k = op.kind := by
  cases k <;> simp [Kind.isArithmetic, Kind.isBitwise] at h ne
  case add        => exact ⟨.add, rfl⟩
  case subtract   => exact ⟨.subtract, rfl⟩
  case divide     => exact ⟨.divide, rfl⟩
  case multiply   => exact ⟨.multiply, rfl⟩
  case power      => exact ⟨.power, rfl⟩
  case modulo     => exact ⟨.modulo, rfl⟩
  case bitAnd     => exact ⟨.bitAnd, rfl⟩
  case bitOr      => exact ⟨.bitOr, rfl⟩
  case bitXor     => exact ⟨.bitXor, rfl⟩
  case shiftLeft  => exact ⟨.shiftLeft, rfl⟩
  case shiftRight => exact ⟨.shiftRight, rfl⟩

namespace Family

-- What operators of a family take on their left. Operators chain from the left, so a calculation
-- may be the left operand of the next one.
def BindsLeft : Family → Kind → Prop
  | math,       k => k.isValue ∨ ∃ op : MathOperator, k = op.kind
  | relation,   k => k.isValue ∨ k.isBoolean ∨ k = .typeOf ∨ k = .typeCast
  | inequality, k => k.isValue ∨ k.isBoolean
  | negation,   _ => False
  | typing,     k => k = .identifier

def BindsRight : Family → Kind → Prop
  | math,       k => k.isValue
  | relation,   k => k.isValue ∨ k.isBoolean
  | inequality, k => k.isValue ∨ k.isBoolean
  | negation,   k => k.isBoolean
  | typing,     k => k = .identifier

end Family

namespace Node

-- An entry of a group or a call. What follows a type query would be taken for the type of a cast.
def IsEntry (entry : List Node) : Prop :=
  entry ≠ [] ∧ ∀ n ∈ entry.dropLast, n.kind ≠ .typeOf

-- A parameter of a function: its name and its type.
def IsParameter (entry : List Node) : Prop :=
  ∃ name type, entry = [name, type] ∧ name.kind = .identifier ∧ type.kind = .identifier

-- The flag tells whether the node is inside a function declaration, where no other one may stand.
inductive WellFormed : Bool → Node → Prop
  | constant {nested place} (c : Constant) : WellFormed nested (.leaf c.kind "" place)
  | number {nested form value place} (isNumber : IsNumber form value.toList) :
      WellFormed nested (.leaf form.kind value place)
  | string {nested value place} (isQuotable : IsQuotable value.toList) :
      WellFormed nested (.leaf .string value place)
  | identifier {nested value place} (isName : IsName value.toList) :
      WellFormed nested (.leaf .identifier value place)
  | operator {nested lhs rhs place} (op : Operator) (ne : op ≠ .not)
      (bindsLeft : op.family.BindsLeft lhs.kind) (bindsRight : op.family.BindsRight rhs.kind)
      (left : lhs.WellFormed nested) (right : rhs.WellFormed nested) :
      WellFormed nested (.between op.kind lhs rhs place)
  | negation {nested rhs place} (isBoolean : rhs.kind.isBoolean) (right : rhs.WellFormed nested) :
      WellFormed nested (.before .not rhs place)
  | query {nested lhs place} (isIdentifier : lhs.kind = .identifier)
      (left : lhs.WellFormed nested) : WellFormed nested (.after .typeOf lhs place)
  | counter {nested lhs place} (c : Counter) (bindsLeft : Family.math.BindsLeft lhs.kind)
      (ne : lhs.kind ≠ .string) (left : lhs.WellFormed nested) :
      WellFormed nested (.after c.kind lhs place)
  | group {nested params place} (entries : ∀ e ∈ params, IsEntry e)
      (nodes : ∀ e ∈ params, ∀ n ∈ e, n.WellFormed nested) :
      WellFormed nested { kind := .group, params, location := place }
  | call {nested value params place} (isWord : IsWord value.toList)
      (entries : ∀ e ∈ params, IsEntry e) (nodes : ∀ e ∈ params, ∀ n ∈ e, n.WellFormed nested) :
      WellFormed nested { kind := .call, value, params, location := place }
  | block {nested children place} (nodes : ∀ n ∈ children, n.WellFormed nested) :
      WellFormed nested { kind := .block, children, location := place }
  | function {value params children place} (isName : IsName value.toList)
      (parameters : ∀ e ∈ params, IsParameter e) (names : ∀ e ∈ params, ∀ n ∈ e, n.WellFormed true)
      (nodes : ∀ n ∈ children, n.WellFormed true) :
      WellFormed false { kind := .function, value, params, children, location := place }

-- The root of a program: it fills nothing but its children.
def IsProgram (root : Node) : Prop :=
  root = { kind := .root, children := root.children, location := root.location } ∧
    ∀ n ∈ root.children, n.WellFormed false

namespace WellFormed

variable {n : Node} {nested : Bool}

theorem kind_ne_bitNot (h : n.WellFormed nested) : n.kind ≠ .bitNot := by
  cases h
  case constant c            => cases c <;> exact nofun
  case number form _ _ _     => rcases form with _ | _ | ⟨⟨⟩⟩ <;> exact nofun
  case operator op _ _ _ _ _ => rcases op with ⟨⟨⟩⟩ | ⟨⟨⟩⟩ | _ | _ | _ <;> exact nofun
  case counter c _ _ _       => cases c <;> exact nofun
  all_goals exact nofun

theorem isName (h : n.WellFormed nested) (isIdentifier : n.kind = .identifier) :
    IsName n.value.toList := by
  cases h
  case identifier isName     => exact isName
  case constant c            => cases c <;> cases isIdentifier
  case number form _ _ _     => rcases form with _ | _ | ⟨⟨⟩⟩ <;> cases isIdentifier
  case operator op _ _ _ _ _ => rcases op with ⟨⟨⟩⟩ | ⟨⟨⟩⟩ | _ | _ | _ <;> cases isIdentifier
  case counter c _ _ _       => cases c <;> cases isIdentifier
  all_goals cases isIdentifier

theorem eq_leaf (h : n.WellFormed nested) (isIdentifier : n.kind = .identifier) :
    n = .leaf .identifier n.value n.location := by
  cases h
  case identifier            => rfl
  case constant c            => cases c <;> cases isIdentifier
  case number form _ _ _     => rcases form with _ | _ | ⟨⟨⟩⟩ <;> cases isIdentifier
  case operator op _ _ _ _ _ => rcases op with ⟨⟨⟩⟩ | ⟨⟨⟩⟩ | _ | _ | _ <;> cases isIdentifier
  case counter c _ _ _       => cases c <;> cases isIdentifier
  all_goals cases isIdentifier

theorem bindsLeft {family : Family} (h : n.WellFormed nested)
    (accepts : family.acceptsLeft n.kind) : family.BindsLeft n.kind := by
  cases family
  case math =>
    simp only [Family.acceptsLeft, Bool.or_eq_true] at accepts
    rcases accepts with (value | arithmetic) | bitwise
    · exact .inl value
    · exact .inr (Kind.eq_math_kind (.inl arithmetic) h.kind_ne_bitNot)
    · exact .inr (Kind.eq_math_kind (.inr bitwise) h.kind_ne_bitNot)
  case negation => cases accepts
  all_goals simpa [Family.acceptsLeft, Family.BindsLeft, or_assoc] using accepts

theorem of_mem_branches {m : Node} (h : n.WellFormed nested) (hm : m ∈ n.branches) :
    ∃ nested, m.WellFormed nested := by
  cases h <;> simp [branches, leaf, between, after, before] at hm
  case operator left right =>
    rcases hm with rfl | rfl
    · exact ⟨nested, left⟩
    · exact ⟨nested, right⟩
  case negation right => exact ⟨nested, hm ▸ right⟩
  case query left     => exact ⟨nested, hm ▸ left⟩
  case counter left   => exact ⟨nested, hm ▸ left⟩
  case group nodes | call nodes =>
    obtain ⟨e, he, hm⟩ := hm
    exact ⟨nested, nodes e he m hm⟩
  case block nodes => exact ⟨nested, nodes m hm⟩
  case function names nodes =>
    rcases hm with ⟨e, he, hm⟩ | hm
    · exact ⟨true, names e he m hm⟩
    · exact ⟨true, nodes m hm⟩

theorem of_mem_inOrder {m : Node} (h : n.WellFormed nested) (hm : m ∈ n.inOrder) :
    ∃ nested, m.WellFormed nested := by
  induction n using branches_induction generalizing nested
  case step n hi =>
    rcases mem_inOrder_iff.mp hm with rfl | ⟨b, hb, hm⟩
    · exact ⟨nested, h⟩
    · have ⟨nested, h⟩ := h.of_mem_branches hb
      exact hi b hb h hm

end WellFormed

namespace IsProgram

variable {root : Node}

theorem descendants_perm (h : root.IsProgram) :
    (root.children.flatMap inOrder).Perm root.descendants := by
  have perm := root.inOrder_perm_walkFrom 0
  rw [inOrder_eq, walkFrom_eq] at perm
  rw [descendants, walk, walkFrom_eq, List.tail_cons]
  rw [h.1] at perm ⊢
  simpa using perm

theorem inOrder_eq (h : root.IsProgram) : root.inOrder = root :: root.children.flatMap inOrder := by
  rw [Node.inOrder_eq, h.1]
  simp

theorem wellFormed (h : root.IsProgram) : ∀ n ∈ root.descendants, ∃ nested, n.WellFormed nested := by
  intro n hn
  have ⟨child, hc, hn⟩ := List.mem_flatMap.mp (h.descendants_perm.mem_iff.mpr hn)
  exact (h.2 child hc).of_mem_inOrder hn

end IsProgram
end Node
end WispSyntax

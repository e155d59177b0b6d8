import WispSyntax.Kind
import WispSyntax.Location

/-!
Nodes of a syntax tree and the ways to make them.
-/

namespace WispSyntax

-- Which fields a node uses follows from its kind: an operator between two operands uses `lhs` and
-- `rhs`, one after its operand `lhs`, one before its operand `rhs`; groups, calls and functions
-- keep their entries in `params`, the root, blocks and functions their content in `children`.
-- `alt` is for the second branch of a conditional.
structure Node where
  kind     : Kind
  value    : String := ""
  lhs      : Option Node := none
  rhs      : Option Node := none
  alt      : Option Node := none
  params   : List (List Node) := []
  children : List Node := []
  location : Location := {}

instance : Inhabited Node where
  default := { kind := .root }

namespace Node

mutual

def decideEq : (m n : Node) → Decidable (m = n)
  | ⟨k, v, l, r, a, p, c, loc⟩, ⟨k', v', l', r', a', p', c', loc'⟩ =>
    if hk : (k, v, loc) = (k', v', loc') then
      match decideEqOption l l', decideEqOption r r', decideEqOption a a', decideEqLists p p',
        decideEqList c c' with
      | isTrue _, isTrue _, isTrue _, isTrue _, isTrue _ => isTrue (by simp_all)
      | isFalse h, _, _, _, _ => isFalse (by simp_all)
      | _, isFalse h, _, _, _ => isFalse (by simp_all)
      | _, _, isFalse h, _, _ => isFalse (by simp_all)
      | _, _, _, isFalse h, _ => isFalse (by simp_all)
      | _, _, _, _, isFalse h => isFalse (by simp_all)
    else
      isFalse (by simp_all)

def decideEqOption : (m n : Option Node) → Decidable (m = n)
  | none,   none   => isTrue rfl
  | some m, some n =>
    match decideEq m n with
    | isTrue h  => isTrue (by rw [h])
    | isFalse h => isFalse (by simp_all)
  | none,   some _ => isFalse nofun
  | some _, none   => isFalse nofun

def decideEqList : (ms ns : List Node) → Decidable (ms = ns)
  | [],      []      => isTrue rfl
  | m :: ms, n :: ns =>
    match decideEq m n, decideEqList ms ns with
    | isTrue h, isTrue hs => isTrue (by rw [h, hs])
    | isFalse h, _        => isFalse (by simp_all)
    | _, isFalse h        => isFalse (by simp_all)
  | [],      _ :: _  => isFalse nofun
  | _ :: _,  []      => isFalse nofun

def decideEqLists : (ms ns : List (List Node)) → Decidable (ms = ns)
  | [],      []      => isTrue rfl
  | m :: ms, n :: ns =>
    match decideEqList m n, decideEqLists ms ns with
    | isTrue h, isTrue hs => isTrue (by rw [h, hs])
    | isFalse h, _        => isFalse (by simp_all)
    | _, isFalse h        => isFalse (by simp_all)
  | [],      _ :: _  => isFalse nofun
  | _ :: _,  []      => isFalse nofun

end

instance : DecidableEq Node :=
  decideEq

def leaf (kind : Kind) (value : String) (location : Location) : Node :=
  { kind, value, location }

-- An operator between its operands.
def between (kind : Kind) (lhs rhs : Node) (location : Location) : Node :=
  { kind, lhs := some lhs, rhs := some rhs, location }

-- An operator after its operand.
def after (kind : Kind) (operand : Node) (location : Location) : Node :=
  { kind, lhs := some operand, location }

-- An operator before its operand.
def before (kind : Kind) (operand : Node) (location : Location) : Node :=
  { kind, rhs := some operand, location }

-- The place where the text of a node begins, which is left of an operator's own place.
def start : Node → Location
  | ⟨_, _, some lhs, _, _, _, _, _⟩ => lhs.start
  | ⟨_, _, none, _, _, _, _, loc⟩   => loc

end Node
end WispSyntax

import Mathlib.Data.List.Perm.Basic
import WispSyntax.Node.Walk

/-!
Traversals of trees from left to right. `weave` lists something for each node: between its left
operand and the rest, between its parameters and its children, and after all of them.
-/

namespace WispSyntax.Node

-- The nodes directly below a node.
def branches (n : Node) : List Node :=
  n.lhs.toList ++ n.rhs.toList ++ n.alt.toList ++ n.params.flatten ++ n.children

theorem map_snd_paramSlots (params : List (List Node)) :
    (paramSlots params).map (·.2) = params.flatten := by
  simp only [paramSlots, List.map_flatMap, List.map_map, Function.comp_def, List.zipIdx_map_fst]
  rw [List.flatMap_def, List.zipIdx_map_fst]

theorem map_snd_childSlots (children : List Node) :
    (childSlots children).map (·.2) = children := by
  simp [childSlots, Function.comp_def]

theorem map_snd_slots (n : Node) : n.slots.map (·.2) = n.branches := by
  simp [slots, branches, map_snd_paramSlots, map_snd_childSlots, Function.comp_def]

theorem mem_branches_of_mem_slots {n : Node} {s : Slot × Node} (h : s ∈ n.slots) :
    s.2 ∈ n.branches :=
  map_snd_slots n ▸ List.mem_map_of_mem h

theorem branches_induction {motive : Node → Prop}
    (step : ∀ n : Node, (∀ m ∈ n.branches, motive m) → motive n) (n : Node) : motive n := by
  induction n using slots_induction
  case step n hi =>
    apply step
    intro m hm
    rw [← map_snd_slots] at hm
    have ⟨s, hs, eq⟩ := List.mem_map.mp hm
    exact eq ▸ hi s hs

section
variable {α : Type} (opening middle closing : Node → List α)

mutual

def weave : Node → List α
  | n@⟨_, _, lhs, rhs, alt, params, children, _⟩ =>
    weaveOption lhs ++ opening n ++ weaveOption rhs ++ weaveOption alt ++ weaveLists params ++
      middle n ++ weaveList children ++ closing n

def weaveOption : Option Node → List α
  | none   => []
  | some n => weave n

def weaveList : List Node → List α
  | []      => []
  | n :: ns => weave n ++ weaveList ns

def weaveLists : List (List Node) → List α
  | []        => []
  | ns :: nss => weaveList ns ++ weaveLists nss

end

theorem weaveOption_eq (n : Option Node) :
    weaveOption opening middle closing n = n.toList.flatMap (weave opening middle closing) := by
  cases n <;> simp [weaveOption]

theorem weaveList_eq (ns : List Node) :
    weaveList opening middle closing ns = ns.flatMap (weave opening middle closing) := by
  induction ns
  case nil          => rfl
  case cons n ns hi => rw [weaveList, hi, List.flatMap_cons]

theorem weaveLists_eq (nss : List (List Node)) :
    weaveLists opening middle closing nss =
      nss.flatten.flatMap (weave opening middle closing) := by
  induction nss
  case nil            => rfl
  case cons ns nss hi => rw [weaveLists, hi, weaveList_eq, List.flatten_cons, List.flatMap_append]

theorem weave_eq (n : Node) :
    n.weave opening middle closing =
      n.lhs.toList.flatMap (weave opening middle closing) ++ opening n ++
        n.rhs.toList.flatMap (weave opening middle closing) ++
        n.alt.toList.flatMap (weave opening middle closing) ++
        n.params.flatten.flatMap (weave opening middle closing) ++ middle n ++
        n.children.flatMap (weave opening middle closing) ++ closing n := by
  cases n
  simp only [weave, weaveOption_eq, weaveList_eq, weaveLists_eq]

-- Working on the parts of a traversal is working on the whole.
theorem flatMap_weave {β : Type} (f : α → List β) (n : Node) :
    (n.weave opening middle closing).flatMap f =
      n.weave (fun m => (opening m).flatMap f) (fun m => (middle m).flatMap f)
        (fun m => (closing m).flatMap f) := by
  induction n using branches_induction
  case step n hi =>
    have within (ms : List Node) (h : ∀ m ∈ ms, m ∈ n.branches) :
        (ms.flatMap (weave opening middle closing)).flatMap f =
          ms.flatMap (weave (fun m => (opening m).flatMap f) (fun m => (middle m).flatMap f)
            (fun m => (closing m).flatMap f)) := by
      rw [List.flatMap_assoc]
      exact List.flatMap_congr fun m hm => hi m (h m hm)
    rw [weave_eq, weave_eq]
    simp only [List.flatMap_append]
    rw [within n.lhs.toList, within n.rhs.toList, within n.alt.toList, within n.params.flatten,
      within n.children]
    all_goals
      intro m hm
      simp [branches, hm]

theorem filter_weave (p : α → Bool) (n : Node) :
    (n.weave opening middle closing).filter p =
      n.weave (fun m => (opening m).filter p) (fun m => (middle m).filter p)
        (fun m => (closing m).filter p) := by
  have filter_eq (xs : List α) : xs.flatMap (fun x => [x].filter p) = xs.filter p := by
    rw [← List.filter_flatMap, List.flatMap_singleton']
  have parts := flatMap_weave opening middle closing (fun x => [x].filter p) n
  simpa only [filter_eq] using parts

end

-- The nodes of a tree in the order of the text: a left operand comes before its operator.
def inOrder : Node → List Node :=
  weave ([·]) (fun _ => []) (fun _ => [])

theorem inOrder_eq (n : Node) :
    n.inOrder = n.lhs.toList.flatMap inOrder ++ [n] ++ n.rhs.toList.flatMap inOrder ++
      n.alt.toList.flatMap inOrder ++ n.params.flatten.flatMap inOrder ++
      n.children.flatMap inOrder := by
  rw [inOrder, weave_eq, List.append_nil, List.append_nil]

theorem inOrder_perm (n : Node) : n.inOrder.Perm (n :: n.branches.flatMap inOrder) := by
  rw [inOrder_eq, branches]
  simp only [List.flatMap_append, List.append_assoc, List.singleton_append]
  exact List.perm_middle

theorem mem_inOrder_iff {m n : Node} :
    m ∈ n.inOrder ↔ m = n ∨ ∃ b ∈ n.branches, m ∈ b.inOrder := by
  rw [n.inOrder_perm.mem_iff, List.mem_cons, List.mem_flatMap]

-- What a traversal lists is what it lists for each of the nodes.
theorem weave_perm {α : Type} [DecidableEq α] (opening middle closing : Node → List α) (n : Node) :
    (n.weave opening middle closing).Perm
      (n.inOrder.flatMap fun m => opening m ++ middle m ++ closing m) := by
  induction n using branches_induction
  case step n hi =>
    have below := List.Perm.flatMap_left n.branches hi
    have sorted : (n.weave opening middle closing).Perm
        ((opening n ++ middle n ++ closing n) ++
          n.branches.flatMap (weave opening middle closing)) := by
      refine List.perm_iff_count.mpr fun a => ?_
      simp only [weave_eq, branches, List.count_append, List.flatMap_append]
      omega
    have above := n.inOrder_perm.symm.flatMap_right fun m => opening m ++ middle m ++ closing m
    rw [List.flatMap_cons, List.flatMap_assoc] at above
    exact sorted.trans ((below.append_left _).trans above)

-- The order of the text and the order of a visit are orders of the same nodes.
theorem inOrder_perm_walkFrom (n : Node) (depth : Nat) :
    n.inOrder.Perm ((n.walkFrom depth).map (·.2)) := by
  induction n using branches_induction generalizing depth
  case step n hi =>
    have visit : n.slots.flatMap (fun s => (s.2.walkFrom (depth + 1)).map (·.2)) =
        n.branches.flatMap fun m => (m.walkFrom (depth + 1)).map (·.2) := by
      rw [← map_snd_slots, List.flatMap_map]
    rw [walkFrom_eq, List.map_cons, List.map_flatMap, visit]
    have below := List.Perm.flatMap_left n.branches fun m hm => hi m hm (depth + 1)
    exact n.inOrder_perm.trans (.cons n below)

end WispSyntax.Node

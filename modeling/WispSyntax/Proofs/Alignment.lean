import WispSyntax.Proofs.Lexemes
import WispSyntax.Proofs.Traversal

/-!
Right operands begin on the line of their operator. An operator cannot wait for its right operand
across the end of a line, but the operand itself may go on over many lines, so what has begun above
an operator keeps the line of the operator (`Aligned`).
-/

namespace WispSyntax

namespace Node

theorem start_eq (n : Node) : n.start = (n.lhs.map start).getD n.location := by
  rcases n with ⟨_, _, _ | _, _, _, _, _, _⟩ <;> simp [start]

-- Every operator in the tree has its right operand on its own line.
def Straight (n : Node) : Prop :=
  ∀ m ∈ n.inOrder, ∀ r ∈ m.rhs, r.start.line = m.location.line

theorem straight_iff {n : Node} : n.Straight ↔
    (∀ r ∈ n.rhs, r.start.line = n.location.line) ∧ ∀ b ∈ n.branches, b.Straight := by
  constructor
  case mp =>
    intro h
    refine ⟨h n (mem_inOrder_iff.mpr (.inl rfl)), fun b hb m hm => ?_⟩
    exact h m (mem_inOrder_iff.mpr (.inr ⟨b, hb, hm⟩))
  case mpr =>
    intro ⟨right, below⟩ m hm
    rcases mem_inOrder_iff.mp hm with rfl | ⟨b, hb, hm⟩
    · exact right
    · exact below b hb m hm

-- A node that is no operator between operands or before one.
theorem Straight.of_rhs_eq_none {n : Node} (rhs : n.rhs = none)
    (h : ∀ b ∈ n.branches, b.Straight) : n.Straight :=
  straight_iff.mpr ⟨by simp [rhs], h⟩

end Node

namespace Parser

theorem straight_append {nodes : List Node} {n : Node} :
    (∀ m ∈ nodes ++ [n], m.Straight) ↔ (∀ m ∈ nodes, m.Straight) ∧ n.Straight := by
  simp [or_imp, forall_and]

-- What begins on the line may be the right operand of an operator on top of the stack.
def Meets (line : Nat) : List Frame → Prop
  | .operator _ _ place :: _ => place.line = line
  | _                        => True

namespace Frame

-- The place where the text of a frame begins.
def start : Frame → Location
  | operator _ lhs place   => (lhs.map Node.start).getD place
  | naming place           => place
  | list _ place _ _ _     => place
  | block header place _   => (header.map Header.place).getD place

-- The finished nodes of a frame in the order of the text.
def nodes : Frame → List Node
  | operator _ lhs _         => lhs.toList
  | naming _                 => []
  | list _ _ entries entry _ => entries.reverse.flatten ++ entry.reverse
  | block header _ content   => header.toList.flatMap (·.params.flatten) ++ content.toList

theorem nodes_list_cons {opening : Opening} {place : Location} {entries : List (List Node)}
    {n : Node} {entry : List Node} {budget : Budget} :
    nodes (.list opening place entries (n :: entry) budget) =
      nodes (.list opening place entries entry budget) ++ [n] := by
  simp [nodes]

theorem nodes_block_push {header : Option Header} {place : Location} {content : Sequence}
    {n : Node} :
    nodes (.block header place (content.push n)) = nodes (.block header place content) ++ [n] := by
  simp [nodes, Sequence.toList_push]

end Frame

def Aligned : List Frame → Prop
  | []         => True
  | f :: stack => Meets f.start.line stack ∧ (∀ n ∈ f.nodes, n.Straight) ∧ Aligned stack

def Awaited.Aligned (stack : List Frame) : Awaited → Prop
  | anything            => True
  | separator           => ∀ line, Meets line stack
  | parenthesis _ place => Meets place.line stack
  | brace header        => Meets header.place.line stack ∧ ∀ n ∈ header.params.flatten, n.Straight

namespace State

structure Aligned (s : State) : Prop where
  program : ∀ n ∈ s.program.toList, n.Straight
  stack   : Parser.Aligned s.stack
  awaited : s.awaited.Aligned s.stack

-- An expression may begin on the line.
def OnLine (s : State) (line : Nat) : Prop :=
  s.awaited = .anything → Meets line s.stack

theorem aligned_of_deliver {program : Sequence} {n : Node} {stack : List Frame} {t : State}
    (h : deliver program n stack = .ok t) (hp : ∀ m ∈ program.toList, m.Straight)
    (hs : Parser.Aligned stack) (hn : n.Straight) (meets : Meets n.start.line stack) :
    t.Aligned ∧ ∀ line, t.OnLine line := by
  fun_induction deliver program n stack
  case case1 =>
    cases h
    refine ⟨⟨?_, trivial, trivial⟩, fun _ _ => trivial⟩
    rw [Sequence.toList_push]
    exact straight_append.mpr ⟨hp, hn⟩
  case case2 n op lhs place stack accepts hi =>
    obtain ⟨start, left, rest⟩ := hs
    refine hi h rest ?_ ?_
    · refine Node.straight_iff.mpr ⟨by simpa [combine] using Eq.symm meets, ?_⟩
      simpa [combine, Node.branches, Frame.nodes] using straight_append.mpr ⟨left, hn⟩
    · rwa [Node.start_eq]
  case case3 => contradiction
  case case4 n place stack isIdentifier =>
    cases h
    obtain ⟨start, _, rest⟩ := hs
    exact ⟨⟨hp, rest, start⟩, fun _ => by simp [OnLine]⟩
  case case5 => contradiction
  case case6 n opening place entries entry budget stack spent =>
    obtain ⟨full, hf, h⟩ := bind_eq_ok_iff.mp h
    cases h
    obtain ⟨start, straight, rest⟩ := hs
    refine ⟨⟨hp, ⟨start, ?_, rest⟩, fun _ => trivial⟩, fun _ => by simp [OnLine]⟩
    simpa [Frame.nodes, eq_of_finishEntry hf] using straight_append.mpr ⟨straight, hn⟩
  case case7 n opening place entries entry budget stack left =>
    cases h
    obtain ⟨start, straight, rest⟩ := hs
    refine ⟨⟨hp, ⟨start, ?_, rest⟩, trivial⟩, fun _ _ => trivial⟩
    rw [Frame.nodes_list_cons]
    exact straight_append.mpr ⟨straight, hn⟩
  case case8 header place content stack =>
    cases h
    obtain ⟨start, straight, rest⟩ := hs
    refine ⟨⟨hp, ⟨start, ?_, rest⟩, trivial⟩, fun _ _ => trivial⟩
    rw [Frame.nodes_block_push]
    exact straight_append.mpr ⟨straight, hn⟩

theorem Settles.aligned {s t : State} (h : Settles s t) (hs : s.Aligned) :
    t.Aligned ∧ ∀ line, t.OnLine line := by
  obtain ⟨hp, stack, _⟩ := hs
  cases h
  case query put =>
    obtain ⟨start, left, rest⟩ := stack
    refine aligned_of_deliver put hp rest (.of_rhs_eq_none rfl ?_) ?_
    · simpa [Node.branches, Frame.nodes] using left
    · rwa [Node.start_eq]

section
variable {program : Sequence} {stack : List Frame} {t : State} {place : Location}

theorem aligned_of_closeList {opening : Opening} {entries : List (List Node)}
    (hp : ∀ n ∈ program.toList, n.Straight) (hs : Parser.Aligned stack)
    (start : Meets place.line stack) (straight : ∀ n ∈ entries.reverse.flatten, n.Straight)
    (h : closeList ⟨.anything, stack, program⟩ opening place entries = .ok t) :
    t.Aligned ∧ ∀ line, t.OnLine line := by
  cases opening
  case group | parameters | call =>
    refine aligned_of_deliver h hp hs (.of_rhs_eq_none rfl ?_) ?_
    · simpa [Node.branches] using straight
    · exact start
  case signature =>
    cases h
    exact ⟨⟨hp, hs, start, straight⟩, fun _ => by simp [OnLine, await]⟩

theorem aligned_of_closeBlock {header : Option Header} {content : Sequence}
    (hp : ∀ n ∈ program.toList, n.Straight)
    (hs : Parser.Aligned (.block header place content :: stack))
    (h : closeBlock ⟨.anything, stack, program⟩ header place content = .ok t) :
    t.Aligned ∧ ∀ line, t.OnLine line := by
  obtain ⟨start, straight, rest⟩ := hs
  cases header
  all_goals
    refine aligned_of_deliver h hp rest (.of_rhs_eq_none rfl ?_) start
    simpa [Frame.nodes, Node.branches] using straight

theorem Closing.aligned {token : Token} (h : Closing program stack token t)
    (hp : ∀ n ∈ program.toList, n.Straight) (hs : Parser.Aligned stack) :
    t.Aligned ∧ ∀ line, t.OnLine line := by
  cases h
  case list finish close =>
    obtain ⟨start, straight, rest⟩ := hs
    refine aligned_of_closeList hp rest start ?_ close
    rwa [finish.flatten_eq]
  case comma finish =>
    obtain ⟨start, straight, rest⟩ := hs
    refine ⟨⟨hp, ⟨start, ?_, rest⟩, trivial⟩, fun _ _ => trivial⟩
    simpa [Frame.nodes, eq_of_finishEntry finish] using straight
  case block close => exact aligned_of_closeBlock hp hs close

-- Next to a node that is taken back, an expression may begin on any line.
theorem Takes.aligned {n : Node} (h : Takes program stack n t)
    (hp : ∀ n ∈ program.toList, n.Straight) (hs : Parser.Aligned stack) :
    t.Aligned ∧ n.Straight ∧ ∀ line, Meets line t.stack := by
  cases h
  case program settled recent =>
    obtain ⟨hp, hn⟩ : (∀ m ∈ Sequence.toList ⟨settled, recent⟩, m.Straight) ∧ n.Straight :=
      straight_append.mp (by rwa [← Sequence.toList_push])
    exact ⟨⟨hp, trivial, trivial⟩, hn, fun _ => trivial⟩
  case list =>
    obtain ⟨start, straight, rest⟩ := hs
    rw [Frame.nodes_list_cons] at straight
    obtain ⟨straight, hn⟩ := straight_append.mp straight
    exact ⟨⟨hp, ⟨start, straight, rest⟩, trivial⟩, hn, fun _ => trivial⟩
  case block header place settled recent =>
    obtain ⟨start, straight, rest⟩ := hs
    change ∀ m ∈ Frame.nodes (.block header place (Sequence.push ⟨settled, recent⟩ n)), _ at straight
    rw [Frame.nodes_block_push] at straight
    obtain ⟨straight, hn⟩ := straight_append.mp straight
    exact ⟨⟨hp, ⟨start, straight, rest⟩, trivial⟩, hn, fun _ => trivial⟩

end

theorem Transition.aligned {s t : State} {l : Lexeme} (h : Transition s l t) (hs : s.Aligned)
    (line : s.OnLine l.start.line) : t.Aligned ∧ t.OnLine l.start.line := by
  obtain ⟨hp, stack, awaited⟩ := hs
  cases h
  case leaf leaf put =>
    obtain ⟨aligned, next⟩ := aligned_of_deliver put hp stack (.of_rhs_eq_none rfl (List.forall_mem_nil _)) (line rfl)
    exact ⟨aligned, next _⟩
  case callee => exact ⟨⟨hp, stack, line rfl⟩, by simp [OnLine]⟩
  case declaration => exact ⟨⟨hp, ⟨line rfl, List.forall_mem_nil _, stack⟩, trivial⟩, fun _ => trivial⟩
  case negation => exact ⟨⟨hp, ⟨line rfl, List.forall_mem_nil _, stack⟩, trivial⟩, fun _ => rfl⟩
  case operator s ne left _ =>
    obtain ⟨⟨hp, stack, _⟩, hn, meets⟩ := left.aligned hp stack
    refine ⟨⟨hp, ⟨meets _, (by simpa [Frame.nodes] using hn), stack⟩, ?_⟩, fun _ => rfl⟩
    cases left <;> exact trivial
  case counter left _ _ put =>
    obtain ⟨⟨hp, stack, _⟩, hn, meets⟩ := left.aligned hp stack
    obtain ⟨aligned, next⟩ := aligned_of_deliver put hp stack
      (.of_rhs_eq_none rfl (by simpa [Node.after, Node.branches] using hn)) (meets _)
    exact ⟨aligned, next _⟩
  case openBlock =>
    exact ⟨⟨hp, ⟨line rfl, List.forall_mem_nil _, stack⟩, trivial⟩, fun _ => trivial⟩
  case openBody =>
    obtain ⟨start, straight⟩ := awaited
    refine ⟨⟨hp, ⟨start, ?_, stack⟩, trivial⟩, fun _ => trivial⟩
    simpa [Frame.openBlock, Frame.nodes, Sequence.toList] using straight
  case openGroup | openParameters =>
    exact ⟨⟨hp, ⟨line rfl, List.forall_mem_nil _, stack⟩, trivial⟩, fun _ => trivial⟩
  case openAwaited => exact ⟨⟨hp, ⟨awaited, List.forall_mem_nil _, stack⟩, trivial⟩, fun _ => trivial⟩
  case separator => exact ⟨⟨hp, stack, trivial⟩, fun _ => awaited _⟩
  case close closing =>
    obtain ⟨aligned, next⟩ := closing.aligned hp stack
    exact ⟨aligned, next _⟩

theorem aligned_of_step {s t : State} {l : Lexeme} (h : s.step l = .ok t) (hs : s.Aligned)
    (line : s.OnLine l.start.line) : t.Aligned ∧ t.OnLine l.start.line := by
  obtain ⟨u, settled, hu⟩ := transition_of_step h
  rcases settled with rfl | ⟨settled, _⟩
  · exact hu.aligned hs line
  · obtain ⟨aligned, next⟩ := settled.aligned hs
    exact hu.aligned aligned (next _)

theorem LineBreak.aligned {s t : State} (h : LineBreak s t) (hs : s.Aligned) :
    t.Aligned ∧ ∀ line, t.OnLine line := by
  obtain ⟨hp, stack, awaited⟩ := hs
  cases h
  case program =>
    exact ⟨⟨by simpa [Sequence.toList_settle] using hp, trivial, trivial⟩, fun _ _ => trivial⟩
  case entry finish =>
    obtain ⟨start, straight, rest⟩ := stack
    refine ⟨⟨hp, ⟨start, ?_, rest⟩, trivial⟩, fun _ _ => trivial⟩
    simpa [Frame.nodes, eq_of_finishEntry finish] using straight
  case noEntry => exact ⟨⟨hp, stack, trivial⟩, fun _ _ => trivial⟩
  case block =>
    obtain ⟨start, straight, rest⟩ := stack
    refine ⟨⟨hp, ⟨start, ?_, rest⟩, trivial⟩, fun _ _ => trivial⟩
    simpa [Frame.nodes, Sequence.toList_settle] using straight
  case separator           => exact ⟨⟨hp, stack, trivial⟩, fun line _ => awaited line⟩
  case parenthesis | brace => exact ⟨⟨hp, stack, awaited⟩, fun _ => by simp [OnLine]⟩

theorem aligned_of_endLine {s t : State} {stop : Location} (h : s.endLine stop = .ok t)
    (hs : s.Aligned) : t.Aligned ∧ ∀ line, t.OnLine line := by
  obtain ⟨u, settled, hu⟩ := lineBreak_of_endLine h
  rcases settled with rfl | settled
  · exact hu.aligned hs
  · exact hu.aligned (settled.aligned hs).1

end State

-- No right operand in the tree of an accepted text begins on another line than its operator.
theorem straight_of_parse {text : String} {root : Node} (h : parse text = .ok root) :
    ∀ n ∈ root.children, n.Straight := by
  have start : State.Aligned {} ∧ ∀ line, State.OnLine {} line :=
    ⟨⟨List.forall_mem_nil _, trivial, trivial⟩, fun _ _ => trivial⟩
  have ⟨s, ⟨hs, _⟩, _, _, root_eq⟩ := parse_induction
    (P := fun _ s => s.Aligned ∧ ∀ line, s.OnLine line)
    (Q := fun l _ s => s.Aligned ∧ s.OnLine l.number) start (fun l _ _ _ ⟨hs, line⟩ => ⟨hs, line _⟩)
    ?_ (fun _ _ _ _ _ ⟨hs, _⟩ ht => State.aligned_of_endLine ht hs) h
  · subst root_eq
    exact hs.program
  · intro l hl x hx done s t ⟨hs, line⟩ ht
    rw [← start_line_of_mem_lexemes hx] at line ⊢
    exact State.aligned_of_step ht hs line

end Parser
end WispSyntax

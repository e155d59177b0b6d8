import WispSyntax.Proofs.Lexemes
import WispSyntax.Proofs.WellFormed

/-!
The parser builds well-formed trees. `State.WellFormed` says what the parser may hold between two
tokens; every token and every end of a line keeps it.
-/

namespace WispSyntax.Parser

-- Whether a function declaration is open somewhere in the stack.
def Declares (stack : List Frame) : Bool :=
  .declaration ∈ stack.flatMap Frame.constructs

-- Where nodes may stand side by side, so that an operator can take the newest as its left operand.
def IsOpen : List Frame → Prop
  | [] | .list _ _ _ _ _ :: _ | .block _ _ _ :: _ => True
  | .operator _ _ _ :: _ | .naming _ :: _         => False

-- No type query stands in the current entry, so that the entry can go on.
def Continues : List Frame → Prop
  | .list _ _ _ entry _ :: _ => ∀ n ∈ entry, n.kind ≠ .typeOf
  | _                        => True

namespace Opening

-- Whether the parentheses are those of a declaration.
def declares : Opening → Bool
  | signature _ => true
  | _           => false

-- Whether there is a name before the parentheses.
def hasName : Opening → Bool
  | call _ | signature _ => true
  | _                    => false

-- What the name before the parentheses must be, if there is one.
def Named : Opening → Prop
  | call name      => IsWord name.toList
  | signature name => IsName name.toList
  | _              => True

def Admits (o : Opening) (entry : List Node) : Prop :=
  if o.isPaired then Node.IsParameter entry else Node.IsEntry entry

theorem Admits.isEntry {o : Opening} {entry : List Node} (h : o.Admits entry) :
    Node.IsEntry entry := by
  unfold Admits at h
  split at h
  case isTrue =>
    obtain ⟨name, type, rfl, hn, ht⟩ := h
    simp [Node.IsEntry, hn]
  case isFalse => exact h

theorem admits_of_finishEntry {o : Opening} {entry full : List Node} (ne : entry ≠ [])
    (tail : ∀ n ∈ entry.tail, n.kind ≠ .typeOf) (h : finishEntry o entry = .ok full) :
    full = entry.reverse ∧ o.Admits full := by
  unfold finishEntry at h
  split at h <;> cases h
  case isFalse.refl hp =>
    refine ⟨rfl, ?_⟩
    unfold Admits
    split
    case isTrue paired =>
      have : isParameter entry := by simpa [paired] using hp
      unfold isParameter at this
      split at this
      case h_1 type name => exact ⟨name, type, rfl, by simpa using this⟩
      case h_2 => contradiction
    case isFalse => simpa [Node.IsEntry, ne] using tail

end Opening

structure Header.WellFormed (h : Header) : Prop where
  isName     : IsName h.name.toList
  parameters : ∀ e ∈ h.params, Node.IsParameter e
  names      : ∀ e ∈ h.params, ∀ n ∈ e, n.WellFormed true

-- What parentheses may hold on top of a stack. The current entry is held newest first.
structure ListWellFormed (stack : List Frame) (opening : Opening) (entries : List (List Node))
    (entry : List Node) : Prop where
  named   : opening.Named
  outside : opening.declares → Declares stack = false
  admits  : ∀ e ∈ entries, opening.Admits e
  nodes   : ∀ e ∈ entry :: entries, ∀ n ∈ e, n.WellFormed (opening.declares || Declares stack)
  tail    : ∀ n ∈ entry.tail, n.kind ≠ .typeOf

structure BlockWellFormed (stack : List Frame) (header : Option Header) (content : Sequence) :
    Prop where
  declared : ∀ h ∈ header, h.WellFormed ∧ Declares stack = false
  nodes    : ∀ n ∈ content.toList, n.WellFormed (header.isSome || Declares stack)

structure OperatorWellFormed (stack : List Frame) (op : Operator) (lhs : Node) : Prop where
  ne        : op ≠ .not
  isOpen    : IsOpen stack
  bindsLeft : op.family.BindsLeft lhs.kind
  left      : lhs.WellFormed (Declares stack)

def Frame.WellFormed (stack : List Frame) : Frame → Prop
  | operator op none _            => op = .not
  | operator op (some lhs) _      => OperatorWellFormed stack op lhs
  | naming _                      => Declares stack = false
  | list opening _ entries entry _ => ListWellFormed stack opening entries entry
  | block header _ content        => BlockWellFormed stack header content

def Stacked : List Frame → Prop
  | []         => True
  | f :: stack => f.WellFormed stack ∧ Continues stack ∧ Stacked stack

def Awaited.WellFormed (stack : List Frame) : Awaited → Prop
  | anything              => True
  | separator             => Continues stack
  | parenthesis opening _ =>
    Continues stack ∧ opening.hasName ∧ opening.Named ∧
      (opening.declares → Declares stack = false)
  | brace header          => Continues stack ∧ header.WellFormed ∧ Declares stack = false

section
variable {stack : List Frame} {op : Operator} {lhs : Option Node} {place : Location}
  {opening : Opening} {entries : List (List Node)} {entry : List Node} {budget : Budget}
  {header : Option Header} {content : Sequence}

@[simp]
theorem declares_operator : Declares (.operator op lhs place :: stack) = Declares stack :=
  rfl

@[simp]
theorem declares_list : Declares (.list opening place entries entry budget :: stack) =
    (opening.declares || Declares stack) := by
  cases opening <;> simp [Declares, Frame.constructs, Opening.declares]

@[simp]
theorem declares_block :
    Declares (.block header place content :: stack) = (header.isSome || Declares stack) := by
  cases header <;> simp [Declares, Frame.constructs]

end

namespace ListWellFormed

variable {stack : List Frame} {opening : Opening} {entries : List (List Node)} {entry : List Node}

-- A list with nothing in it yet.
theorem empty (named : opening.Named)
    (outside : opening.declares → Declares stack = false) :
    ListWellFormed stack opening [] [] :=
  ⟨named, outside, by simp, by simp, by simp⟩

-- Finishing the current entry of a list.
theorem finishes {full : List (List Node)} (h : ListWellFormed stack opening entries entry)
    (finish : State.Finishes opening entries entry full) :
    ListWellFormed stack opening full [] := by
  obtain ⟨named, outside, admits, nodes, tail⟩ := h
  obtain ⟨entry_wf, entries_wf⟩ := List.forall_mem_cons.mp nodes
  cases finish
  case none => exact ⟨named, outside, admits, by simpa using entries_wf, by simp⟩
  case entry n entry last finish =>
    obtain ⟨last_eq, admitted⟩ :=
      Opening.admits_of_finishEntry (List.cons_ne_nil n entry) tail finish
    have last_wf : ∀ m ∈ last, m.WellFormed (opening.declares || Declares stack) := by
      intro m hm
      exact entry_wf m (List.mem_reverse.mp (last_eq ▸ hm))
    refine ⟨named, outside, List.forall_mem_cons.mpr ⟨admitted, admits⟩, ?_, by simp⟩
    exact List.forall_mem_cons.mpr ⟨by simp, List.forall_mem_cons.mpr ⟨last_wf, entries_wf⟩⟩

-- A further node in the current entry of a list.
theorem cons {n : Node} (h : ListWellFormed stack opening entries entry)
    (continues : ∀ m ∈ entry, m.kind ≠ .typeOf)
    (hn : n.WellFormed (opening.declares || Declares stack)) :
    ListWellFormed stack opening entries (n :: entry) := by
  obtain ⟨named, outside, admits, nodes, tail⟩ := h
  obtain ⟨entry_wf, entries_wf⟩ := List.forall_mem_cons.mp nodes
  refine ⟨named, outside, admits, ?_, continues⟩
  exact List.forall_mem_cons.mpr ⟨List.forall_mem_cons.mpr ⟨hn, entry_wf⟩, entries_wf⟩

end ListWellFormed

namespace State

structure WellFormed (s : State) : Prop where
  program : ∀ n ∈ s.program.toList, n.WellFormed false
  stack   : Stacked s.stack
  awaited : s.awaited.WellFormed s.stack

-- The node of an operator once its right operand is found.
theorem combine_wellFormed {stack : List Frame} {op : Operator} {lhs : Option Node} {n : Node}
    {place : Location} (frame : Frame.WellFormed stack (.operator op lhs place))
    (hn : n.WellFormed (Declares stack)) (ne : n.kind ≠ .typeOf ∧ n.kind ≠ .typeCast)
    (accepts : op.family.acceptsRight n.kind) :
    (combine op lhs n place).WellFormed (Declares stack) ∧
      ((combine op lhs n place).kind = .typeCast → IsOpen stack) := by
  cases lhs
  case none =>
    have isNot : op = .not := frame
    subst isNot
    exact ⟨.negation accepts hn, by simp [combine, Operator.kind]⟩
  case some lhs =>
    obtain ⟨neNot, isOpen, bindsLeft, left⟩ := frame
    refine ⟨.operator op neNot bindsLeft ?_ left hn, fun _ => isOpen⟩
    cases hf : op.family <;> simp_all [Family.acceptsRight, Family.BindsRight]

theorem wellFormed_of_deliver {program : Sequence} {n : Node} {stack : List Frame} {t : State}
    (hp : ∀ m ∈ program.toList, m.WellFormed false) (hs : Stacked stack) (hc : Continues stack)
    (hn : n.WellFormed (Declares stack))
    (fits : n.kind = .typeOf ∨ n.kind = .typeCast → IsOpen stack)
    (h : deliver program n stack = .ok t) :
    t.WellFormed ∧ (n.kind ≠ .typeOf → Continues t.stack) := by
  fun_induction deliver program n stack
  case case1 =>
    cases h
    refine ⟨⟨?_, trivial, trivial⟩, fun _ => trivial⟩
    rw [Sequence.toList_push]
    exact List.forall_mem_append.mpr ⟨hp, by simpa [Declares] using hn⟩
  case case2 n op lhs place stack accepts hi =>
    obtain ⟨frame, continues, rest⟩ := hs
    have ne : n.kind ≠ .typeOf ∧ n.kind ≠ .typeCast :=
      ⟨fun hk => fits (.inl hk), fun hk => fits (.inr hk)⟩
    obtain ⟨wf, isOpen⟩ := combine_wellFormed frame hn ne accepts
    have kind_ne : (combine op lhs n place).kind ≠ .typeOf := by
      rcases op with ⟨⟨⟩⟩ | ⟨⟨⟩⟩ | _ | _ | _ <;> simp [combine, Operator.kind, MathOperator.kind,
        Relation.kind]
    obtain ⟨ht, hct⟩ := hi rest continues wf (fun hk => isOpen (hk.resolve_left kind_ne)) h
    exact ⟨ht, fun _ => hct kind_ne⟩
  case case3 => contradiction
  case case4 n place stack isIdentifier =>
    cases h
    obtain ⟨outside, continues, rest⟩ := hs
    exact ⟨⟨hp, rest, continues, rfl, hn.isName isIdentifier, fun _ => outside⟩,
      fun _ => continues⟩
  case case5 => contradiction
  case case6 n opening place entries entry budget stack spent =>
    obtain ⟨full, hf, h⟩ := bind_eq_ok_iff.mp h
    cases h
    obtain ⟨frame, continues, rest⟩ := hs
    have frame := (ListWellFormed.cons frame hc (by simpa using hn)).finishes (.entry hf)
    exact ⟨⟨hp, ⟨frame, continues, rest⟩, List.forall_mem_nil _⟩,
      fun _ => List.forall_mem_nil _⟩
  case case7 n opening place entries entry budget stack left =>
    cases h
    obtain ⟨frame, continues, rest⟩ := hs
    have frame := ListWellFormed.cons frame hc (by simpa using hn)
    refine ⟨⟨hp, ⟨frame, continues, rest⟩, trivial⟩, fun hk => ?_⟩
    exact List.forall_mem_cons.mpr ⟨hk, hc⟩
  case case8 =>
    cases h
    obtain ⟨⟨header, nodes⟩, continues, rest⟩ := hs
    refine ⟨⟨hp, ⟨⟨header, ?_⟩, continues, rest⟩, trivial⟩, fun _ => trivial⟩
    rw [Sequence.toList_push]
    exact List.forall_mem_append.mpr ⟨nodes, by simpa using hn⟩

theorem Settles.wellFormed {s t : State} (h : Settles s t) (hs : s.WellFormed) : t.WellFormed := by
  cases h
  case query lhs place put =>
    obtain ⟨hp, ⟨frame, continues, rest⟩, _⟩ := hs
    rcases lhs with _ | lhs
    · cases frame
    · obtain ⟨_, isOpen, bindsLeft, left⟩ := frame
      have query : Node.WellFormed _ (.after .typeOf lhs place) := .query bindsLeft left
      exact (wellFormed_of_deliver hp rest continues query (fun _ => isOpen) put).1

section
variable {program : Sequence} {stack : List Frame} {t : State} {place : Location}

theorem wellFormed_of_closeList {opening : Opening} {full : List (List Node)}
    (hp : ∀ n ∈ program.toList, n.WellFormed false) (hs : Stacked stack) (hc : Continues stack)
    (frame : ListWellFormed stack opening full [])
    (h : closeList ⟨.anything, stack, program⟩ opening place full = .ok t) :
    t.WellFormed ∧ Continues t.stack := by
  obtain ⟨named, outside, admits, nodes, _⟩ := frame
  have entries : ∀ e ∈ full.reverse, Node.IsEntry e := fun e he =>
    (admits e (List.mem_reverse.mp he)).isEntry
  have inner : ∀ e ∈ full.reverse, ∀ n ∈ e, n.WellFormed (opening.declares || Declares stack) :=
    fun e he => nodes e (.tail _ (List.mem_reverse.mp he))
  cases opening
  case group | parameters =>
    have node := wellFormed_of_deliver hp hs hc (.group entries inner) (by simp) h
    exact node.imp_right (· (by simp))
  case call name =>
    have node := wellFormed_of_deliver hp hs hc (.call named entries inner) (by simp) h
    exact node.imp_right (· (by simp))
  case signature name =>
    cases h
    have header : Header.WellFormed ⟨name, full.reverse, place⟩ :=
      ⟨named, fun e he => admits e (List.mem_reverse.mp he), inner⟩
    exact ⟨⟨hp, hs, hc, header, outside rfl⟩, hc⟩

theorem wellFormed_of_closeBlock {header : Option Header} {content : Sequence}
    (hp : ∀ n ∈ program.toList, n.WellFormed false) (hs : Stacked stack) (hc : Continues stack)
    (frame : BlockWellFormed stack header content)
    (h : closeBlock ⟨.anything, stack, program⟩ header place content = .ok t) :
    t.WellFormed ∧ Continues t.stack := by
  obtain ⟨header_wf, nodes⟩ := frame
  cases header
  case none =>
    have node := wellFormed_of_deliver hp hs hc (.block nodes) (by simp) h
    exact node.imp_right (· (by simp))
  case some header =>
    obtain ⟨⟨isName, parameters, names⟩, outside⟩ := header_wf header rfl
    have function := @Node.WellFormed.function _ _ _ header.place isName parameters names nodes
    rw [← outside] at function
    have node := wellFormed_of_deliver hp hs hc function (by simp) h
    exact node.imp_right (· (by simp))

theorem Closing.wellFormed {token : Token} (h : Closing program stack token t)
    (hp : ∀ n ∈ program.toList, n.WellFormed false) (hs : Stacked stack) :
    t.WellFormed ∧ Continues t.stack := by
  cases h
  case list finish close =>
    obtain ⟨frame, continues, rest⟩ := hs
    exact wellFormed_of_closeList hp rest continues (ListWellFormed.finishes frame finish) close
  case comma finish =>
    obtain ⟨frame, continues, rest⟩ := hs
    have frame := ListWellFormed.finishes frame (.entry finish)
    exact ⟨⟨hp, ⟨frame, continues, rest⟩, trivial⟩, List.forall_mem_nil _⟩
  case block close =>
    obtain ⟨frame, continues, rest⟩ := hs
    exact wellFormed_of_closeBlock hp rest continues frame close

-- What remains when the newest node is taken back.
theorem Takes.wellFormed {n : Node} (h : Takes program stack n t)
    (hp : ∀ n ∈ program.toList, n.WellFormed false) (hs : Stacked stack) :
    t.WellFormed ∧ Continues t.stack ∧ IsOpen t.stack ∧ n.WellFormed (Declares t.stack) := by
  cases h
  case program settled recent =>
    have hp : ∀ m ∈ Sequence.toList ⟨settled, recent⟩ ++ [n], m.WellFormed false := by
      rwa [← Sequence.toList_push]
    obtain ⟨rest, last⟩ := List.forall_mem_append.mp hp
    exact ⟨⟨rest, trivial, trivial⟩, trivial, trivial, last n (.head _)⟩
  case list =>
    obtain ⟨⟨named, outside, admits, nodes, tail⟩, continues, rest⟩ := hs
    obtain ⟨entry_wf, entries_wf⟩ := List.forall_mem_cons.mp nodes
    obtain ⟨n_wf, entry_wf⟩ := List.forall_mem_cons.mp entry_wf
    have nodes := List.forall_mem_cons.mpr ⟨entry_wf, entries_wf⟩
    have tail' := fun m hm => tail m (List.mem_of_mem_tail hm)
    exact ⟨⟨hp, ⟨⟨named, outside, admits, nodes, tail'⟩, continues, rest⟩, trivial⟩, tail,
      trivial, by simpa using n_wf⟩
  case block stack header place settled recent =>
    obtain ⟨⟨header_wf, nodes⟩, continues, rest⟩ := hs
    have nodes : ∀ m ∈ Sequence.toList ⟨settled, recent⟩ ++ [n],
        m.WellFormed (header.isSome || Declares stack) := by
      rwa [← Sequence.toList_push]
    obtain ⟨nodes, last⟩ := List.forall_mem_append.mp nodes
    exact ⟨⟨hp, ⟨⟨header_wf, nodes⟩, continues, rest⟩, trivial⟩, trivial, trivial,
      by simpa using last n (.head _)⟩

-- The leaf of a token that is written somewhere.
theorem leaf_wellFormed (place : Location) {token : Token} {spelling : List Char} {kind : Kind} {value : String}
    (spelt : Spelt token spelling) (leaf : leafOf? token = some (kind, value)) :
    (∀ nested, (Node.leaf kind value place).WellFormed nested) ∧
      ¬(kind = .typeOf ∨ kind = .typeCast) := by
  cases spelt <;> cases leaf
  case constant.refl c    => exact ⟨fun _ => .constant c, by cases c <;> simp [Constant.kind]⟩
  case word.refl h        => exact ⟨fun _ => .identifier (by simpa using .inl h), by simp⟩
  case digitName.refl h   => exact ⟨fun _ => .identifier (by simpa using .inr h), by simp⟩
  case string.refl h _ _  => exact ⟨fun _ => .string (by simpa using h), by simp⟩
  case number.refl form h =>
    refine ⟨fun _ => .number (by simpa using h), ?_⟩
    rcases form with _ | _ | ⟨⟨⟩⟩ <;> exact nofun

end

theorem declares_eq_false {stack : List Frame}
    (h : .declaration ∉ stack.flatMap Frame.constructs) : Declares stack = false := by
  simpa [Declares] using h

-- A type query at the end of an entry leaves only tokens that end the entry or compare the query.
theorem Transition.wellFormed {s t : State} {l : Lexeme} (h : Transition s l t)
    (spelt : ¬l.token.isMistake → ∃ spelling, Spelt l.token spelling) (hs : s.WellFormed)
    (hc : Continues s.stack ∨ endsQuery l.token) : t.WellFormed ∧ Continues t.stack := by
  obtain ⟨hp, stack, awaited⟩ := hs
  cases h
  case leaf token start stop kind value leaf put =>
    have ok : ¬token.isMistake := by cases token <;> simp_all [leafOf?, Token.isMistake]
    have ordinary : endsQuery token = false := by cases token <;> first | rfl | cases leaf
    obtain ⟨spelling, spelt⟩ := spelt ok
    obtain ⟨node, ordinaryKind⟩ := leaf_wellFormed start spelt leaf
    have continues := hc.resolve_right (by simp [ordinary])
    obtain ⟨wf, continues⟩ := wellFormed_of_deliver hp stack continues (node _)
      (fun h => absurd h ordinaryKind) put
    exact ⟨wf, continues fun h => ordinaryKind (.inl h)⟩
  case callee outside =>
    have continues := hc.resolve_right Bool.false_ne_true
    obtain ⟨spelling, spelt⟩ := spelt Bool.false_ne_true
    cases spelt
    case word isWord =>
      exact ⟨⟨hp, stack, continues, rfl, by simpa [Opening.Named] using isWord, by
        simp [Opening.declares]⟩, continues⟩
  case declaration outside =>
    have continues := hc.resolve_right Bool.false_ne_true
    exact ⟨⟨hp, ⟨declares_eq_false outside, continues, stack⟩, trivial⟩, trivial⟩
  case negation =>
    have continues := hc.resolve_right Bool.false_ne_true
    exact ⟨⟨hp, ⟨rfl, continues, stack⟩, trivial⟩, trivial⟩
  case operator ne left accepts =>
    obtain ⟨⟨hp, stack, _⟩, continues, isOpen, lhs⟩ := left.wellFormed hp stack
    refine ⟨⟨hp, ⟨⟨ne, isOpen, lhs.bindsLeft accepts, lhs⟩, continues, stack⟩, ?_⟩, trivial⟩
    cases left <;> exact trivial
  case counter c start _ lhs s left accepts ne put =>
    obtain ⟨⟨hp, stack, _⟩, continues, isOpen, lhs⟩ := left.wellFormed hp stack
    have node : Node.WellFormed _ (.after c.kind _ start) :=
      .counter c (lhs.bindsLeft accepts) ne lhs
    obtain ⟨wf, continues⟩ := wellFormed_of_deliver hp stack continues node (fun _ => isOpen) put
    exact ⟨wf, continues (by cases c <;> simp [Node.after, Counter.kind])⟩
  case openBlock =>
    have continues := hc.resolve_right Bool.false_ne_true
    exact ⟨⟨hp, ⟨⟨by simp, by simp [Sequence.toList]⟩, continues, stack⟩, trivial⟩, trivial⟩
  case openBody =>
    obtain ⟨continues, header, outside⟩ := awaited
    exact ⟨⟨hp, ⟨⟨by simpa using ⟨header, outside⟩, by simp [Sequence.toList]⟩, continues, stack⟩,
      trivial⟩, trivial⟩
  case openGroup | openParameters =>
    have continues := hc.resolve_right Bool.false_ne_true
    exact ⟨⟨hp, ⟨ListWellFormed.empty trivial (by simp [Opening.declares]), continues, stack⟩, trivial⟩,
      List.forall_mem_nil _⟩
  case openAwaited =>
    obtain ⟨continues, _, named, outside⟩ := awaited
    exact ⟨⟨hp, ⟨ListWellFormed.empty named outside, continues, stack⟩, trivial⟩,
      List.forall_mem_nil _⟩
  case separator => exact ⟨⟨hp, stack, trivial⟩, awaited⟩
  case close closing => exact closing.wellFormed hp stack

theorem wellFormed_of_step {s t : State} {l : Lexeme} (h : s.step l = .ok t)
    (spelt : ¬l.token.isMistake → ∃ spelling, Spelt l.token spelling) (hs : s.WellFormed)
    (hc : Continues s.stack) : t.WellFormed ∧ Continues t.stack := by
  obtain ⟨u, settled, hu⟩ := transition_of_step h
  rcases settled with rfl | ⟨settled, ends⟩
  · exact hu.wellFormed spelt hs (.inl hc)
  · exact hu.wellFormed spelt (settled.wellFormed hs) (.inr ends)

theorem LineBreak.wellFormed {s t : State} (h : LineBreak s t) (hs : s.WellFormed) :
    t.WellFormed ∧ Continues t.stack := by
  obtain ⟨hp, stack, awaited⟩ := hs
  cases h
  case program => exact ⟨⟨by simpa [Sequence.toList_settle] using hp, trivial, trivial⟩, trivial⟩
  case entry finish =>
    obtain ⟨frame, continues, rest⟩ := stack
    have frame := ListWellFormed.finishes frame (.entry finish)
    exact ⟨⟨hp, ⟨frame, continues, rest⟩, trivial⟩, List.forall_mem_nil _⟩
  case noEntry => exact ⟨⟨hp, stack, trivial⟩, List.forall_mem_nil _⟩
  case block =>
    obtain ⟨⟨header_wf, nodes⟩, continues, rest⟩ := stack
    rw [← Sequence.toList_settle] at nodes
    exact ⟨⟨hp, ⟨⟨header_wf, nodes⟩, continues, rest⟩, trivial⟩, trivial⟩
  case separator   => exact ⟨⟨hp, stack, trivial⟩, awaited⟩
  case parenthesis => exact ⟨⟨hp, stack, awaited⟩, awaited.1⟩
  case brace       => exact ⟨⟨hp, stack, awaited⟩, awaited.1⟩

theorem wellFormed_of_endLine {s t : State} {stop : Location} (h : s.endLine stop = .ok t)
    (hs : s.WellFormed) : t.WellFormed ∧ Continues t.stack := by
  obtain ⟨u, settled, hu⟩ := lineBreak_of_endLine h
  rcases settled with rfl | settled
  · exact hu.wellFormed hs
  · exact hu.wellFormed (settled.wellFormed hs)

end State

theorem isProgram_of_parse {text : String} {root : Node} (h : parse text = .ok root) :
    root.IsProgram := by
  have start : State.WellFormed {} ∧ Continues [] := ⟨⟨List.forall_mem_nil _, trivial, trivial⟩, trivial⟩
  obtain ⟨s, ⟨wf, _⟩, _, _, root_eq⟩ := parse_induction
    (P := fun _ s => s.WellFormed ∧ Continues s.stack)
    (Q := fun _ _ s => s.WellFormed ∧ Continues s.stack) start (fun _ _ _ _ hs => hs)
    (fun l hl x hx _ s t ⟨hs, hc⟩ ht =>
      State.wellFormed_of_step ht (spelt_of_mem_lexemes hl hx) hs hc)
    (fun _ _ _ _ _ ⟨hs, _⟩ ht => State.wellFormed_of_endLine ht hs) h
  subst root_eq
  exact ⟨rfl, wf.program⟩

-- An accepted text is a sequence of well-formed trees, and every node in them is well-formed.
theorem parse_wellFormed {text : String} {root : Node} (h : parse text = .ok root) :
    root.IsProgram ∧ ∀ n ∈ root.descendants, ∃ nested, n.WellFormed nested := by
  have isProgram := isProgram_of_parse h
  exact ⟨isProgram, isProgram.wellFormed⟩

theorem parse_wellFormed_comparison :
    ∃ root, parse "\x7b a:: == true \x7d" = .ok root ∧ root.IsProgram ∧
      ∀ n ∈ root.descendants, ∃ nested, n.WellFormed nested := by
  let query : Node := .after .typeOf (.leaf .identifier "a" ⟨1, 3⟩) ⟨1, 4⟩
  let comparison : Node := .between .equal query (.leaf .truth "" ⟨1, 10⟩) ⟨1, 7⟩
  let block : Node := { kind := .block, children := [comparison], location := ⟨1, 1⟩ }
  have h : parse "\x7b a:: == true \x7d" =
      .ok { kind := .root, children := [block], location := ⟨1, 1⟩ } := rfl
  exact ⟨_, h, parse_wellFormed h⟩

end WispSyntax.Parser

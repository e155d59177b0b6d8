import WispSyntax.Proofs.Legibility
import WispSyntax.Proofs.Shape

/-!
The parser rebuilds a tree from its tokens. `Leads` follows the parser through items wherever they
stand, and a well-formed tree is handed over by the parser once its items have been read
(`rebuilds`).
-/

namespace WispSyntax

namespace Node

mutual

-- A tree without the places of its nodes.
def bare : Node → Node
  | ⟨kind, value, lhs, rhs, alt, params, children, _⟩ =>
    { kind, value, lhs := bareOption lhs, rhs := bareOption rhs, alt := bareOption alt
      params := bareLists params, children := bareList children }

def bareOption : Option Node → Option Node
  | none   => none
  | some n => some (bare n)

def bareList : List Node → List Node
  | []      => []
  | n :: ns => bare n :: bareList ns

def bareLists : List (List Node) → List (List Node)
  | []        => []
  | ns :: nss => bareList ns :: bareLists nss

end

theorem bareOption_eq (n : Option Node) : bareOption n = n.map bare := by
  cases n <;> rfl

theorem bareList_eq (ns : List Node) : bareList ns = ns.map bare := by
  induction ns
  case nil          => rfl
  case cons n ns hi => rw [bareList, hi, List.map_cons]

theorem bareLists_eq (nss : List (List Node)) : bareLists nss = nss.map (·.map bare) := by
  induction nss
  case nil            => rfl
  case cons ns nss hi => rw [bareLists, hi, bareList_eq, List.map_cons]

theorem bare_eq (n : Node) :
    n.bare = { kind := n.kind, value := n.value, lhs := n.lhs.map bare, rhs := n.rhs.map bare
               alt := n.alt.map bare, params := n.params.map (·.map bare)
               children := n.children.map bare } := by
  cases n
  simp only [bare, bareOption_eq, bareList_eq, bareLists_eq]

section
variable {kind : Kind} {place : Location}

theorem bare_between (lhs rhs : Node) :
    (between kind lhs rhs place).bare = between kind lhs.bare rhs.bare {} :=
  rfl

theorem bare_after (operand : Node) : (after kind operand place).bare = after kind operand.bare {} :=
  rfl

theorem bare_before (operand : Node) :
    (before kind operand place).bare = before kind operand.bare {} :=
  rfl

end

theorem kind_eq_of_bare {m n : Node} (h : m.bare = n.bare) : m.kind = n.kind := by
  have kind_eq := congrArg Node.kind h
  simpa [bare_eq] using kind_eq

end Node

namespace Parser

namespace State

-- Wherever they stand, the parser takes all of the items and is then in a state as required.
def Leads (s : State) : List Item → (State → Prop) → Prop
  | [],                post => post s
  | .token t :: items, post =>
    ∀ l : Lexeme, l.token = t → ∃ u, s.step l = .ok u ∧ u.Leads items post
  | .newline :: items, post => ∀ stop, ∃ u, s.endLine stop = .ok u ∧ u.Leads items post

theorem leads_append {s : State} {xs ys : List Item} {post : State → Prop} :
    s.Leads (xs ++ ys) post ↔ s.Leads xs (·.Leads ys post) := by
  induction xs generalizing s
  case nil => rfl
  case cons x xs hi => cases x <;> simp [Leads, hi]

theorem foldlM_of_leads {s : State} {ls : List Lexeme} {items : List Item} {post : State → Prop}
    (h : s.Leads (ls.map (.token ·.token) ++ items) post) :
    ∃ t, ls.foldlM step s = .ok t ∧ t.Leads items post := by
  induction ls generalizing s
  case nil => exact ⟨s, rfl, h⟩
  case cons l ls hi =>
    have ⟨u, hu, next⟩ := h l rfl
    have ⟨t, ht, last⟩ := hi next
    exact ⟨t, by rw [List.foldlM_cons, bind_eq_ok_iff]; exact ⟨u, hu, ht⟩, last⟩

theorem readLines_of_leads {s : State} {lines : List SourceLine} {post : State → Prop}
    (h : s.Leads (lines.flatMap SourceLine.items) post) :
    ∃ t, s.readLines lines = .ok t ∧ post t := by
  induction lines generalizing s
  case nil => exact ⟨s, rfl, h⟩
  case cons l lines hi =>
    rw [List.flatMap_cons, SourceLine.items, List.append_assoc] at h
    obtain ⟨u, hu, next⟩ := foldlM_of_leads h
    obtain ⟨v, hv, next⟩ := next l.stop
    obtain ⟨t, ht, last⟩ := hi next
    have read : s.readLine l = .ok v := bind_eq_ok_iff.mpr ⟨u, hu, hv⟩
    exact ⟨t, by rw [readLines, List.foldlM_cons, bind_eq_ok_iff]; exact ⟨v, read, ht⟩, last⟩

end State

-- Where any number of nodes may stand side by side.
def Welcomes : List Frame → Prop
  | [] | .block _ _ _ :: _                  => True
  | .list _ _ _ _ budget :: _               => budget = .unbounded
  | .operator _ _ _ :: _ | .naming _ :: _   => False

namespace State

-- Another node among those side by side.
def add (s : State) (n : Node) : State :=
  match s.stack with
  | []                                                   => { s with program := s.program.push n }
  | .list opening place entries entry budget :: stack =>
    { s with stack := .list opening place entries (n :: entry) budget :: stack }
  | .block header place content :: stack                 =>
    { s with stack := .block header place (content.push n) :: stack }
  | _                                                    => s

section
variable {program : Sequence} {stack : List Frame} {n : Node}

theorem deliver_welcomes (h : Welcomes stack) :
    deliver program n stack = .ok (add ⟨.anything, stack, program⟩ n) := by
  rcases stack with _ | ⟨_ | _ | _ | _, stack⟩
  case nil => rfl
  case cons.list =>
    cases h
    rfl
  case cons.block => rfl
  all_goals exact h.elim

theorem takeBack_add (h : Welcomes stack) :
    (add ⟨.anything, stack, program⟩ n).takeBack = some (n, ⟨.anything, stack, program⟩) := by
  rcases stack with _ | ⟨_ | _ | _ | _, stack⟩
  case cons.operator | cons.naming => exact h.elim
  all_goals rfl

theorem awaited_add (h : Welcomes stack) :
    (add ⟨.anything, stack, program⟩ n).awaited = .anything := by
  rcases stack with _ | ⟨_ | _ | _ | _, stack⟩
  case cons.operator | cons.naming => exact h.elim
  all_goals rfl

theorem settleCast_add (h : Welcomes stack) :
    (add ⟨.anything, stack, program⟩ n).settleCast = .ok (add ⟨.anything, stack, program⟩ n) := by
  rcases stack with _ | ⟨_ | _ | _ | _, stack⟩
  case cons.operator | cons.naming => exact h.elim
  all_goals rfl

end

section
variable {program : Sequence} {stack : List Frame}

-- A cast that is waiting for a type, on top of the stack, and what becomes of it without one.
def pending (program : Sequence) (stack : List Frame) (lhs : Option Node) (place : Location) :
    State :=
  ⟨.anything, .operator .cast lhs place :: stack, program⟩

def query (lhs : Option Node) (place : Location) : Node :=
  { kind := .typeOf, lhs, location := place }

variable {lhs : Option Node} {place : Location}

theorem settleCast_pending (h : Welcomes stack) :
    (pending program stack lhs place).settleCast =
      .ok (add ⟨.anything, stack, program⟩ (query lhs place)) :=
  deliver_welcomes h

theorem step_pending {l : Lexeme} (h : Welcomes stack)
    (ends : l.token.isRelation ∨ closes ⟨.anything, stack, program⟩ l.token) :
    (pending program stack lhs place).step l =
      (add ⟨.anything, stack, program⟩ (query lhs place)).step l := by
  have closes_eq : (pending program stack lhs place).closes l.token =
      closes ⟨.anything, stack, program⟩ l.token := by
    cases l.token <;> rfl
  rw [← closes_eq, ← Bool.or_eq_true] at ends
  rw [step_of_settled (awaited_add h) (settleCast_add h)]
  simp [step, settleCast_pending h, ends, awaited_add h, bind, Except.bind]

theorem endLine_pending {stop : Location} (h : Welcomes stack) :
    (pending program stack lhs place).endLine stop =
      (add ⟨.anything, stack, program⟩ (query lhs place)).endLine stop := by
  rw [endLine, endLine, settleCast_pending h, settleCast_add h]

-- What ends a type query side by side with the nodes on top of the stack.
def EndsQuery (program : Sequence) (stack : List Frame) : Item → Prop
  | .newline => True
  | .token t => t.isRelation ∨ closes ⟨.anything, stack, program⟩ t

-- The parser may be handed the tree in whatever places, as far as it does not wait for a type.
def Yields (program : Sequence) (stack : List Frame) (n : Node) (post : State → Prop) : Prop :=
  ∀ m, m.bare = n.bare →
    (m.kind ≠ .typeOf → ∃ t, deliver program m stack = .ok t ∧ post t) ∧
    ∀ lhs place, m = query lhs place → post (pending program stack lhs place)

variable {n : Node} {post : State → Prop}

theorem yields_of_ne (ne : n.kind ≠ .typeOf)
    (next : ∀ m, m.bare = n.bare → ∃ t, deliver program m stack = .ok t ∧ post t) :
    Yields program stack n post := by
  intro m hm
  refine ⟨fun _ => next m hm, ?_⟩
  rintro lhs place rfl
  exact absurd (Node.kind_eq_of_bare hm).symm ne

theorem yields_of_welcomes (h : Welcomes stack) (ne : n.kind ≠ .typeOf)
    (next : ∀ m, m.bare = n.bare → post (add ⟨.anything, stack, program⟩ m)) :
    Yields program stack n post :=
  yields_of_ne ne fun m hm => ⟨_, deliver_welcomes h, next m hm⟩

-- A type query that is ended at once is as good as any other node.
theorem yields_of_endsQuery {x : Item} {items : List Item} (h : Welcomes stack)
    (ends : n.kind = .typeOf → EndsQuery program stack x)
    (next : ∀ m, m.bare = n.bare → (add ⟨.anything, stack, program⟩ m).Leads (x :: items) post) :
    Yields program stack n (·.Leads (x :: items) post) := by
  intro m hm
  refine ⟨fun _ => ⟨_, deliver_welcomes h, next m hm⟩, ?_⟩
  rintro lhs place rfl
  have ends := ends (Node.kind_eq_of_bare hm).symm
  cases x
  case token =>
    intro l hl
    rw [step_pending h (hl ▸ ends)]
    exact next _ hm l hl
  case newline =>
    intro stop
    rw [endLine_pending h]
    exact next _ hm stop

-- Where a node can be read.
structure Suits (nested : Bool) (n : Node) (stack : List Frame) : Prop where
  -- A left operand is read side by side with the nodes before it.
  room    : n.lhs ≠ none → Welcomes stack
  outside : (stack.flatMap Frame.constructs).head? ≠ some .declaration
  free    : nested = false → Declares stack = false

def Rebuilds (layout : Layout) (nested : Bool) (n : Node) : Prop :=
  ∀ program stack post, Suits nested n stack → Yields program stack n post →
    Leads ⟨.anything, stack, program⟩ (n.items layout) post

end

section
variable {layout : Layout} {nested : Bool} {place : Location}

theorem accept_leaf {s : State} {l : Lexeme} {kind : Kind} {value : String}
    (leaf : leafOf? l.token = some (kind, value)) (uncalled : l.token.isCalled = false) :
    s.accept l = s.put (.leaf kind value l.start) := by
  obtain ⟨token, start, stop⟩ := l
  cases token <;> cases leaf
  case name =>
    cases uncalled
    rfl
  all_goals rfl

theorem rebuilds_leaf {t : Token} {kind : Kind} {value : String} (ne : kind ≠ .typeOf)
    (items_eq : (Node.leaf kind value place).items layout = [.token t])
    (leaf : leafOf? t = some (kind, value)) (uncalled : t.isCalled = false) :
    Rebuilds layout nested (.leaf kind value place) := by
  intro program stack post _ yields
  rw [items_eq]
  rintro l rfl
  have plain : endsQuery l.token = false := by
    cases h : l.token <;> simp [h, leafOf?] at leaf <;> rfl
  obtain ⟨t, put, last⟩ := (yields (.leaf kind value l.start) rfl).1 ne
  exact ⟨t, by rw [step_of_not_endsQuery rfl plain, accept_leaf leaf uncalled]; exact put, last⟩

theorem takeLeft_add {program : Sequence} {stack : List Frame} {n : Node} {family : Family}
    (h : Welcomes stack) (accepts : family.acceptsLeft n.kind) :
    (add ⟨.anything, stack, program⟩ n).takeLeft family place =
      .ok (n, ⟨.anything, stack, program⟩) := by
  simp [takeLeft, takeBack_add h, accepts]

theorem accept_operator {s t : State} {l : Lexeme} {op : Operator} {lhs : Node}
    (token : l.token = .operator op) (ne : op ≠ .not)
    (left : ∀ place, s.takeLeft op.family place = .ok (lhs, t)) :
    s.accept l = .ok (t.push (.operator op (some lhs) l.start)) := by
  obtain ⟨_, start, stop⟩ := l
  cases token
  cases op
  case not => contradiction
  all_goals exact bind_eq_ok_iff.mpr ⟨(lhs, t), left _, rfl⟩

-- A right operand completes its operator.
theorem yields_operand {program : Sequence} {stack : List Frame} {op : Operator}
    {lhs : Option Node} {rhs : Node} {post : State → Prop} (ne : rhs.kind ≠ .typeOf)
    (accepts : op.family.acceptsRight rhs.kind)
    (next : ∀ r, r.bare = rhs.bare →
      ∃ t, deliver program (combine op lhs r place) stack = .ok t ∧ post t) :
    Yields program (.operator op lhs place :: stack) rhs post := by
  refine yields_of_ne ne fun r hr => ?_
  rw [deliver, if_pos (by rwa [Node.kind_eq_of_bare hr])]
  exact next r hr

theorem rebuilds_between {lhs rhs : Node} {op : Operator} (ne : op ≠ .not)
    (acceptsLeft : op.family.acceptsLeft lhs.kind) (acceptsRight : op.family.acceptsRight rhs.kind)
    (query : lhs.kind = .typeOf → (Token.operator op).isRelation) (first : rhs.lhs = none)
    (rhs_ne : rhs.kind ≠ .typeOf) (left : Rebuilds layout nested lhs)
    (right : Rebuilds layout nested rhs) :
    Rebuilds layout nested (.between op.kind lhs rhs place) := by
  intro program stack post suits yields
  have room := suits.room (by simp [Node.between])
  rw [Node.items_between, leads_append]
  refine left _ _ _ ⟨fun _ => room, suits.outside, suits.free⟩ ?_
  refine yields_of_endsQuery room (fun h => .inl (query h)) fun m hm l hl => ?_
  have accepts : op.family.acceptsLeft m.kind := by rwa [Node.kind_eq_of_bare hm]
  rw [step_of_settled (awaited_add room) (settleCast_add room),
    accept_operator hl ne fun place => takeLeft_add room accepts]
  refine ⟨_, rfl, right _ _ _ ⟨fun h => absurd first h, suits.outside, suits.free⟩ ?_⟩
  refine yields_operand rhs_ne acceptsRight fun r hr => ?_
  have ne : op.kind ≠ .typeOf := by
    rcases op with ⟨⟨⟩⟩ | ⟨⟨⟩⟩ | _ | _ | _ <;> intro isQuery <;> contradiction
  have bare_eq : (Node.between op.kind m r l.start).bare =
      (Node.between op.kind lhs rhs place).bare := by
    rw [Node.bare_between, Node.bare_between, hm, hr]
  exact (yields _ bare_eq).1 ne

theorem rebuilds_negation {rhs : Node} (isBoolean : rhs.kind.isBoolean) (first : rhs.lhs = none)
    (right : Rebuilds layout nested rhs) : Rebuilds layout nested (.before .not rhs place) := by
  intro program stack post suits yields
  rw [Node.items_negation]
  intro l hl
  have step_eq : step ⟨.anything, stack, program⟩ l =
      .ok ⟨.anything, .operator .not none l.start :: stack, program⟩ := by
    rw [step_of_not_endsQuery rfl (by rw [hl]; rfl)]
    simp [accept, hl, push]
  refine ⟨_, step_eq, right _ _ _ ⟨fun h => absurd first h, suits.outside, suits.free⟩ ?_⟩
  have rhs_ne : rhs.kind ≠ .typeOf := by
    intro h
    rw [h] at isBoolean
    contradiction
  refine yields_operand rhs_ne isBoolean fun r hr => ?_
  have bare_eq : (Node.before .not r l.start).bare = (Node.before .not rhs place).bare := by
    rw [Node.bare_before, Node.bare_before, hr]
  exact (yields _ bare_eq).1 (by simp [Node.before])

theorem rebuilds_query {lhs : Node} (isIdentifier : lhs.kind = .identifier)
    (left : Rebuilds layout nested lhs) : Rebuilds layout nested (.after .typeOf lhs place) := by
  intro program stack post suits yields
  have room := suits.room (by simp [Node.after])
  rw [Node.items_query, leads_append]
  refine left _ _ _ ⟨fun _ => room, suits.outside, suits.free⟩ ?_
  have lhs_ne : lhs.kind ≠ .typeOf := by simp [isIdentifier]
  refine yields_of_welcomes room lhs_ne fun m hm l hl => ?_
  have accepts : Family.typing.acceptsLeft m.kind := by
    simp [Node.kind_eq_of_bare hm, isIdentifier, Family.acceptsLeft]
  rw [step_of_settled (awaited_add room) (settleCast_add room),
    accept_operator hl (by simp) fun place => takeLeft_add room accepts]
  have bare_eq : (Node.after .typeOf m l.start).bare = (Node.after .typeOf lhs place).bare := by
    rw [Node.bare_after, Node.bare_after, hm]
  exact ⟨_, rfl, (yields _ bare_eq).2 _ _ rfl⟩

theorem rebuilds_counter {lhs : Node} (c : Counter) (acceptsLeft : Family.math.acceptsLeft lhs.kind)
    (ne : lhs.kind ≠ .string) (lhs_ne : lhs.kind ≠ .typeOf) (left : Rebuilds layout nested lhs) :
    Rebuilds layout nested (.after c.kind lhs place) := by
  intro program stack post suits yields
  have room := suits.room (by simp [Node.after])
  rw [Node.items_counter, leads_append]
  refine left _ _ _ ⟨fun _ => room, suits.outside, suits.free⟩ ?_
  refine yields_of_welcomes room lhs_ne fun m hm l hl => ?_
  have kind_eq := Node.kind_eq_of_bare hm
  have left_eq : (add ⟨.anything, stack, program⟩ m).takeLeft .math l.start =
      .ok (m, ⟨.anything, stack, program⟩) :=
    takeLeft_add room (by rwa [kind_eq])
  have step_eq : (add ⟨.anything, stack, program⟩ m).step l =
      deliver program (.after c.kind m l.start) stack := by
    rw [step_of_settled (awaited_add room) (settleCast_add room)]
    simp [accept, hl, left_eq, kind_eq, ne, put, bind, Except.bind]
  have bare_eq : (Node.after c.kind m l.start).bare = (Node.after c.kind lhs place).bare := by
    rw [Node.bare_after, Node.bare_after, hm]
  have ne : c.kind ≠ .typeOf := by
    cases c <;> intro isQuery <;> contradiction
  obtain ⟨t, put, last⟩ := (yields _ bare_eq).1 ne
  exact ⟨t, by rw [step_eq, put], last⟩

end
end State
end Parser
end WispSyntax

import WispSyntax.Proofs.Rebuilding

/-!
What stands between parentheses or braces is rebuilt if its parts are: groups, calls, blocks and
functions.
-/

namespace WispSyntax.Parser.State

section
variable {opening : Opening} {place : Location} {done : List (List Node)} {entry : List Node}
  {stack : List Frame} {program : Sequence} {l : Lexeme}

-- Between the parentheses of a group or a call: the finished entries and the nodes of the current
-- one, each newest first.
def within (opening : Opening) (place : Location) (done : List (List Node)) (entry : List Node)
    (stack : List Frame) (program : Sequence) : State :=
  ⟨.anything, .list opening place done entry .unbounded :: stack, program⟩

theorem step_comma (unpaired : opening.isPaired = false) (ne : entry ≠ [])
    (hl : l.token = .comma) :
    (within opening place done entry stack program).step l =
      .ok (within opening place (entry.reverse :: done) [] stack program) := by
  obtain ⟨token, start, stop⟩ := l
  obtain ⟨n, entry, rfl⟩ := List.exists_cons_of_ne_nil ne
  cases hl
  cases opening <;> cases unpaired <;> rfl

theorem step_closeParen (unpaired : opening.isPaired = false) (ne : entry ≠ [])
    (hl : l.token = .closeParen) :
    (within opening place done entry stack program).step l =
      closeList ⟨.anything, stack, program⟩ opening place (entry.reverse :: done) := by
  obtain ⟨token, start, stop⟩ := l
  obtain ⟨n, entry, rfl⟩ := List.exists_cons_of_ne_nil ne
  cases hl
  cases opening <;> cases unpaired <;> rfl

theorem step_closeParen_empty (unpaired : opening.isPaired = false) (hl : l.token = .closeParen) :
    (within opening place done [] stack program).step l =
      closeList ⟨.anything, stack, program⟩ opening place done := by
  obtain ⟨token, start, stop⟩ := l
  cases hl
  cases opening <;> cases unpaired <;> rfl

end

section
variable {layout : Layout} {nested : Bool} {opening : Opening} {place : Location}
  {stack : List Frame} {program : Sequence} {items : List Item} {post : State → Prop}

-- The items begin with a comma or with the parenthesis that closes the list.
def EndsEntry (items : List Item) : Prop :=
  ∃ t rest, items = .token t :: rest ∧ (t = .comma ∨ t = .closeParen)

theorem endsEntry_more (es : List (List Node)) :
    EndsEntry (Node.itemsMore layout es ++ .token .closeParen :: items) := by
  cases es
  case nil       => exact ⟨.closeParen, items, rfl, .inr rfl⟩
  case cons e es => exact ⟨.comma, _, by rw [Node.itemsMore]; rfl, .inl rfl⟩

theorem suits_within {n : Node} {done : List (List Node)} {entry : List Node}
    (unpaired : opening.isPaired = false) (free : nested = false → Declares stack = false) :
    Suits nested n (.list opening place done entry .unbounded :: stack) where
  room _  := rfl
  outside := by cases opening <;> cases unpaired <;> simp [Frame.constructs]
  free h  := by cases opening <;> cases unpaired <;> simp [Opening.declares, free h]

-- The nodes of an entry come in side by side.
theorem leads_entry {ns entry : List Node} {done : List (List Node)}
    (unpaired : opening.isPaired = false) (free : nested = false → Declares stack = false)
    (ne : ns ≠ []) (queries : ∀ n ∈ ns.dropLast, n.kind ≠ .typeOf)
    (rebuilds : ∀ n ∈ ns, Rebuilds layout nested n) (ends : EndsEntry items)
    (next : ∀ ms : List Node, ms.map Node.bare = ns.map Node.bare →
      (within opening place done (ms.reverse ++ entry) stack program).Leads items post) :
    (within opening place done entry stack program).Leads
      (Node.itemsList layout ns ++ items) post := by
  induction ns generalizing entry
  case nil => contradiction
  case cons n ns hi =>
    have ⟨first, rebuilds⟩ := List.forall_mem_cons.mp rebuilds
    rw [Node.itemsList, List.append_assoc, leads_append]
    refine first _ _ _ (suits_within unpaired free) ?_
    cases ns
    case nil =>
      obtain ⟨t, rest, rfl, ends⟩ := ends
      have closes : closes (within opening place done entry stack program) t := by
        rcases ends with rfl | rfl <;> cases opening <;> cases unpaired <;> rfl
      exact yields_of_endsQuery rfl (fun _ => .inr closes) fun m hm => next [m] (by simp [hm])
    case cons n' ns =>
      simp only [List.dropLast_cons_cons, List.forall_mem_cons] at queries
      refine yields_of_welcomes rfl queries.1 fun m hm => ?_
      refine hi (List.cons_ne_nil _ _) queries.2 rebuilds fun ms hms => ?_
      have all := next (m :: ms) (by simp [hm, hms])
      rwa [List.reverse_cons, List.append_assoc, List.singleton_append] at all

-- One entry after another, up to the closing parenthesis.
theorem leads_more {e : List Node} {es done : List (List Node)}
    (unpaired : opening.isPaired = false) (free : nested = false → Declares stack = false)
    (entries : ∀ f ∈ e :: es, Node.IsEntry f)
    (rebuilds : ∀ f ∈ e :: es, ∀ n ∈ f, Rebuilds layout nested n)
    (close : ∀ ps : List (List Node), ps.map (·.map Node.bare) = (e :: es).map (·.map Node.bare) →
      ∃ u, closeList ⟨.anything, stack, program⟩ opening place (ps.reverse ++ done) = .ok u ∧
        u.Leads items post) :
    (within opening place done [] stack program).Leads
      (Node.itemsList layout e ++ (Node.itemsMore layout es ++ .token .closeParen :: items))
      post := by
  induction es generalizing e done
  all_goals
    have ⟨isEntry, isEntries⟩ := List.forall_mem_cons.mp entries
    have ⟨first, others⟩ := List.forall_mem_cons.mp rebuilds
    refine leads_entry unpaired free isEntry.1 isEntry.2 first (endsEntry_more _) fun ms hms => ?_
    have ne : ms.reverse ++ [] ≠ [] := by
      have ne := isEntry.1
      rintro h
      simp_all
  case nil =>
    intro l hl
    rw [step_closeParen unpaired ne hl]
    have all := close [ms] (by simp [hms])
    simpa using all
  case cons e' es hi =>
    rw [Node.itemsMore, List.cons_append, List.cons_append, List.append_assoc]
    intro l hl
    refine ⟨_, step_comma unpaired ne hl, hi isEntries others fun ps hps => ?_⟩
    have all := close (ms :: ps) (by simpa [hms] using hps)
    simpa using all

theorem leads_entries {es : List (List Node)} (unpaired : opening.isPaired = false)
    (free : nested = false → Declares stack = false) (entries : ∀ e ∈ es, Node.IsEntry e)
    (rebuilds : ∀ e ∈ es, ∀ n ∈ e, Rebuilds layout nested n)
    (close : ∀ ps : List (List Node), ps.map (·.map Node.bare) = es.map (·.map Node.bare) →
      ∃ u, closeList ⟨.anything, stack, program⟩ opening place ps.reverse = .ok u ∧
        u.Leads items post) :
    (within opening place [] [] stack program).Leads
      (Node.itemsEntries layout es ++ .token .closeParen :: items) post := by
  cases es
  case nil =>
    intro l hl
    rw [step_closeParen_empty unpaired hl]
    exact close [] rfl
  case cons e es =>
    rw [Node.itemsEntries, List.append_assoc]
    refine leads_more unpaired free entries rebuilds fun ps hps => ?_
    rw [List.append_nil]
    exact close ps hps

theorem rebuilds_group {params : List (List Node)} (entries : ∀ e ∈ params, Node.IsEntry e)
    (rebuilds : ∀ e ∈ params, ∀ n ∈ e, Rebuilds layout nested n) :
    Rebuilds layout nested { kind := .group, params, location := place } := by
  intro program stack post suits yields
  rw [Node.items_group]
  intro l hl
  have step_eq : step ⟨.anything, stack, program⟩ l =
      .ok (within .group l.start [] [] stack program) := by
    rw [step_of_not_endsQuery rfl (by rw [hl]; rfl)]
    have outside : innermost ⟨.anything, stack, program⟩ ≠ some .declaration := suits.outside
    simp [accept, hl, outside, push, Frame.openList, Opening.budget, Opening.isPaired, within]
  refine ⟨_, step_eq, leads_entries rfl suits.free entries rebuilds fun ps hps => ?_⟩
  have bare_eq : Node.bare { kind := .group, params := ps, location := l.start } =
      Node.bare { kind := .group, params, location := place } := by
    simp [Node.bare_eq, hps]
  rw [closeList, List.reverse_reverse]
  exact (yields _ bare_eq).1 (by simp)

theorem rebuilds_call {value : String} {params : List (List Node)}
    (entries : ∀ e ∈ params, Node.IsEntry e)
    (rebuilds : ∀ e ∈ params, ∀ n ∈ e, Rebuilds layout nested n) :
    Rebuilds layout nested { kind := .call, value, params, location := place } := by
  intro program stack post suits yields
  rw [Node.items_call]
  intro l hl
  have step_eq : step ⟨.anything, stack, program⟩ l =
      .ok ⟨.parenthesis (.call value) l.start, stack, program⟩ := by
    rw [step_of_not_endsQuery rfl (by rw [hl]; rfl)]
    have outside : innermost ⟨.anything, stack, program⟩ ≠ some .declaration := suits.outside
    simp [accept, hl, outside, await]
  refine ⟨_, step_eq, fun paren hp => ?_⟩
  have step_eq : step ⟨.parenthesis (.call value) l.start, stack, program⟩ paren =
      .ok (within (.call value) l.start [] [] stack program) := by
    obtain ⟨token, start, stop⟩ := paren
    cases hp
    rfl
  refine ⟨_, step_eq, leads_entries rfl suits.free entries rebuilds fun ps hps => ?_⟩
  have bare_eq : Node.bare { kind := .call, value, params := ps, location := l.start } =
      Node.bare { kind := .call, value, params, location := place } := by
    simp [Node.bare_eq, hps]
  rw [closeList, List.reverse_reverse]
  exact (yields _ bare_eq).1 (by simp)

end

section
variable {layout : Layout} {nested : Bool} {items : List Item} {post : State → Prop}

-- A place for nodes each of which has a line of its own: the program or the inside of braces.
structure Room (body : Sequence → State) : Prop where
  anything (c : Sequence) : (body c).awaited = .anything
  welcomes (c : Sequence) : Welcomes (body c).stack
  add (c : Sequence) (n : Node) : (body c).add n = body (c.push n)
  endLine (c : Sequence) (stop : Location) : (body c).endLine stop = .ok (body c.settle)

theorem leads_lines {ns : List Node} {body : Sequence → State} {content : Sequence}
    (room : Room body) (suits : ∀ c, ∀ n ∈ ns, Suits nested n (body c).stack)
    (rebuilds : ∀ n ∈ ns, Rebuilds layout nested n)
    (next : ∀ c : Sequence,
      c.toList.map Node.bare = content.toList.map Node.bare ++ ns.map Node.bare →
      (body c).Leads items post) :
    (body content).Leads (Node.itemsLines layout ns ++ items) post := by
  induction ns generalizing content
  case nil => exact next content (by simp)
  case cons n ns hi =>
    have ⟨first, others⟩ := List.forall_mem_cons.mp rebuilds
    rw [Node.itemsLines, List.append_assoc, leads_append]
    have body_eq : body content = ⟨.anything, (body content).stack, (body content).program⟩ := by
      rw [← room.anything content]
    rw [body_eq]
    refine first _ _ _ (suits content n (.head _)) ?_
    refine yields_of_endsQuery (room.welcomes content) (fun _ => trivial) fun m hm stop => ?_
    rw [← body_eq, room.add, room.endLine]
    refine ⟨_, rfl, hi (fun c n hn => suits c n (.tail _ hn)) others fun c hc => next c ?_⟩
    rw [hc, Sequence.toList_settle, Sequence.toList_push]
    simp [hm]

-- The children between braces, up to the closing one.
theorem leads_body {children : List Node} {header : Option Header} {place : Location}
    {stack : List Frame} {program : Sequence}
    (rebuilds : ∀ n ∈ children, Rebuilds layout nested n)
    (free : nested = false → (header.isSome || Declares stack) = false)
    (close : ∀ c : Sequence, c.toList.map Node.bare = children.map Node.bare →
      ∃ u, closeBlock ⟨.anything, stack, program⟩ header place c = .ok u ∧ u.Leads items post) :
    Leads ⟨.anything, .openBlock header place :: stack, program⟩
      (.newline :: (Node.itemsLines layout children ++ .token .closeBrace :: items)) post := by
  let body (c : Sequence) : State := ⟨.anything, .block header place c :: stack, program⟩
  have room : Room body := ⟨fun _ => rfl, fun _ => trivial, fun _ _ => rfl, fun _ _ => rfl⟩
  have inside (c) (n : Node) : Suits nested n (body c).stack := by
    refine ⟨fun _ => trivial, ?_, fun h => ?_⟩
    · cases header <;> simp [body, Frame.constructs]
    · simpa [body] using free h
  refine fun stop => ⟨body {}, rfl, ?_⟩
  refine leads_lines room (fun c n _ => inside c n) rebuilds fun c hc brace hb => ?_
  have step_eq : step (body c) brace =
      closeBlock ⟨.anything, stack, program⟩ header place c := by
    obtain ⟨token, start, stop⟩ := brace
    cases hb
    cases header <;> rfl
  rw [step_eq]
  exact close c hc

theorem rebuilds_block {children : List Node} {place : Location}
    (rebuilds : ∀ n ∈ children, Rebuilds layout nested n) :
    Rebuilds layout nested { kind := .block, children, location := place } := by
  intro program stack post suits yields
  rw [Node.items_block]
  intro l hl
  have step_eq : step ⟨.anything, stack, program⟩ l =
      .ok ⟨.anything, .openBlock none l.start :: stack, program⟩ := by
    rw [step_of_not_endsQuery rfl (by rw [hl]; rfl)]
    simp [accept, hl, push]
  refine ⟨_, step_eq, leads_body rebuilds (by simpa using suits.free) fun c hc => ?_⟩
  have bare_eq : Node.bare { kind := .block, children := c.toList, location := l.start } =
      Node.bare { kind := .block, children, location := place } := by
    simp only [Node.bare_eq, hc]
  exact (yields _ bare_eq).1 (by simp)

end

section
variable {layout : Layout} {value : String} {place : Location} {done es : List (List Node)}
  {stack : List Frame} {program : Sequence} {items : List Item} {post : State → Prop}

-- Between the parentheses after the name of a function, with no parameter begun.
def parameters (awaited : Awaited) (value : String) (place : Location) (done : List (List Node))
    (stack : List Frame) (program : Sequence) : State :=
  ⟨awaited, .list (.signature value) place done [] (.limited 2) :: stack, program⟩

theorem leads_parameter {e : List Node} (isParameter : Node.IsParameter e)
    (names : ∀ n ∈ e, n.WellFormed true)
    (next : ∀ ms : List Node, ms.map Node.bare = e.map Node.bare →
      (parameters .separator value place (ms :: done) stack program).Leads items post) :
    (parameters .anything value place done stack program).Leads
      (Node.itemsList layout e ++ items) post := by
  obtain ⟨name, type, rfl, hn, ht⟩ := isParameter
  simp only [List.forall_mem_cons] at names
  rw [names.1.eq_leaf hn, names.2.1.eq_leaf ht] at next ⊢
  intro l hl
  let frame : Frame := .list (.signature value) place done
    [.leaf .identifier name.value l.start] (.limited 1)
  have step_eq : (parameters .anything value place done stack program).step l =
      .ok ⟨.anything, frame :: stack, program⟩ := by
    rw [step_of_not_endsQuery rfl (by rw [hl]; rfl),
      accept_leaf (by rw [hl]; rfl) (by rw [hl]; rfl)]
    rfl
  refine ⟨_, step_eq, fun l' hl' => ?_⟩
  let ms : List Node :=
    [.leaf .identifier name.value l.start, .leaf .identifier type.value l'.start]
  have step_eq : step ⟨.anything, frame :: stack, program⟩ l' =
      .ok (parameters .separator value place (ms :: done) stack program) := by
    rw [step_of_not_endsQuery rfl (by rw [hl']; rfl),
      accept_leaf (by rw [hl']; rfl) (by rw [hl']; rfl)]
    rfl
  exact ⟨_, step_eq, next ms rfl⟩

theorem leads_moreParameters (isParameter : ∀ e ∈ es, Node.IsParameter e)
    (names : ∀ e ∈ es, ∀ n ∈ e, n.WellFormed true)
    (next : ∀ ps : List (List Node), ps.map (·.map Node.bare) = es.map (·.map Node.bare) →
      Leads ⟨.brace ⟨value, done.reverse ++ ps, place⟩, stack, program⟩ items post) :
    (parameters .separator value place done stack program).Leads
      (Node.itemsMore layout es ++ .token .closeParen :: items) post := by
  induction es generalizing done
  case nil =>
    intro l hl
    have step_eq : (parameters .separator value place done stack program).step l =
        .ok ⟨.brace ⟨value, done.reverse, place⟩, stack, program⟩ := by
      obtain ⟨token, start, stop⟩ := l
      cases hl
      rfl
    have all := next [] rfl
    rw [List.append_nil] at all
    exact ⟨_, step_eq, all⟩
  case cons e es hi =>
    have ⟨first, others⟩ := List.forall_mem_cons.mp isParameter
    have ⟨firstNames, otherNames⟩ := List.forall_mem_cons.mp names
    rw [Node.itemsMore, List.cons_append, List.cons_append, List.append_assoc]
    intro l hl
    have step_eq : (parameters .separator value place done stack program).step l =
        .ok (parameters .anything value place done stack program) := by
      obtain ⟨token, start, stop⟩ := l
      cases hl
      rfl
    refine ⟨_, step_eq, leads_parameter first firstNames fun ms hms => ?_⟩
    refine hi others otherNames fun ps hps => ?_
    have all := next (ms :: ps) (by simp [hms, hps])
    simpa using all

theorem leads_parameters (isParameter : ∀ e ∈ es, Node.IsParameter e)
    (names : ∀ e ∈ es, ∀ n ∈ e, n.WellFormed true)
    (next : ∀ ps : List (List Node), ps.map (·.map Node.bare) = es.map (·.map Node.bare) →
      Leads ⟨.brace ⟨value, ps, place⟩, stack, program⟩ items post) :
    (parameters .anything value place [] stack program).Leads
      (Node.itemsEntries layout es ++ .token .closeParen :: items) post := by
  cases es
  case nil =>
    intro l hl
    have step_eq : (parameters .anything value place [] stack program).step l =
        .ok ⟨.brace ⟨value, [], place⟩, stack, program⟩ := by
      obtain ⟨token, start, stop⟩ := l
      cases hl
      rfl
    exact ⟨_, step_eq, next [] rfl⟩
  case cons e es =>
    have ⟨first, others⟩ := List.forall_mem_cons.mp isParameter
    have ⟨firstNames, otherNames⟩ := List.forall_mem_cons.mp names
    rw [Node.itemsEntries, List.append_assoc]
    refine leads_parameter first firstNames fun ms hms => ?_
    refine leads_moreParameters others otherNames fun ps hps => ?_
    exact next (ms :: ps) (by simp [hms, hps])

-- The head of a declaration up to its parenthesis.
theorem leads_head (free : Declares stack = false)
    (next : ∀ place, (parameters .anything value place [] stack program).Leads items post) :
    Leads ⟨.anything, stack, program⟩
      (.token .function :: .token (Node.headName layout value) :: .token .openParen :: items)
      post := by
  intro l hl
  have step_eq : step ⟨.anything, stack, program⟩ l =
      .ok ⟨.anything, .naming l.start :: stack, program⟩ := by
    have free : .declaration ∉ constructs ⟨.anything, stack, program⟩ := of_decide_eq_false free
    rw [step_of_not_endsQuery rfl (by rw [hl]; rfl)]
    simp [accept, hl, free, push]
  refine ⟨_, step_eq, fun name hn => ?_⟩
  have step_eq : step ⟨.anything, .naming l.start :: stack, program⟩ name =
      .ok ⟨.parenthesis (.signature value) l.start, stack, program⟩ := by
    rw [step_of_not_endsQuery rfl (by rw [hn]; rfl)]
    simp [accept, hn, Node.headName, innermost, constructs, Awaited.constructs, Frame.constructs,
      put, deliver, Node.leaf]
  refine ⟨_, step_eq, fun paren hp => ?_⟩
  have step_eq : step ⟨.parenthesis (.signature value) l.start, stack, program⟩ paren =
      .ok (parameters .anything value l.start [] stack program) := by
    obtain ⟨token, start, stop⟩ := paren
    cases hp
    rfl
  exact ⟨_, step_eq, next l.start⟩

theorem rebuilds_function {params : List (List Node)} {children : List Node}
    (isParameter : ∀ e ∈ params, Node.IsParameter e)
    (names : ∀ e ∈ params, ∀ n ∈ e, n.WellFormed true)
    (rebuilds : ∀ n ∈ children, Rebuilds layout true n) :
    Rebuilds layout false { kind := .function, value, params, children, location := place } := by
  intro program stack post suits yields
  simp only [Node.items_function, List.cons_append, List.append_assoc]
  refine leads_head (suits.free rfl) fun start => ?_
  refine leads_parameters isParameter names fun ps hps brace hb => ?_
  have step_eq : step ⟨.brace ⟨value, ps, start⟩, stack, program⟩ brace =
      .ok ⟨.anything, .openBlock (some ⟨value, ps, start⟩) start :: stack, program⟩ := by
    obtain ⟨token, _, stop⟩ := brace
    cases hb
    rfl
  refine ⟨_, step_eq, leads_body rebuilds (by simp) fun c hc => ?_⟩
  have bare_eq : Node.bare { kind := .function, value, params := ps, children := c.toList
                             location := start } =
      Node.bare { kind := .function, value, params, children, location := place } := by
    simp only [Node.bare_eq, hps, hc]
  exact (yields _ bare_eq).1 (by simp)

end
end WispSyntax.Parser.State

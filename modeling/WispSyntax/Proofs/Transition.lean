import WispSyntax.Parser.Step

/-!
What a token and the end of a line do to a state that they do not refuse. `Settling` is what comes
first, a cast that turns out to be a type query; `Transition` and `LineBreak` are the rest, one
constructor for each thing that can happen. Whatever is kept by these is kept by the parser.
-/

namespace WispSyntax.Parser

theorem bind_eq_ok_iff {α β ε : Type} {x : Except ε α} {g : α → Except ε β} {b : β} :
    (x >>= g) = .ok b ↔ ∃ a, x = .ok a ∧ g a = .ok b := by
  cases x <;> simp [bind, Except.bind]

-- The kind and the value of the leaf that a token stands for on its own.
def leafOf? : Token → Option (Kind × String)
  | .constant c       => some (c.kind, "")
  | .name text _      => some (.identifier, text)
  | .number form text => some (form.kind, text)
  | .string text      => some (.string, text)
  | _                 => none

namespace State

-- A cast that gets no type becomes a type query.
inductive Settles : State → State → Prop
  | query {stack program lhs place t}
      (put : deliver program { kind := .typeOf, lhs, location := place } stack = .ok t) :
      Settles ⟨.anything, .operator .cast lhs place :: stack, program⟩ t

theorem settles_of_settleCast {s t : State} (h : s.settleCast = .ok t) : t = s ∨ Settles s t := by
  obtain ⟨awaited, stack, program⟩ := s
  unfold settleCast at h
  split at h
  case h_1 lhs place stack ha hs =>
    cases ha; cases hs
    exact .inr (.query h)
  case h_2 =>
    cases h
    exact .inl rfl

-- The entries of parentheses once the current entry, unless it is empty, is finished too.
inductive Finishes (opening : Opening) (entries : List (List Node)) :
    List Node → List (List Node) → Prop
  | none : Finishes opening entries [] entries
  | entry {n entry full} (finish : finishEntry opening (n :: entry) = .ok full) :
      Finishes opening entries (n :: entry) (full :: entries)

theorem eq_of_finishEntry {opening : Opening} {entry full : List Node}
    (h : finishEntry opening entry = .ok full) : full = entry.reverse := by
  unfold finishEntry at h
  split at h <;> cases h
  rfl

theorem Finishes.flatten_eq {opening : Opening} {entries full : List (List Node)}
    {entry : List Node} (h : Finishes opening entries entry full) :
    full.reverse.flatten = entries.reverse.flatten ++ entry.reverse := by
  cases h
  case none => simp
  case entry finish => simp [eq_of_finishEntry finish]

-- What a closing token does to a stack.
inductive Closing (program : Sequence) : List Frame → Token → State → Prop
  | list {stack opening place entries entry budget full t}
      (finish : Finishes opening entries entry full)
      (close : closeList ⟨.anything, stack, program⟩ opening place full = .ok t) :
      Closing program (.list opening place entries entry budget :: stack) .closeParen t
  | comma {stack opening place entries n entry budget full}
      (finish : finishEntry opening (n :: entry) = .ok full) :
      Closing program (.list opening place entries (n :: entry) budget :: stack) .comma
        ⟨.anything, .list opening place (full :: entries) [] opening.budget :: stack, program⟩
  | block {stack header place content t}
      (close : closeBlock ⟨.anything, stack, program⟩ header place content = .ok t) :
      Closing program (.block header place content :: stack) .closeBrace t

-- Where the left operand of an operator is taken from: it is the newest node of the line.
inductive Takes : Sequence → List Frame → Node → State → Prop
  | program {settled n recent} :
      Takes ⟨settled, n :: recent⟩ [] n ⟨.anything, [], ⟨settled, recent⟩⟩
  | list {program stack opening place entries n entry budget} :
      Takes program (.list opening place entries (n :: entry) budget :: stack) n
        ⟨.anything, .list opening place entries entry budget :: stack, program⟩
  | block {program stack header place settled n recent} :
      Takes program (.block header place ⟨settled, n :: recent⟩ :: stack) n
        ⟨.anything, .block header place ⟨settled, recent⟩ :: stack, program⟩

theorem takes_of_takeBack {stack : List Frame} {program : Sequence} {n : Node} {t : State}
    (h : takeBack ⟨.anything, stack, program⟩ = some (n, t)) : Takes program stack n t := by
  simp only [takeBack] at h
  split at h
  case h_1 =>
    rcases program with ⟨settled, _ | ⟨m, recent⟩⟩ <;> cases h
    exact .program
  case h_2 =>
    cases h
    exact .list
  case h_3 content _ =>
    rcases content with ⟨settled, _ | ⟨m, recent⟩⟩ <;> cases h
    exact .block
  case h_4 => contradiction

theorem takes_of_takeLeft {stack : List Frame} {program : Sequence} {family : Family}
    {place : Location} {n : Node} {t : State}
    (h : takeLeft ⟨.anything, stack, program⟩ family place = .ok (n, t)) :
    Takes program stack n t ∧ family.acceptsLeft n.kind := by
  unfold takeLeft at h
  split at h
  case h_1 => contradiction
  case h_2 taken =>
    split at h <;> cases h
    case isTrue.refl accepts => exact ⟨takes_of_takeBack taken, accepts⟩

inductive Transition : State → Lexeme → State → Prop
  | leaf {stack program token start stop kind value t}
      (leaf : leafOf? token = some (kind, value))
      (put : deliver program (.leaf kind value start) stack = .ok t) :
      Transition ⟨.anything, stack, program⟩ ⟨token, start, stop⟩ t
  | callee {stack program text start stop}
      (outside : (stack.flatMap Frame.constructs).head? ≠ some .declaration) :
      Transition ⟨.anything, stack, program⟩ ⟨.name text true, start, stop⟩
        ⟨.parenthesis (.call text) start, stack, program⟩
  | declaration {stack program start stop}
      (outside : .declaration ∉ stack.flatMap Frame.constructs) :
      Transition ⟨.anything, stack, program⟩ ⟨.function, start, stop⟩
        ⟨.anything, .naming start :: stack, program⟩
  | negation {stack program start stop} :
      Transition ⟨.anything, stack, program⟩ ⟨.operator .not, start, stop⟩
        ⟨.anything, .operator .not none start :: stack, program⟩
  | operator {stack program op start stop lhs s} (ne : op ≠ .not)
      (left : Takes program stack lhs s) (accepts : op.family.acceptsLeft lhs.kind) :
      Transition ⟨.anything, stack, program⟩ ⟨.operator op, start, stop⟩
        (s.push (.operator op (some lhs) start))
  | counter {stack program c start stop lhs s t}
      (left : Takes program stack lhs s) (accepts : Family.math.acceptsLeft lhs.kind)
      (ne : lhs.kind ≠ .string) (put : s.put (.after c.kind lhs start) = .ok t) :
      Transition ⟨.anything, stack, program⟩ ⟨.counter c, start, stop⟩ t
  | openBlock {stack program start stop} :
      Transition ⟨.anything, stack, program⟩ ⟨.openBrace, start, stop⟩
        ⟨.anything, .openBlock none start :: stack, program⟩
  | openBody {stack program header start stop} :
      Transition ⟨.brace header, stack, program⟩ ⟨.openBrace, start, stop⟩
        ⟨.anything, .openBlock (some header) header.place :: stack, program⟩
  | openGroup {stack program start stop}
      (outside : (stack.flatMap Frame.constructs).head? ≠ some .declaration) :
      Transition ⟨.anything, stack, program⟩ ⟨.openParen, start, stop⟩
        ⟨.anything, .openList .group start :: stack, program⟩
  | openParameters {stack program start stop}
      (inside : (stack.flatMap Frame.constructs).head? = some .declaration) :
      Transition ⟨.anything, stack, program⟩ ⟨.openParen, start, stop⟩
        ⟨.anything, .openList .parameters start :: stack, program⟩
  | openAwaited {stack program opening place start stop} :
      Transition ⟨.parenthesis opening place, stack, program⟩ ⟨.openParen, start, stop⟩
        ⟨.anything, .openList opening place :: stack, program⟩
  | separator {stack program start stop} :
      Transition ⟨.separator, stack, program⟩ ⟨.comma, start, stop⟩ ⟨.anything, stack, program⟩
  | close {awaited stack program token start stop t}
      (ready : awaited = .anything ∨ awaited = .separator)
      (closing : Closing program stack token t) :
      Transition ⟨awaited, stack, program⟩ ⟨token, start, stop⟩ t

theorem closing_of_close {stack : List Frame} {program : Sequence} {token : Token}
    {place : Location} {t : State} (h : close ⟨.anything, stack, program⟩ token place = .ok t) :
    Closing program stack token t := by
  simp only [close] at h
  split at h <;> try contradiction
  case h_3 => exact .list .none h
  case h_4 entry _ _ hn =>
    rw [bind_eq_ok_iff] at h
    obtain ⟨full, hf, h⟩ := h
    cases entry
    case nil => exact (hn rfl).elim
    case cons => exact .list (.entry hf) h
  case h_6 entry _ _ hn =>
    rw [bind_eq_ok_iff] at h
    obtain ⟨full, hf, h⟩ := h
    cases h
    cases entry
    case nil => exact (hn rfl).elim
    case cons => exact .comma hf
  case h_7 => exact .block h

theorem transition_of_accept {stack : List Frame} {program : Sequence} {l : Lexeme} {t : State}
    (h : accept ⟨.anything, stack, program⟩ l = .ok t) :
    Transition ⟨.anything, stack, program⟩ l t := by
  obtain ⟨token, start, stop⟩ := l
  have hc : constructs ⟨.anything, stack, program⟩ = stack.flatMap Frame.constructs := rfl
  cases token <;> simp only [accept, innermost, hc, await] at h <;> try contradiction
  case constant | number | string => exact .leaf rfl h
  case function =>
    split at h <;> cases h
    case isFalse outside => exact .declaration outside
  case name text called =>
    split at h
    case isFalse => exact .leaf rfl h
    case isTrue outside =>
      cases h
      simp only [Bool.and_eq_true, decide_eq_true_eq] at outside
      obtain ⟨rfl, outside⟩ := outside
      exact .callee outside
  case operator op =>
    by_cases ne : op = .not
    case pos =>
      subst ne
      cases h
      exact .negation
    case neg =>
      simp only [bind_eq_ok_iff] at h
      have ⟨⟨lhs, s⟩, left, h⟩ := h
      cases h
      have ⟨left, accepts⟩ := takes_of_takeLeft left
      exact .operator ne left accepts
  case counter c =>
    simp only [bind_eq_ok_iff] at h
    have ⟨⟨lhs, s⟩, left, h⟩ := h
    have ⟨left, accepts⟩ := takes_of_takeLeft left
    split at h
    · contradiction
    case isFalse ne => exact .counter left accepts ne h
  case openBrace =>
    cases h
    exact .openBlock
  case openParen =>
    cases h
    split
    case isTrue inside => exact .openParameters inside
    case isFalse outside => exact .openGroup outside
  case closeBrace | closeParen | comma =>
    split at h
    · exact .close (.inl rfl) (closing_of_close h)
    · contradiction
  case dot | colon =>
    rw [bind_eq_ok_iff] at h
    obtain ⟨_, _, h⟩ := h
    contradiction

-- The tokens that may end a type query.
def endsQuery (token : Token) : Bool :=
  token.isRelation || token = .closeBrace || token = .closeParen || token = .comma

theorem endsQuery_of_closes {s : State} {token : Token} (h : s.closes token) : endsQuery token := by
  cases token <;> simp_all [closes, endsQuery]

theorem step_of_settled {s : State} {l : Lexeme} (anything : s.awaited = .anything)
    (settled : s.settleCast = .ok s) : s.step l = s.accept l := by
  simp [step, settled, anything, bind, Except.bind]

-- A token that cannot end a type query finds the state as it is.
theorem step_of_not_endsQuery {s : State} {l : Lexeme} (anything : s.awaited = .anything)
    (h : endsQuery l.token = false) : s.step l = s.accept l := by
  have closes : s.closes l.token = false :=
    Bool.eq_false_iff.mpr fun closes => by simp [endsQuery_of_closes closes] at h
  have isRelation : l.token.isRelation = false := by
    simp only [endsQuery, Bool.or_eq_false_iff] at h
    exact h.1.1.1
  simp [step, closes, isRelation, anything, bind, Except.bind]

theorem transition_of_step {s t : State} {l : Lexeme} (h : s.step l = .ok t) :
    ∃ u, (u = s ∨ Settles s u ∧ endsQuery l.token) ∧ Transition u l t := by
  obtain ⟨token, start, stop⟩ := l
  unfold step at h
  split at h
  case' isTrue ends =>
    obtain ⟨u, hu, h⟩ := bind_eq_ok_iff.mp h
    have ends : endsQuery token := by
      cases hr : token.isRelation
      case true => simp [endsQuery, hr]
      case false => exact endsQuery_of_closes (by simpa [hr] using ends)
    have hu : u = s ∨ Settles s u ∧ endsQuery token :=
      (settles_of_settleCast hu).imp_right (⟨·, ends⟩)
  case' isFalse =>
    obtain ⟨u, hu, h⟩ := bind_eq_ok_iff.mp h
    have hu : u = s ∨ Settles s u ∧ endsQuery token := .inl (Except.ok.inj hu).symm
  all_goals
    refine ⟨u, hu, ?_⟩
    clear hu
    obtain ⟨awaited, stack, program⟩ := u
    simp only [await] at h
    split at h <;> try cases h
    case h_1      => exact transition_of_accept h
    case h_2.refl => exact .openAwaited
    case h_4.refl => exact .openBody
    case h_6      => exact .close (.inr rfl) (closing_of_close h)
    case h_7.refl => exact .separator

-- What the end of a line does once a cast has settled.
inductive LineBreak : State → State → Prop
  | program {program} : LineBreak ⟨.anything, [], program⟩ ⟨.anything, [], program.settle⟩
  | entry {stack program opening place entries n entry budget full}
      (finish : finishEntry opening (n :: entry) = .ok full) :
      LineBreak ⟨.anything, .list opening place entries (n :: entry) budget :: stack, program⟩
        ⟨.anything, .list opening place (full :: entries) [] opening.budget :: stack, program⟩
  | noEntry {stack program opening place entries budget} :
      LineBreak ⟨.anything, .list opening place entries [] budget :: stack, program⟩
        ⟨.anything, .list opening place entries [] budget :: stack, program⟩
  | block {stack program header place content} :
      LineBreak ⟨.anything, .block header place content :: stack, program⟩
        ⟨.anything, .block header place content.settle :: stack, program⟩
  | separator {stack program} :
      LineBreak ⟨.separator, stack, program⟩ ⟨.anything, stack, program⟩
  | parenthesis {stack program opening place} :
      LineBreak ⟨.parenthesis opening place, stack, program⟩
        ⟨.parenthesis opening place, stack, program⟩
  | brace {stack program header} :
      LineBreak ⟨.brace header, stack, program⟩ ⟨.brace header, stack, program⟩

theorem lineBreak_of_endLine {s t : State} {stop : Location} (h : s.endLine stop = .ok t) :
    ∃ u, (u = s ∨ Settles s u) ∧ LineBreak u t := by
  unfold endLine at h
  obtain ⟨u, hu, h⟩ := bind_eq_ok_iff.mp h
  refine ⟨u, settles_of_settleCast hu, ?_⟩
  obtain ⟨awaited, stack, program⟩ := u
  simp only [await] at h
  split at h <;> try cases h
  case h_1.refl => exact .separator
  case h_2.refl => exact .program
  case h_5.refl => exact .noEntry
  case h_6 entry _ _ hn =>
    rw [bind_eq_ok_iff] at h
    obtain ⟨full, hf, h⟩ := h
    cases h
    cases entry
    case nil  => exact (hn rfl).elim
    case cons => exact .entry hf
  case h_7.refl => exact .block
  case h_8.refl =>
    cases awaited
    case anything =>
      -- The arms above leave out no state that awaits nothing in particular.
      rcases stack with _ | ⟨_ | _ | _ | _, stack⟩ <;> grind
    case parenthesis => exact .parenthesis
    case brace       => exact .brace
    case separator   => simp_all

end State
end WispSyntax.Parser

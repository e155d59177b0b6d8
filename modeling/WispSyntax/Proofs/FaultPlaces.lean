import WispSyntax.Proofs.Alignment
import WispSyntax.Proofs.Composition
import WispSyntax.Proofs.Extent

/-!
The places of faults. A fault is shown with the line that is being read, and it is named in that
line or, if it lies in what an operator, a declaration or an entry finds before it, where that
begins (`State.Lies.readLine`). Constructs can go on over many lines, so that this may be further
up.
-/

namespace WispSyntax

-- The faults of nodes that are finished when the parser gets to use them.
def Fault.looksBack : Fault → Bool
  | leftOperand _ | rightOperand _ | notName _ | notParameter => true
  | _                                                         => false

namespace Node
variable {P : Location → Prop}

-- Both places that can be named for a node.
def Lies (P : Location → Prop) (n : Node) : Prop :=
  P n.start ∧ P n.location

theorem lies_of_lhs {n : Node} (place : P n.location) (lhs : ∀ m ∈ n.lhs, m.Lies P) :
    n.Lies P := by
  refine ⟨?_, place⟩
  rw [n.start_eq]
  cases eq : n.lhs
  case none   => exact place
  case some m => exact (lhs m eq).1

end Node

theorem Token.length_le_of_read {c : Char} {rest : List Char} {t : Token} {n : Nat}
    (h : read c rest = (t, n)) : n ≤ rest.length := by
  cases quote : isQuote c
  case false =>
    obtain ⟨front, after, rfl, rfl, _⟩ := reaches_of_read quote h
    simp
  case true =>
    obtain ⟨letter, digit, _⟩ := ordinary_of_isQuote quote
    rw [read, letter, digit, quote] at h
    rcases readString_eq rest with ⟨_, eq⟩ | ⟨content, closing, after, rfl, _, _, eq⟩
    all_goals
      obtain ⟨_, rfl⟩ := Prod.mk.inj (eq.symm.trans h)
      simp

namespace SourceLine

-- The place is that of a character of the line, or the one after the last.
structure Holds (l : SourceLine) (a : Location) : Prop where
  line      : a.line = l.number
  column    : 1 ≤ a.column
  column_le : a.column ≤ l.text.length + 1

theorem holds_right {l : SourceLine} {n : Nat} (le : n ≤ l.text.length) :
    l.Holds (l.start.right n) where
  line      := rfl
  column    := Nat.le_add_right 1 n
  column_le := by
    rw [Location.right_column, Nat.add_comm]
    exact Nat.succ_le_succ le

theorem holds_of_mem_lexemes {l : SourceLine} {x : Lexeme} (h : x ∈ l.lexemes) :
    l.Holds x.start ∧ l.Holds x.stop := by
  have ⟨front, c, rest, n, chars_eq, _, start_eq, stop_eq, read_eq⟩ :=
    Lexeme.read_of_mem_ofChars h
  have le := Token.length_le_of_read read_eq
  have length_eq : l.text.length = front.length + (rest.length + 1) := by
    rw [← String.length_toList, chars_eq, List.length_append, List.length_cons]
  rw [stop_eq, start_eq, Location.right_right]
  exact ⟨holds_right (by omega), holds_right (by omega)⟩

end SourceLine

namespace Parser

namespace Frame

-- The place that the node of a frame will have.
def place : Frame → Location
  | operator _ _ place   => place
  | naming place         => place
  | list _ place _ _ _   => place
  | block header place _ => (header.map Header.place).getD place

-- The nodes of a frame that something may still be wrong with.
def pending : Frame → List Node
  | operator _ lhs _     => lhs.toList
  | naming _             => []
  | list _ _ _ entry _   => entry
  | block _ _ content    => content.recent

structure Lies (P : Location → Prop) (f : Frame) : Prop where
  place   : P f.place
  pending : ∀ n ∈ f.pending, n.Lies P

end Frame

def Awaited.Lies (P : Location → Prop) : Awaited → Prop
  | parenthesis _ place  => P place
  | brace header         => P header.place
  | anything | separator => True

-- Whatever a fault may look back at has the property.
structure State.Lies (P : Location → Prop) (s : State) : Prop where
  awaited : s.awaited.Lies P
  stack   : ∀ f ∈ s.stack, f.Lies P
  program : ∀ n ∈ s.program.recent, n.Lies P

-- An outcome that is as it should be, or a fault that is named either in the line (`H`) or, looking
-- back, at something that has been read (`P`).
inductive Names (P H : Location → Prop) {α : Type} (Q : α → Prop) : Except Refusal α → Prop
  | ok {a : α} (h : Q a) : Names P H Q (.ok a)
  | here {r : Refusal} (h : H r.place) : Names P H Q (.error r)
  | back {r : Refusal} (looksBack : r.fault.looksBack) (h : P r.place) : Names P H Q (.error r)

section
variable {P H : Location → Prop}

theorem Names.bind {α β : Type} {Q : α → Prop} {Q' : β → Prop} {x : Except Refusal α}
    {k : α → Except Refusal β} (hx : Names P H Q x) (hk : ∀ a, Q a → Names P H Q' (k a)) :
    Names P H Q' (x >>= k) := by
  cases hx
  case ok h           => exact hk _ h
  case here h         => exact .here h
  case back looks h   => exact .back looks h

theorem names_finishEntry (opening : Opening) {n : Node} {entry : List Node}
    (h : ∀ m ∈ n :: entry, m.Lies P) :
    Names P H (fun _ => True) (finishEntry opening (n :: entry)) := by
  unfold finishEntry
  split
  · refine .back rfl ?_
    rw [entryStart, List.getLast?_eq_some_getLast (List.cons_ne_nil n entry)]
    exact (h _ (List.getLast_mem _)).1
  · exact .ok trivial

namespace State

theorem names_deliver {program : Sequence} {n : Node} {stack : List Frame}
    (hp : ∀ m ∈ program.recent, m.Lies P) (hs : ∀ f ∈ stack, f.Lies P) (hn : n.Lies P) :
    Names P H (Lies P) (deliver program n stack) := by
  fun_induction deliver program n stack
  case case1 => exact .ok ⟨trivial, hs, List.forall_mem_cons.mpr ⟨hn, hp⟩⟩
  case case2 n op lhs place stack _ hi =>
    obtain ⟨top, hs⟩ := List.forall_mem_cons.mp hs
    exact hi hs (Node.lies_of_lhs top.place (by simpa [Frame.pending, combine] using top.pending))
  case case3 | case5 => exact .back rfl hn.2
  case case4 place stack _ =>
    obtain ⟨top, hs⟩ := List.forall_mem_cons.mp hs
    exact .ok ⟨top.place, hs, hp⟩
  case case6 opening place entries entry budget stack _ =>
    obtain ⟨top, hs⟩ := List.forall_mem_cons.mp hs
    have entry := List.forall_mem_cons.mpr ⟨hn, top.pending⟩
    refine .bind (names_finishEntry opening entry) fun full _ => ?_
    exact .ok ⟨trivial, List.forall_mem_cons.mpr ⟨⟨top.place, List.forall_mem_nil _⟩, hs⟩, hp⟩
  case case7 opening place entries entry budget stack _ =>
    obtain ⟨top, hs⟩ := List.forall_mem_cons.mp hs
    have entry := List.forall_mem_cons.mpr ⟨hn, top.pending⟩
    exact .ok ⟨trivial, List.forall_mem_cons.mpr ⟨⟨top.place, entry⟩, hs⟩, hp⟩
  case case8 header place content stack =>
    obtain ⟨top, hs⟩ := List.forall_mem_cons.mp hs
    have content := List.forall_mem_cons.mpr ⟨hn, top.pending⟩
    exact .ok ⟨trivial, List.forall_mem_cons.mpr ⟨⟨top.place, content⟩, hs⟩, hp⟩

variable {s : State}

theorem Lies.put {n : Node} (hs : s.Lies P) (hn : n.Lies P) : Names P H (Lies P) (s.put n) :=
  names_deliver hs.program hs.stack hn

theorem Lies.push {f : Frame} (hs : s.Lies P) (hf : f.Lies P) : (s.push f).Lies P :=
  ⟨hs.awaited, List.forall_mem_cons.mpr ⟨hf, hs.stack⟩, hs.program⟩

theorem Lies.await {a : Awaited} (hs : s.Lies P) (ha : a.Lies P) : (s.await a).Lies P :=
  ⟨ha, hs.stack, hs.program⟩

theorem Lies.settleCast (hs : s.Lies P) : Names P H (Lies P) s.settleCast := by
  unfold State.settleCast
  split
  case h_1 lhs place stack _ stack_eq =>
    have stack := hs.stack
    rw [stack_eq] at stack
    obtain ⟨top, stack⟩ := List.forall_mem_cons.mp stack
    refine names_deliver hs.program stack (Node.lies_of_lhs top.place ?_)
    simpa [Frame.pending] using top.pending
  case h_2 => exact .ok hs

theorem Lies.takeBack {n : Node} {t : State} (hs : s.Lies P) (h : s.takeBack = some (n, t)) :
    n.Lies P ∧ t.Lies P := by
  obtain ⟨awaited, stack, program⟩ := s
  obtain ⟨ha, hs, hp⟩ := hs
  simp only [State.takeBack] at h
  split at h
  case h_1 =>
    rcases program with ⟨settled, _ | ⟨m, recent⟩⟩ <;> cases h
    obtain ⟨hn, hp⟩ := List.forall_mem_cons.mp hp
    exact ⟨hn, ha, hs, hp⟩
  case h_2 =>
    cases h
    obtain ⟨top, hs⟩ := List.forall_mem_cons.mp hs
    obtain ⟨hn, entry⟩ := List.forall_mem_cons.mp top.pending
    exact ⟨hn, ha, List.forall_mem_cons.mpr ⟨⟨top.place, entry⟩, hs⟩, hp⟩
  case h_3 content _ =>
    rcases content with ⟨settled, _ | ⟨m, recent⟩⟩ <;> cases h
    obtain ⟨top, hs⟩ := List.forall_mem_cons.mp hs
    obtain ⟨hn, recent⟩ := List.forall_mem_cons.mp top.pending
    exact ⟨hn, ha, List.forall_mem_cons.mpr ⟨⟨top.place, recent⟩, hs⟩, hp⟩
  case h_4 => contradiction

theorem Lies.takeLeft {family : Family} {place : Location} (hs : s.Lies P) (here : H place) :
    Names P H (fun taken => taken.1.Lies P ∧ taken.2.Lies P) (s.takeLeft family place) := by
  unfold State.takeLeft
  split
  case h_1 => exact .here here
  case h_2 taken =>
    have taken := hs.takeBack taken
    split
    · exact .ok taken
    · exact .back rfl taken.1.2

theorem Lies.closeList {opening : Opening} {place : Location} {entries : List (List Node)}
    (hs : s.Lies P) (h : P place) : Names P H (Lies P) (s.closeList opening place entries) := by
  cases opening
  case signature => exact .ok (hs.await h)
  all_goals exact hs.put (Node.lies_of_lhs h nofun)

theorem Lies.closeBlock {header : Option Header} {place : Location} {content : Sequence}
    (hs : s.Lies P) (h : P ((header.map Header.place).getD place)) :
    Names P H (Lies P) (s.closeBlock header place content) := by
  cases header <;> exact hs.put (Node.lies_of_lhs h nofun)

theorem Lies.close {token : Token} {place : Location} (hs : s.Lies P) (here : H place) :
    Names P H (Lies P) (s.close token place) := by
  obtain ⟨awaited, stack, program⟩ := s
  obtain ⟨ha, hs, hp⟩ := hs
  unfold State.close
  split
  case h_3 stack_eq =>
    cases stack_eq
    obtain ⟨top, below⟩ := List.forall_mem_cons.mp hs
    exact closeList ⟨ha, below, hp⟩ top.place
  case h_4 entry _ _ ne stack_eq =>
    cases stack_eq
    obtain ⟨top, below⟩ := List.forall_mem_cons.mp hs
    obtain ⟨n, entry, rfl⟩ := List.exists_cons_of_ne_nil ne
    refine .bind (names_finishEntry _ top.pending) fun full _ => ?_
    exact closeList ⟨ha, below, hp⟩ top.place
  case h_6 entry _ _ ne stack_eq =>
    cases stack_eq
    obtain ⟨top, below⟩ := List.forall_mem_cons.mp hs
    obtain ⟨n, entry, rfl⟩ := List.exists_cons_of_ne_nil ne
    refine .bind (names_finishEntry _ top.pending) fun full _ => ?_
    exact .ok ⟨ha, List.forall_mem_cons.mpr ⟨⟨top.place, List.forall_mem_nil _⟩, below⟩, hp⟩
  case h_7 stack_eq =>
    cases stack_eq
    obtain ⟨top, below⟩ := List.forall_mem_cons.mp hs
    exact closeBlock ⟨ha, below, hp⟩ top.place
  all_goals exact .here here

theorem Lies.accept {l : Lexeme} (hs : s.Lies P) (start : P l.start) (here : H l.start)
    (stop : H l.stop) : Names P H (Lies P) (s.accept l) := by
  have put (kind : Kind) (value : String) :
      Names P H (Lies P) (s.put (.leaf kind value l.start)) :=
    hs.put (Node.lies_of_lhs start nofun)
  have place (op : Operator) : H (if op = .notEqual then l.stop else l.start) := by
    split <;> assumption
  have empty : ∀ n ∈ ([] : List Node), n.Lies P := List.forall_mem_nil _
  obtain ⟨token, _, _⟩ := l
  cases token <;> simp only [State.accept]
  case constant | number | string => exact put _ _
  case openBrace | openParen      => exact .ok (hs.push ⟨start, empty⟩)
  case openString | stray         => exact .here here
  case badNumber                  => exact .here stop
  case function =>
    split
    · exact .here here
    · exact .ok (hs.push ⟨start, empty⟩)
  case name =>
    split
    · exact .ok (hs.await start)
    · exact put _ _
  case operator op =>
    cases op
    case not => exact .ok (hs.push ⟨start, empty⟩)
    all_goals
      refine .bind (hs.takeLeft (place _)) fun taken both => ?_
      obtain ⟨left, ht⟩ := both
      exact .ok (ht.push ⟨start, by simpa [Frame.pending] using left⟩)
  case counter =>
    refine .bind (hs.takeLeft here) fun taken both => ?_
    obtain ⟨left, ht⟩ := both
    split
    · exact .here here
    · exact ht.put (Node.lies_of_lhs start (by simpa [Node.after] using left))
  case closeBrace | closeParen | comma =>
    split
    · exact hs.close here
    · exact .here here
  case dot | colon => exact .bind (hs.takeLeft here) fun _ _ => .here stop

theorem Lies.step {l : Lexeme} (hs : s.Lies P) (start : P l.start) (here : H l.start)
    (stop : H l.stop) : Names P H (Lies P) (s.step l) := by
  unfold State.step
  split
  case' isTrue  => refine .bind hs.settleCast fun t ht => ?_
  case' isFalse => refine .bind (Names.ok hs) fun t ht => ?_
  all_goals
    have awaited := ht.awaited
    beta_reduce
    split
    case h_1 => exact ht.accept start here stop
    case h_2 eq _ =>
      rw [eq] at awaited
      exact .ok ((ht.await (a := .anything) trivial).push ⟨awaited, List.forall_mem_nil _⟩)
    case h_4 eq _ =>
      rw [eq] at awaited
      exact .ok ((ht.await (a := .anything) trivial).push ⟨awaited, List.forall_mem_nil _⟩)
    case h_6 => exact (ht.await (a := .anything) trivial).close here
    case h_7 => exact .ok (ht.await (a := .anything) trivial)
    case h_3 | h_5 | h_8 => exact .here here

theorem Lies.endLine {stop : Location} (hs : s.Lies P) (here : H stop) :
    Names P H (Lies P) (s.endLine stop) := by
  unfold State.endLine
  refine .bind hs.settleCast fun ⟨awaited, stack, program⟩ ⟨ha, hs, hp⟩ => ?_
  split
  case h_1 => exact .ok ⟨trivial, hs, hp⟩
  case h_2 => exact .ok ⟨ha, hs, List.forall_mem_nil _⟩
  case h_3 | h_4 => exact .here here
  case h_6 entry _ _ ne _ stack_eq =>
    cases stack_eq
    obtain ⟨top, below⟩ := List.forall_mem_cons.mp hs
    obtain ⟨n, entry, rfl⟩ := List.exists_cons_of_ne_nil ne
    refine .bind (names_finishEntry _ top.pending) fun full _ => ?_
    exact .ok ⟨ha, List.forall_mem_cons.mpr ⟨⟨top.place, List.forall_mem_nil _⟩, below⟩, hp⟩
  case h_7 stack_eq =>
    cases stack_eq
    obtain ⟨top, below⟩ := List.forall_mem_cons.mp hs
    exact .ok ⟨ha, List.forall_mem_cons.mpr ⟨⟨top.place, List.forall_mem_nil _⟩, below⟩, hp⟩
  all_goals exact .ok ⟨ha, hs, hp⟩

theorem Lies.foldlM {lexemes : List Lexeme} (hs : s.Lies P)
    (line : ∀ l ∈ lexemes, P l.start ∧ H l.start ∧ H l.stop) :
    Names P H (Lies P) (lexemes.foldlM State.step s) := by
  induction lexemes generalizing s
  case nil => exact .ok hs
  case cons l lexemes hi =>
    obtain ⟨⟨start, here, stop⟩, line⟩ := List.forall_mem_cons.mp line
    exact .bind (hs.step start here stop) fun t ht => hi ht line

theorem Lies.readLine {l : SourceLine} (hs : s.Lies P) (line : ∀ a, l.Holds a → P a) :
    Names P l.Holds (Lies P) (s.readLine l) := by
  refine .bind (hs.foldlM fun x hx => ?_) fun t ht => ht.endLine (SourceLine.holds_right le_rfl)
  have ⟨start, stop⟩ := SourceLine.holds_of_mem_lexemes hx
  exact ⟨line _ start, start, stop⟩

theorem Lies.readLines {t : State} {lines : List SourceLine} (hs : s.Lies P)
    (line : ∀ l ∈ lines, ∀ a, l.Holds a → P a) (h : s.readLines lines = .ok t) :
    t.Lies P := by
  refine @foldlM_induction _ _ _ _ (fun _ => Lies P) lines [] _ _ (fun _ s l t hl hs ht => ?_) hs h
  have named := hs.readLine (line l hl)
  rw [ht] at named
  cases named
  case ok ht => exact ht

-- Between constructs there is nothing to look back at.
theorem lies_of_readLines {t : State} {lines : List SourceLine}
    (h : State.readLines {} lines = .ok t) (closed : t.unclosed = none) : t.Lies P := by
  obtain ⟨rests, settled⟩ := isSettled_of_readLines h
  obtain ⟨awaited, stack⟩ := rests.stack_eq_nil closed
  refine ⟨?_, ?_, ?_⟩
  · rw [awaited]
    exact trivial
  · rw [stack]
    exact List.forall_mem_nil _
  · rw [settled awaited stack]
    exact List.forall_mem_nil _

end State
end

section
variable {s t : State} {last l : SourceLine} {failure : Option String}
  {before after lines : List SourceLine} {fault : Fault} {place : Location} {text : String}

-- A fault is found on one of the lines, or after the last of them if something is open there.
theorem exists_of_readFrom
    (h : (readFrom s last none lines).1 = .error (.rejected fault place text)) :
    (∃ before l after t, lines = before ++ l :: after ∧ s.readLines before = .ok t ∧
      t.readLine l = .error ⟨fault, place⟩ ∧ text = l.text) ∨
    ∃ t construct l, s.readLines lines = .ok t ∧ t.unclosed = some construct ∧
      fault = .openConstruct construct ∧ (last :: lines).getLast? = some l ∧
      place = l.stop ∧ text = l.text := by
  induction lines generalizing s last
  case nil =>
    cases closed : s.unclosed <;> simp only [readFrom, closed] at h <;> cases h
    exact .inr ⟨s, _, last, rfl, closed, rfl, rfl, rfl, rfl⟩
  case cons l lines hi =>
    cases here : s.readLine l <;> simp only [readFrom, here] at h
    case error =>
      cases h
      exact .inl ⟨[], l, lines, s, rfl, rfl, here, rfl⟩
    case ok t =>
      rcases hi h with ⟨before, m, after, u, rfl, hu, error, rfl⟩ | ⟨u, construct, m, hu, rest⟩
      · exact .inl ⟨l :: before, m, after, u, rfl, bind_eq_ok_iff.mpr ⟨t, here, hu⟩, error, rfl⟩
      · refine .inr ⟨u, construct, m, bind_eq_ok_iff.mpr ⟨t, here, hu⟩, ?_⟩
        simpa using rest

-- Nothing is open before the first line.
theorem exists_of_unclosed {construct : Construct} (h : State.readLines {} lines = .ok t)
    (unclosed : t.unclosed = some construct) (last_eq : (last :: lines).getLast? = some l) :
    ∃ before, lines = before ++ [l] := by
  have ne : lines ≠ [] := by
    rintro rfl
    cases h
    cases unclosed
  exact List.getLast?_eq_some_iff.mp ((List.getLast?_cons_of_ne_nil ne).symm.trans last_eq)

theorem readFrom_of_error {r : Refusal} (h : s.readLines before = .ok t)
    (error : t.readLine l = .error r) :
    (readFrom s last failure (before ++ l :: after)).1 =
      .error (.rejected r.fault r.place l.text) := by
  obtain ⟨last', eq⟩ := @readFrom_append _ _ last failure _ (l :: after) h
  rw [eq, readFrom, error]

theorem readFrom_of_unclosed {construct : Construct} (h : s.readLines lines = .ok t)
    (unclosed : t.unclosed = some construct) :
    ∃ place text, (readFrom s last none lines).1 =
      .error (.rejected (.openConstruct construct) place text) := by
  obtain ⟨last', eq⟩ := @readFrom_append _ _ last none _ [] h
  rw [List.append_nil] at eq
  simp only [eq, readFrom, unclosed]
  exact ⟨_, _, rfl⟩

-- A fault names a line that comes after all that is finished, and if that is not the line which is
-- being read, it looks back.
theorem exists_line_of_error {r : Refusal} (h : State.readLines {} lines = .ok s)
    (closed : s.unclosed = none) (ht : s.readLines before = .ok t)
    (error : t.readLine l = .error r) :
    ∃ m ∈ before ++ [l], m.Holds r.place ∧ (m = l ∨ r.fault.looksBack) := by
  let P (a : Location) : Prop := ∃ m ∈ before ++ [l], m.Holds a
  have hs : s.Lies P := State.lies_of_readLines h closed
  have ht : t.Lies P := hs.readLines (fun m hm a h => ⟨m, List.mem_append_left _ hm, h⟩) ht
  have here : l ∈ before ++ [l] := List.mem_append_right _ (.head _)
  have named := ht.readLine (fun a h => ⟨l, here, h⟩)
  rw [error] at named
  cases named
  case here h => exact ⟨l, here, h, .inl rfl⟩
  case back looksBack h =>
    obtain ⟨m, hm, h⟩ := h
    exact ⟨m, hm, h, .inr looksBack⟩

end

-- What becomes of the lines of a text up to some number.
def parseTo (k : Nat) (text : String) : Except Failure Node :=
  (readFrom {} { number := 0, text := "" } none ((keptLines text).filter (·.number ≤ k))).1

section
variable {k : Nat} {before after lines : List SourceLine}

theorem filter_number (h : ∀ l ∈ before, l.number ≤ k) (h' : ∀ l ∈ after, k < l.number) :
    (before ++ after).filter (·.number ≤ k) = before := by
  rw [List.filter_append, List.filter_eq_self.mpr (by simpa using h),
    List.filter_eq_nil_iff.mpr (by simpa using h'), List.append_nil]

theorem exists_cut (k : Nat) (h : lines.Pairwise (·.number < ·.number)) :
    ∃ before after, lines = before ++ after ∧ (∀ l ∈ before, l.number ≤ k) ∧
      ∀ l ∈ after, k < l.number := by
  induction lines
  case nil => exact ⟨[], [], rfl, List.forall_mem_nil _, List.forall_mem_nil _⟩
  case cons l lines hi =>
    obtain ⟨first, rest⟩ := List.pairwise_cons.mp h
    by_cases within : l.number ≤ k
    case pos =>
      obtain ⟨before, after, rfl, hb, ha⟩ := hi rest
      exact ⟨l :: before, after, rfl, List.forall_mem_cons.mpr ⟨within, hb⟩, ha⟩
    case neg =>
      have beyond : k < l.number := Nat.lt_of_not_le within
      refine ⟨[], l :: lines, rfl, List.forall_mem_nil _, ?_⟩
      exact List.forall_mem_cons.mpr ⟨beyond, fun m hm => beyond.trans (first m hm)⟩

end

theorem number_le_last {l : SourceLine} (h : (before ++ [l]).Pairwise (·.number < ·.number)) :
    ∀ m ∈ before ++ [l], m.number ≤ l.number := by
  intro m hm
  rcases List.mem_append.mp hm with hm | hm
  · exact ((List.pairwise_append.mp h).2.2 m hm l (.head _)).le
  · rw [List.mem_singleton.mp hm]

-- Something is open wherever the text is cut between the line that a fault names and the line on
-- which it is found.
theorem rejected_of_cut (last : SourceLine) {t : State} {l : SourceLine} {r : Refusal}
    (order : (before ++ l :: after).Pairwise (·.number < ·.number))
    (h : State.readLines {} before = .ok t) (error : t.readLine l = .error r)
    (le : r.place.line ≤ k) (lt : k < l.number) :
    ∃ construct place text,
      (readFrom {} last none ((before ++ l :: after).filter (·.number ≤ k))).1 =
        .error (.rejected (.openConstruct construct) place text) := by
  obtain ⟨sorted, rest, _⟩ := List.pairwise_append.mp order
  obtain ⟨front, back, rfl, front_le, back_gt⟩ := exists_cut k sorted
  have later : ∀ m ∈ back ++ l :: after, k < m.number := by
    intro m hm
    rcases List.mem_append.mp hm with hm | hm
    · exact back_gt m hm
    · rcases List.mem_cons.mp hm with rfl | hm
      · exact lt
      · exact lt.trans ((List.pairwise_cons.mp rest).1 m hm)
  rw [List.append_assoc, filter_number front_le later]
  obtain ⟨u, hu, ht⟩ := bind_eq_ok_iff.mp (List.foldlM_append.symm.trans h)
  cases closed : u.unclosed
  case some construct => exact ⟨construct, readFrom_of_unclosed hu closed⟩
  case none =>
    obtain ⟨m, hm, ⟨place_eq, _, _⟩, _⟩ := exists_line_of_error hu closed ht error
    have gt : k < m.number := by
      rcases List.mem_append.mp hm with hm | hm
      · exact back_gt m hm
      · rwa [List.mem_singleton.mp hm]
    omega

-- The line that a fault names and the line that it is shown with. They are the same just if the
-- fault is there when no more of the text is read than the line that it names. Otherwise it looks
-- back at the beginning of something that is left open by every line from there up to the line that
-- is shown.
theorem parse_shown {text : String} {fault : Fault} {place : Location} {line : String}
    (h : parse text = .error (.rejected fault place line)) :
    ∃ named ∈ keptLines text, ∃ shown ∈ keptLines text,
      place.line = named.number ∧ line = shown.text ∧ named.number ≤ shown.number ∧
      (named ≠ shown → fault.looksBack) ∧
      (named = shown ↔ parseTo named.number text = .error (.rejected fault place line)) ∧
      ∀ k, named.number ≤ k → k < shown.number → ∃ construct place' line',
        parseTo k text = .error (.rejected (.openConstruct construct) place' line') := by
  have order := number_pairwise_keptLines text
  rw [parse_eq] at h
  unfold parseTo
  generalize keptLines text = lines at *
  rcases exists_of_readFrom h with
    ⟨before, l, after, t, rfl, ht, error, rfl⟩ |
    ⟨t, construct, l, ht, unclosed, rfl, last_eq, rfl, rfl⟩
  case inl =>
    have cut (k : Nat) (le : place.line ≤ k) (lt : k < l.number) :=
      rejected_of_cut ⟨0, ""⟩ order ht error le lt
    rw [List.append_cons] at cut order ⊢
    obtain ⟨upTo, _, later⟩ := List.pairwise_append.mp order
    have nothing : State.readLines {} [] = .ok {} := rfl
    obtain ⟨m, hm, ⟨place_eq, _, _⟩, back⟩ := exists_line_of_error nothing rfl ht error
    rw [place_eq] at cut
    refine ⟨m, List.mem_append_left _ hm, l, by simp, place_eq, rfl, number_le_last upTo m hm,
      fun ne => back.resolve_left ne, ⟨?same, ?differ⟩, cut⟩
    case same =>
      rintro rfl
      rw [filter_number (number_le_last upTo) (later m hm)]
      exact readFrom_of_error ht error
    case differ =>
      intro found
      by_contra ne
      have lt : m.number < l.number := by
        have mem : m ∈ before := by simpa [ne] using List.mem_append.mp hm
        exact (List.pairwise_append.mp upTo).2.2 m mem l (.head _)
      obtain ⟨construct, place', line', eq⟩ := cut m.number le_rfl lt
      obtain ⟨rfl, _⟩ := Failure.rejected.inj (Except.error.inj (found.symm.trans eq))
      cases back.resolve_left ne
  case inr =>
    obtain ⟨before, rfl⟩ := exists_of_unclosed ht unclosed last_eq
    have whole : (before ++ [l]).filter (·.number ≤ l.number) = before ++ [l] :=
      List.filter_eq_self.mpr (by simpa using number_le_last order)
    refine ⟨l, by simp, l, by simp, rfl, rfl, le_rfl, fun ne => absurd rfl ne, ?_, by omega⟩
    rw [whole]
    exact ⟨fun _ => h, fun _ => rfl⟩

theorem parse_shown_group :
    parse "(a\n) + b" = .error (.rejected (.leftOperand .math) ⟨1, 1⟩ ") + b") ∧
    ∃ named ∈ keptLines "(a\n) + b", ∃ shown ∈ keptLines "(a\n) + b",
      1 = named.number ∧ ") + b" = shown.text ∧ named.number ≤ shown.number ∧
      (named ≠ shown → (Fault.leftOperand .math).looksBack) ∧
      (named = shown ↔ parseTo named.number "(a\n) + b" =
        .error (.rejected (.leftOperand .math) ⟨1, 1⟩ ") + b")) ∧
      ∀ k, named.number ≤ k → k < shown.number → ∃ construct place' line',
        parseTo k "(a\n) + b" = .error (.rejected (.openConstruct construct) place' line') := by
  have h : parse "(a\n) + b" = .error (.rejected (.leftOperand .math) ⟨1, 1⟩ ") + b") := rfl
  exact ⟨h, parse_shown h⟩

-- The line that is shown need not be the one that is named: here it is the one below.
theorem shown_ne_named : ¬∀ (text : String) (fault : Fault) (place : Location) (line : String),
    parse text = .error (.rejected fault place line) →
      ((splitLines text.toList).map String.ofList)[place.line - 1]? = some line := by
  intro same
  have h : parse "(a\n) + b" = .error (.rejected (.leftOperand .math) ⟨1, 1⟩ ") + b") := rfl
  exact absurd (same _ _ _ _ h) (by decide)

end Parser
end WispSyntax

import WispSyntax.Program
import WispSyntax.Proofs.Transition

/-!
Places are only handed on. The parser does to a state whose places are renamed, and to one that has
further nodes before its own, what it does to the state itself (`step_relocate`,
`endLine_relocate`).
-/

namespace WispSyntax

section
variable (f : Location → Location)

namespace Node

mutual

-- A tree with other places.
def relocate : Node → Node
  | ⟨kind, value, lhs, rhs, alt, params, children, location⟩ =>
    { kind, value, lhs := relocateOption lhs, rhs := relocateOption rhs, alt := relocateOption alt
      params := relocateLists params, children := relocateList children, location := f location }

def relocateOption : Option Node → Option Node
  | none   => none
  | some n => some (relocate n)

def relocateList : List Node → List Node
  | []      => []
  | n :: ns => relocate n :: relocateList ns

def relocateLists : List (List Node) → List (List Node)
  | []        => []
  | ns :: nss => relocateList ns :: relocateLists nss

end

theorem relocateOption_eq (n : Option Node) : relocateOption f n = n.map (relocate f) := by
  cases n <;> rfl

theorem relocateList_eq (ns : List Node) : relocateList f ns = ns.map (relocate f) := by
  induction ns
  case nil          => rfl
  case cons n ns hi => rw [relocateList, hi, List.map_cons]

theorem relocateLists_eq (nss : List (List Node)) :
    relocateLists f nss = nss.map (·.map (relocate f)) := by
  induction nss
  case nil            => rfl
  case cons ns nss hi => rw [relocateLists, hi, relocateList_eq, List.map_cons]

theorem relocate_eq (n : Node) :
    n.relocate f =
      { kind := n.kind, value := n.value, lhs := n.lhs.map (relocate f)
        rhs := n.rhs.map (relocate f), alt := n.alt.map (relocate f)
        params := n.params.map (·.map (relocate f)), children := n.children.map (relocate f)
        location := f n.location } := by
  cases n
  simp only [relocate, relocateOption_eq, relocateList_eq, relocateLists_eq]

@[simp]
theorem kind_relocate (n : Node) : (n.relocate f).kind = n.kind := by
  rw [relocate_eq]

@[simp]
theorem value_relocate (n : Node) : (n.relocate f).value = n.value := by
  rw [relocate_eq]

@[simp]
theorem location_relocate (n : Node) : (n.relocate f).location = f n.location := by
  rw [relocate_eq]

theorem start_relocate (n : Node) : (n.relocate f).start = f n.start := by
  fun_induction start n
  case case1 lhs _ _ _ _ _ hi => rw [relocate, relocateOption, start, hi]
  case case2                  => rw [relocate, relocateOption, start]

end Node

def Lexeme.relocate (l : Lexeme) : Lexeme where
  token := l.token
  start := f l.start
  stop  := f l.stop

namespace Parser

namespace Sequence

def relocate (s : Sequence) : Sequence where
  settled := s.settled.map (Node.relocate f)
  recent  := s.recent.map (Node.relocate f)

-- A sequence after nodes that stand before all of its own, the newest first.
def after (older : List Node) (s : Sequence) : Sequence :=
  { s with settled := s.settled ++ older }

variable {f} {older : List Node}

theorem push_relocate (s : Sequence) (n : Node) :
    (s.relocate f).push (n.relocate f) = (s.push n).relocate f :=
  rfl

theorem settle_relocate (s : Sequence) : (s.relocate f).settle = s.settle.relocate f := by
  simp [settle, relocate]

theorem settle_after (s : Sequence) : (s.after older).settle = s.settle.after older := by
  simp [settle, after]

theorem toList_relocate (s : Sequence) :
    (s.relocate f).toList = s.toList.map (Node.relocate f) := by
  simp [toList, relocate]

theorem toList_after (s : Sequence) : (s.after older).toList = older.reverse ++ s.toList := by
  simp [toList, after]

end Sequence

def Header.relocate (h : Header) : Header where
  name   := h.name
  params := h.params.map (·.map (Node.relocate f))
  place  := f h.place

def Frame.relocate : Frame → Frame
  | operator op lhs place              => operator op (lhs.map (Node.relocate f)) (f place)
  | naming place                       => naming (f place)
  | list opening place entries entry b =>
    list opening (f place) (entries.map (·.map (Node.relocate f))) (entry.map (Node.relocate f)) b
  | block header place content         =>
    block (header.map (Header.relocate f)) (f place) (content.relocate f)

def Awaited.relocate : Awaited → Awaited
  | anything                  => anything
  | parenthesis opening place => parenthesis opening (f place)
  | brace header              => brace (header.relocate f)
  | separator                 => separator

def Refusal.relocate (r : Refusal) : Refusal where
  fault := r.fault
  place := f r.place

-- A state in other places, after nodes that stand before all of its own.
def State.relocate (older : List Node) (s : State) : State where
  awaited := s.awaited.relocate f
  stack   := s.stack.map (Frame.relocate f)
  program := (s.program.relocate f).after older

-- An outcome in other places.
def relocated {α β : Type} (g : α → β) : Except Refusal α → Except Refusal β
  | .ok a    => .ok (g a)
  | .error r => .error (r.relocate f)

end Parser
end

namespace Parser
variable {f : Location → Location} {older : List Node}

theorem relocated_bind {α β γ δ : Type} {g : α → β} {h : γ → δ} {k : α → Except Refusal γ}
    {k' : β → Except Refusal δ} (x : Except Refusal α)
    (next : ∀ a, k' (g a) = relocated f h (k a)) :
    (relocated f g x >>= k') = relocated f h (x >>= k) := by
  cases x
  case error => rfl
  case ok a  => exact next a

@[simp]
theorem Frame.constructs_relocate (frame : Frame) :
    (frame.relocate f).constructs = frame.constructs := by
  rcases frame with _ | _ | ⟨⟨⟩⟩ | ⟨⟨⟩⟩ <;> rfl

@[simp]
theorem Frame.unclosed_relocate (frame : Frame) :
    (frame.relocate f).unclosed = frame.unclosed := by
  cases frame <;> rfl

@[simp]
theorem Awaited.constructs_relocate (awaited : Awaited) :
    (awaited.relocate f).constructs = awaited.constructs := by
  rcases awaited with _ | ⟨⟨⟩⟩ | _ | _ <;> rfl

@[simp]
theorem Awaited.unclosed_relocate (awaited : Awaited) :
    (awaited.relocate f).unclosed = awaited.unclosed := by
  cases awaited <;> rfl

theorem isParameter_relocate (entry : List Node) :
    isParameter (entry.map (Node.relocate f)) = isParameter entry := by
  rcases entry with _ | ⟨_, _ | ⟨_, _ | _⟩⟩ <;> simp [isParameter]

-- The place of no entry at all is left out: it is no place.
theorem entryStart_relocate (n : Node) (entry : List Node) :
    entryStart ((n :: entry).map (Node.relocate f)) = f (entryStart (n :: entry)) := by
  simp [entryStart, List.getLast?_cons, Node.start_relocate, List.getLast?_map]

theorem finishEntry_relocate (opening : Opening) (n : Node) (entry : List Node) :
    finishEntry opening ((n :: entry).map (Node.relocate f)) =
      relocated f (List.map (Node.relocate f)) (finishEntry opening (n :: entry)) := by
  unfold finishEntry
  rw [isParameter_relocate, entryStart_relocate]
  split
  · rfl
  · simp [relocated]

theorem combine_relocate (op : Operator) (lhs : Option Node) (rhs : Node) (place : Location) :
    combine op (lhs.map (Node.relocate f)) (rhs.relocate f) (f place) =
      (combine op lhs rhs place).relocate f := by
  simp [combine, Node.relocate_eq]

namespace State

@[simp]
theorem constructs_relocate (s : State) : (s.relocate f older).constructs = s.constructs := by
  simp [constructs, relocate, List.flatMap_map]

@[simp]
theorem innermost_relocate (s : State) : (s.relocate f older).innermost = s.innermost := by
  simp [innermost]

@[simp]
theorem unclosed_relocate (s : State) : (s.relocate f older).unclosed = s.unclosed := by
  simp [unclosed, relocate, List.findSome?_map, Function.comp_def]

@[simp]
theorem closes_relocate (s : State) (token : Token) :
    (s.relocate f older).closes token = s.closes token := by
  cases token <;> simp [closes]

theorem deliver_relocate (program : Sequence) (n : Node) (stack : List Frame) :
    deliver ((program.relocate f).after older) (n.relocate f) (stack.map (Frame.relocate f)) =
      relocated f (relocate f older) (deliver program n stack) := by
  fun_induction deliver program n stack
  case case1 => rfl
  case case2 accepts hi =>
    simp only [List.map_cons, Frame.relocate, deliver, Node.kind_relocate, accepts, if_true]
    rw [combine_relocate, hi]
  case case3 refuses =>
    simp only [List.map_cons, Frame.relocate, deliver, Node.kind_relocate, refuses]
    simp [relocated, Refusal.relocate]
  case case4 name =>
    simp [Frame.relocate, deliver, name, relocated, relocate, Awaited.relocate]
  case case5 name =>
    simp [Frame.relocate, deliver, name, relocated, Refusal.relocate]
  case case6 spent =>
    simp only [List.map_cons, Frame.relocate, deliver, spent, if_true]
    rw [← List.map_cons, finishEntry_relocate]
    exact relocated_bind _ fun full => rfl
  case case7 spent =>
    simp [Frame.relocate, deliver, spent, relocated, relocate, Awaited.relocate]
  case case8 =>
    simp [Frame.relocate, deliver, relocated, relocate, Awaited.relocate, Sequence.push_relocate]

theorem put_relocate (s : State) (n : Node) :
    (s.relocate f older).put (n.relocate f) = relocated f (relocate f older) (s.put n) :=
  deliver_relocate s.program n s.stack

theorem takeBack_relocate (s : State) :
    (s.relocate f older).takeBack =
      s.takeBack.map fun p => (p.1.relocate f, p.2.relocate f older) := by
  obtain ⟨awaited, stack, program⟩ := s
  rcases stack with _ | ⟨_ | _ | ⟨_, _, _, _ | _⟩ | ⟨_, _, content⟩, stack⟩
  case nil =>
    rcases program with ⟨settled, _ | ⟨n, recent⟩⟩ <;> rfl
  case cons.block =>
    rcases content with ⟨settled, _ | ⟨n, recent⟩⟩ <;> rfl
  all_goals rfl

theorem takeLeft_relocate (s : State) (family : Family) (place : Location) :
    (s.relocate f older).takeLeft family (f place) =
      relocated f (fun p => (p.1.relocate f, p.2.relocate f older)) (s.takeLeft family place) := by
  simp only [takeLeft, takeBack_relocate]
  rcases s.takeBack with _ | ⟨n, t⟩
  case none => rfl
  case some =>
    simp only [Option.map_some, Node.kind_relocate, Node.location_relocate]
    split <;> rfl

theorem settleCast_relocate (s : State) :
    (s.relocate f older).settleCast = relocated f (relocate f older) s.settleCast := by
  obtain ⟨awaited, stack, program⟩ := s
  rcases awaited with _ | _ | _ | _
  case anything =>
    rcases stack with _ | ⟨⟨_ | _ | _ | _ | _, lhs, place⟩ | _ | _ | _, stack⟩
    case cons.operator.cast =>
      have query : _ = relocated f (relocate f older) _ :=
        deliver_relocate program { kind := .typeOf, lhs, location := place } stack
      rw [Node.relocate_eq] at query
      exact query
    all_goals rfl
  all_goals rfl

theorem closeList_relocate (s : State) (opening : Opening) (place : Location)
    (entries : List (List Node)) :
    (s.relocate f older).closeList opening (f place) (entries.map (·.map (Node.relocate f))) =
      relocated f (relocate f older) (s.closeList opening place entries) := by
  cases opening
  case signature => simp [closeList, relocated, await, relocate, Awaited.relocate, Header.relocate]
  all_goals
    simp only [closeList, ← put_relocate, Node.relocate_eq]
    simp

theorem closeBlock_relocate (s : State) (header : Option Header) (place : Location)
    (content : Sequence) :
    (s.relocate f older).closeBlock (header.map (Header.relocate f)) (f place)
        (content.relocate f) =
      relocated f (relocate f older) (s.closeBlock header place content) := by
  cases header
  all_goals
    simp only [closeBlock, Option.map_none, Option.map_some, Header.relocate, ← put_relocate,
      Node.relocate_eq, Sequence.toList_relocate, List.map_nil]

theorem close_relocate (s : State) (token : Token) (place : Location) :
    (s.relocate f older).close token (f place) =
      relocated f (relocate f older) (s.close token place) := by
  obtain ⟨awaited, stack, program⟩ := s
  rcases stack with _ | ⟨_ | _ | ⟨opening, start, entries, _ | ⟨n, entry⟩, budget⟩ |
    ⟨header, start, content⟩, stack⟩
  case nil           => cases token <;> rfl
  case cons.operator => rfl
  case cons.naming   => rfl
  case cons.list.nil =>
    cases token
    case closeParen =>
      exact closeList_relocate ⟨awaited, stack, program⟩ opening start entries
    all_goals rfl
  case cons.list.cons =>
    cases token
    case closeParen =>
      simp only [relocate, List.map_cons, Frame.relocate, close]
      rw [← List.map_cons, finishEntry_relocate]
      exact relocated_bind _ fun full =>
        closeList_relocate ⟨awaited, stack, program⟩ opening start (full :: entries)
    case comma =>
      simp only [relocate, List.map_cons, Frame.relocate, close]
      rw [← List.map_cons, finishEntry_relocate]
      exact relocated_bind _ fun full => rfl
    all_goals rfl
  case cons.block =>
    cases token
    case closeBrace => exact closeBlock_relocate ⟨awaited, stack, program⟩ header start content
    all_goals rfl

theorem accept_relocate (s : State) (l : Lexeme) :
    (s.relocate f older).accept (l.relocate f) = relocated f (relocate f older) (s.accept l) := by
  obtain ⟨token, start, stop⟩ := l
  rcases token with _ | c | ⟨text, called⟩ | ⟨form, text⟩ | text | op | c | _ | _ | _ | _ | _ |
    _ | _ | next | _ | _
  case constant => exact put_relocate s (.leaf c.kind "" start)
  case number   => exact put_relocate s (.leaf form.kind text start)
  case string   => exact put_relocate s (.leaf .string text start)
  case openBrace | badNumber | openString | stray => rfl
  case operator =>
    cases op
    case not => rfl
    all_goals
      simp only [accept, Lexeme.relocate, reduceCtorEq, if_true, if_false, takeLeft_relocate]
      exact relocated_bind _ fun taken => rfl
  all_goals
    simp only [accept, Lexeme.relocate, constructs_relocate, innermost_relocate, closes_relocate]
  case function => split <;> rfl
  case openParen => split <;> rfl
  case name =>
    split
    · rfl
    · exact put_relocate s (.leaf .identifier text start)
  case counter =>
    rw [takeLeft_relocate]
    refine relocated_bind _ fun taken => ?_
    simp only [Node.kind_relocate]
    split
    · rfl
    · exact put_relocate taken.2 (.after c.kind taken.1 start)
  case closeBrace | closeParen | comma =>
    split
    · exact close_relocate s _ start
    · rfl
  case dot | colon =>
    rw [takeLeft_relocate]
    exact relocated_bind _ fun taken => rfl

theorem step_relocate (s : State) (l : Lexeme) :
    (s.relocate f older).step (l.relocate f) = relocated f (relocate f older) (s.step l) := by
  simp only [step, closes_relocate, Lexeme.relocate]
  split
  case' isTrue =>
    rw [settleCast_relocate]
    refine relocated_bind _ fun t => ?_
  case' isFalse => refine relocated_bind (g := relocate f older) (.ok s) fun t => ?_
  all_goals
    obtain ⟨awaited, stack, program⟩ := t
    rcases awaited with _ | _ | _ | _
    case anything            => exact accept_relocate ⟨.anything, stack, program⟩ l
    case parenthesis | brace => cases l.token <;> rfl
    case separator =>
      cases l.token
      case closeParen => exact close_relocate ⟨.anything, stack, program⟩ .closeParen l.start
      all_goals rfl

theorem endLine_relocate (s : State) (stop : Location) :
    (s.relocate f older).endLine (f stop) = relocated f (relocate f older) (s.endLine stop) := by
  simp only [endLine, settleCast_relocate]
  refine relocated_bind _ fun t => ?_
  obtain ⟨awaited, stack, program⟩ := t
  rcases awaited with _ | _ | _ | _
  case anything =>
    rcases stack with _ | ⟨_ | _ | ⟨opening, start, entries, _ | ⟨n, entry⟩, budget⟩ |
      ⟨header, start, content⟩, stack⟩
    case nil =>
      simp [relocate, Awaited.relocate, relocated, Sequence.settle_after, Sequence.settle_relocate,
        pure, Except.pure]
    case cons.list.cons =>
      simp only [relocate, Awaited.relocate, List.map_cons, Frame.relocate]
      rw [← List.map_cons, finishEntry_relocate]
      exact relocated_bind _ fun full => rfl
    case cons.block =>
      simp [relocate, Awaited.relocate, Frame.relocate, relocated, Sequence.settle_relocate, pure,
        Except.pure]
    all_goals rfl
  all_goals rfl

end State
end Parser
end WispSyntax

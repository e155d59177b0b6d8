import WispSyntax.Program
import WispSyntax.Proofs.Transition

/-!
Readings of whole programs. A text is accepted if its lines lead from the empty state to one that
leaves nothing open (`parse_eq_ok_iff`), and what is kept token by token and line by line along
the way holds at the end (`parse_induction`).
-/

namespace WispSyntax

-- The lines of a program that are neither blank nor a comment.
def keptLines (text : String) : List SourceLine :=
  (Feed.ofText text).withoutComments.lines

namespace Parser

section
variable {α β ε : Type} {f : β → α → Except ε β}

-- What each step of a fold keeps, told what came before it, a fold without a fault keeps.
theorem foldlM_induction {P : List α → β → Prop} {xs done : List α} {b c : β}
    (step : ∀ done b x c, x ∈ xs → P done b → f b x = .ok c → P (done ++ [x]) c)
    (start : P done b) (h : xs.foldlM f b = .ok c) : P (done ++ xs) c := by
  induction xs generalizing done b
  case nil =>
    cases h
    simpa using start
  case cons x xs hi =>
    rw [List.foldlM_cons, bind_eq_ok_iff] at h
    obtain ⟨d, hx, h⟩ := h
    have next := step done b x d (.head _) start hx
    have rest := hi (fun done b y c hy => step done b y c (.tail _ hy)) next h
    simpa using rest

end

namespace State

def readLines (s : State) (lines : List SourceLine) : Except Refusal State :=
  lines.foldlM readLine s

-- What the comma or the parenthesis after a parameter goes on with is a list.
def InList (s : State) : Prop :=
  s.awaited = .separator → ∃ opening place entries entry budget stack,
    s.stack = .list opening place entries entry budget :: stack

theorem inList_of_deliver {program : Sequence} {n : Node} {stack : List Frame} {t : State}
    (h : deliver program n stack = .ok t) : t.InList := by
  fun_induction deliver program n stack
  case case2 hi => exact hi h
  case case6 =>
    have ⟨full, _, h⟩ := bind_eq_ok_iff.mp h
    cases h
    exact fun _ => ⟨_, _, _, _, _, _, rfl⟩
  all_goals
    cases h
    try exact nofun

theorem Settles.inList {s t : State} (h : Settles s t) : t.InList := by
  have .query put := h
  exact inList_of_deliver put

theorem inList_of_closeList {s t : State} {opening : Opening} {place : Location}
    {entries : List (List Node)} (h : s.closeList opening place entries = .ok t) : t.InList := by
  cases opening
  case signature =>
    cases h
    exact nofun
  all_goals exact inList_of_deliver h

theorem inList_of_closeBlock {s t : State} {header : Option Header} {place : Location}
    {content : Sequence} (h : s.closeBlock header place content = .ok t) : t.InList := by
  cases header <;> exact inList_of_deliver h

theorem Transition.inList {s t : State} {l : Lexeme} (h : Transition s l t) : t.InList := by
  cases h
  case leaf put    => exact inList_of_deliver put
  case counter put => exact inList_of_deliver put
  case operator left _ => cases left <;> exact nofun
  case close closing =>
    cases closing
    case list close  => exact inList_of_closeList close
    case comma       => exact nofun
    case block close => exact inList_of_closeBlock close
  all_goals exact nofun

-- Where a line has ended, neither an operator nor a parameter waits for what follows it.
def Rests (s : State) : Prop :=
  s.awaited ≠ .separator ∧ (s.awaited = .anything → ∀ f ∈ s.stack.head?, f.unclosed ≠ none)

theorem Rests.stack_eq_nil {s : State} (h : s.Rests) (closed : s.unclosed = none) :
    s.awaited = .anything ∧ s.stack = [] := by
  obtain ⟨awaited, stack, program⟩ := s
  cases awaited <;> cases stack <;> simp_all [unclosed, Awaited.unclosed, Rests]

theorem LineBreak.rests {s t : State} (h : LineBreak s t) (hs : s.InList) : t.Rests := by
  cases h
  case separator =>
    obtain ⟨_, _, _, _, _, _, rfl⟩ := hs rfl
    simp [Rests, Frame.unclosed]
  all_goals simp [Rests, Frame.unclosed]

theorem readLine_induction {P Q : List Lexeme → State → Prop} {l : SourceLine}
    {done : List Lexeme} {s t : State}
    (token : ∀ done s x t, x ∈ l.lexemes → P done s → s.step x = .ok t → P (done ++ [x]) t)
    (finish : ∀ done s t, P done s → s.endLine l.stop = .ok t → Q done t) (start : P done s)
    (h : s.readLine l = .ok t) : Q (done ++ l.lexemes) t := by
  have ⟨u, hu, h⟩ := bind_eq_ok_iff.mp h
  exact finish _ u t (foldlM_induction token start hu) h

end State

theorem readFrom_eq_ok_iff {s : State} {last : SourceLine} {failure : Option String}
    {lines : List SourceLine} {root : Node} :
    (readFrom s last failure lines).1 = .ok root ↔
      failure = none ∧ ∃ t, s.readLines lines = .ok t ∧ t.unclosed = none ∧ t.root = root := by
  induction lines generalizing s last
  case nil =>
    cases failure <;> cases h : s.unclosed <;>
      simp [readFrom, State.readLines, h, pure, Except.pure]
  case cons l rest hi =>
    cases h : s.readLine l
    case error => simp [readFrom, State.readLines, h, bind, Except.bind]
    case ok t  => simp [readFrom, State.readLines, h, hi, bind, Except.bind]

theorem parse_eq_ok_iff {text : String} {root : Node} :
    parse text = .ok root ↔
      ∃ s, State.readLines {} (keptLines text) = .ok s ∧ s.unclosed = none ∧ s.root = root := by
  simp only [parse, Feed.parse, readFrom_eq_ok_iff, keptLines]
  simp [Feed.withoutComments, Feed.ofText]

-- `P` is what holds between the lines, given the tokens read so far, and `Q` what holds on a line.
theorem parse_induction {P : List Lexeme → State → Prop}
    {Q : SourceLine → List Lexeme → State → Prop} {text : String} {root : Node} (start : P [] {})
    (enter : ∀ l ∈ keptLines text, ∀ done s, P done s → Q l done s)
    (token : ∀ l ∈ keptLines text, ∀ x ∈ l.lexemes, ∀ done s t, Q l done s → s.step x = .ok t →
      Q l (done ++ [x]) t)
    (finish : ∀ l ∈ keptLines text, ∀ done s t, Q l done s → s.endLine l.stop = .ok t → P done t)
    (h : parse text = .ok root) :
    ∃ s, P ((keptLines text).flatMap SourceLine.lexemes) s ∧ s.awaited = .anything ∧
      s.stack = [] ∧ s.root = root := by
  have ⟨s, hs, closed, root_eq⟩ := parse_eq_ok_iff.mp h
  let P' (lines : List SourceLine) (s : State) := P (lines.flatMap SourceLine.lexemes) s ∧ s.Rests
  have start' : P' [] {} := ⟨start, by simp [State.Rests]⟩
  have ⟨hp, rests⟩ : P' ([] ++ keptLines text) s := by
    refine foldlM_induction (fun lines s l t hl hp ht => ?_) start' hs
    have ⟨hp, rests⟩ := hp
    have := State.readLine_induction (P := fun done s => Q l done s ∧ s.InList)
      (Q := fun done s => P done s ∧ s.Rests) ?_ ?_ ⟨enter l hl _ s hp, ?_⟩ ht
    · simpa [P'] using this
    · intro done s x t hx ⟨hq, _⟩ ht
      have ⟨u, _, hu⟩ := State.transition_of_step ht
      exact ⟨token l hl x hx done s t hq ht, hu.inList⟩
    · intro done s t ⟨hq, hs⟩ ht
      have ⟨u, settled, hu⟩ := State.lineBreak_of_endLine ht
      refine ⟨finish l hl done s t hq ht, hu.rests ?_⟩
      rcases settled with rfl | settled
      · exact hs
      · exact settled.inList
    · exact fun h => absurd h rests.1
  have ⟨awaited, stack⟩ := rests.stack_eq_nil closed
  exact ⟨s, hp, awaited, stack, root_eq⟩

end Parser
end WispSyntax

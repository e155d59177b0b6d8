import WispSyntax.Proofs.Balance
import WispSyntax.Proofs.Transition

/-!
What the rest of a session comes to: once if the stack reads it on from some state (`readOn`), and
once if a builder reads a part of it and hands on what it got (`outcome`).
-/

namespace WispSyntax

open WispSyntax.Parser

-- A tree or a failure, and what is left to be pulled then.
abbrev Outcome := Except Failure Node × Feed

namespace Builder

@[simp]
theorem closesIn_none (token : Token) : closesIn none token = false := by
  cases token <;> rfl

theorem closesIn_block {token : Token} : closesIn (some .block) token ↔ token = .closeBrace := by
  cases token <;> simp [closesIn]

theorem closesIn_list {innermost : Option Construct} {token : Token}
    (h : innermost = some .group ∨ innermost = some .declaration) :
    closesIn innermost token ↔ token = .comma ∨ token = .closeParen := by
  rcases h with rfl | rfl <;> cases token <;> simp [closesIn]

end Builder

namespace Session

variable {α : Type} [LineSupplier α]

-- A refusal stands for one in the line that the session is in.
def readOn (s : Session α) (state : Except Refusal State) : Outcome :=
  match state >>= (s.rest.foldlM State.step ·) >>= (·.endLine s.line.stop) with
  | .error r  => (.error (.rejected r.fault r.place s.line.text), LineSupplier.feed s.supplier)
  | .ok state =>
    readFrom state s.line (LineSupplier.feed s.supplier).failure
      (LineSupplier.feed s.supplier).lines

variable {s : Session α} {x y : Except Refusal State} {l : Lexeme} {lexemes : List Lexeme}

theorem readOn_cons (h : s.rest = l :: lexemes) (x : Except Refusal State) :
    s.readOn x = (Builder.consume s).2.readOn (x >>= (·.step l)) := by
  have rest : (Builder.consume s).2.rest = lexemes := by rw [rest_consume, h, List.tail_cons]
  unfold readOn
  rw [rest, h]
  cases x <;> rfl

theorem readOn_nil (h : s.rest = []) (x : Except Refusal State) :
    s.readOn x =
      match x >>= (·.endLine s.line.stop) with
      | .error r  => (.error (.rejected r.fault r.place s.line.text), LineSupplier.feed s.supplier)
      | .ok state =>
        readFrom state s.line (LineSupplier.feed s.supplier).failure
          (LineSupplier.feed s.supplier).lines := by
  unfold readOn
  rw [h]
  cases x <;> rfl

theorem readOn_step (h : s.rest = l :: lexemes) (q : State) :
    s.readOn (.ok q) = (Builder.consume s).2.readOn (q.step l) :=
  readOn_cons h _

-- A refusal of the next token is one in the same line.
theorem readOn_refused {q : State} {r : Refusal} (h : s.rest = l :: lexemes)
    (refused : q.step l = .error r) : s.readOn (.ok q) = s.readOn (.error r) := by
  rw [readOn_step h, refused]
  rfl

theorem readOn_of_step_eq {q q' : State} (h : s.rest = l :: lexemes) (eq : q.step l = q'.step l) :
    s.readOn (.ok q) = s.readOn (.ok q') := by
  rw [readOn_step h, readOn_step h, eq]

theorem readOn_congr_of_cons (h : s.rest = l :: lexemes)
    (eq : x >>= (·.step l) = y >>= (·.step l)) : s.readOn x = s.readOn y := by
  rw [readOn_cons h, readOn_cons h, eq]

theorem readOn_congr_of_nil (h : s.rest = [])
    (eq : x >>= (·.endLine s.line.stop) = y >>= (·.endLine s.line.stop)) :
    s.readOn x = s.readOn y := by
  rw [readOn_nil h, readOn_nil h, eq]

-- The next line is read from where the last one ended.
theorem readFrom_line {t : Session α} {q : State} {last : SourceLine} {lines : List SourceLine}
    {failure : Option String} (rest : t.rest = t.line.lexemes)
    (feed : LineSupplier.feed t.supplier = ⟨lines, failure⟩) :
    readFrom q last failure (t.line :: lines) = t.readOn (.ok q) := by
  rw [readFrom, readOn, rest, feed]
  rfl

-- The line ends, or a token comes that closes the innermost construct or parts its entries.
def AtEnd (s : Session α) : Prop :=
  ∀ l, s.rest.head? = some l → Builder.closesIn s.contexts.head? l.token

end Session

namespace Builder

variable {α β γ : Type} [LineSupplier α]

-- What comes of it if a builder is followed by something else.
def outcome (x : Builder α β) (k : β → Session α → Outcome) (s : Session α) : Outcome :=
  match x s with
  | (.ok b, s)          => k b s
  | (.error failure, s) => (.error failure, LineSupplier.feed s.supplier)

variable {k : β → Session α → Outcome} {s : Session α}

@[simp]
theorem outcome_pure (b : β) : (pure b : Builder α β).outcome k = k b :=
  rfl

@[simp]
theorem outcome_bind (x : Builder α γ) (f : γ → Builder α β) :
    (x >>= f).outcome k = x.outcome fun c => (f c).outcome k := by
  funext s
  unfold outcome
  rw [bind_apply]
  rcases x s with ⟨_ | _, _⟩ <;> rfl

@[simp]
theorem outcome_reject (fault : Fault) (place : Location) :
    (reject fault place : Builder α β).outcome k s = s.readOn (.error { fault, place }) :=
  rfl

@[simp]
theorem outcome_peek {k : Option Lexeme → Session α → Outcome} :
    peek.outcome k s = k s.rest.head? s :=
  rfl

@[simp]
theorem outcome_here {k : Location → Session α → Outcome} :
    here.outcome k s = k (s.rest.head?.elim s.line.stop (·.start)) s :=
  rfl

@[simp]
theorem outcome_contexts {k : List Construct → Session α → Outcome} :
    contexts.outcome k s = k s.contexts s :=
  rfl

@[simp]
theorem outcome_consume {k : Unit → Session α → Outcome} :
    consume.outcome k s = k () (consume s).2 :=
  rfl

theorem outcome_eat {k : Bool → Session α → Outcome} {l : Lexeme} {lexemes : List Lexeme}
    (h : s.rest = l :: lexemes) :
    (eat l.token).outcome k s = k true (consume s).2 := by
  simp [eat, h]

theorem outcome_eat_of_ne {k : Bool → Session α → Outcome} {token : Token}
    (h : ∀ l, s.rest.head? = some l → l.token ≠ token) : (eat token).outcome k s = k false s := by
  unfold eat
  rcases next : s.rest.head? with _ | l
  case none => simp [next]
  case some => simp [next, h l next]

-- Entering a construct does not change what is read on.
theorem outcome_within (construct : Construct) (x : Builder α β) :
    (within construct x).outcome k s =
      x.outcome (fun b t => k b { t with contexts := t.contexts.tail })
        { s with contexts := construct :: s.contexts } := by
  unfold outcome within
  rcases x { s with contexts := construct :: s.contexts } with ⟨_ | _, _⟩ <;> rfl

theorem Still.outcome_congr {x : Builder α β} {k' : β → Session α → Outcome} (still : Still x)
    (eq : ∀ b, k b s = k' b s) : x.outcome k s = x.outcome k' s := by
  have same := still s
  unfold outcome
  generalize x s = result at same
  rcases result with ⟨_ | b, t⟩
  case error => rfl
  case ok    =>
    obtain rfl : t = s := same
    exact eq b

end Builder
end WispSyntax

import Mathlib.Tactic.DefEqTransformations
import WispSyntax.Program

/-!
What a line can be refused for: one of its tokens, for what it is itself, or that it does not fit
together with what has been read (`State.raises_readLine`).
-/

namespace WispSyntax

-- A fault of the tokens of a line together. The others are found at a single token, at the end of
-- the input or not at all.
def Fault.isStructural : Fault → Bool
  | number _ | strayCharacter _ | openString | notBitwise _ | openConstruct _ => false
  | fault                                                                     => fault.occurs

theorem Fault.occurs_of_isStructural {fault : Fault} (h : fault.isStructural) : fault.occurs := by
  cases fault <;> first | rfl | cases h

namespace Parser

-- What a token is refused for wherever it stands, or if it is a closing one, where there is nothing
-- to close.
def refusal? (l : Lexeme) : Option Refusal :=
  match l.token with
  | .closeBrace | .closeParen | .comma =>
    some { fault := .strayCharacter (State.bracket l.token), place := l.start }
  | .badNumber fault                   => some { fault := .number fault, place := l.stop }
  | .openString                        => some { fault := .openString, place := l.start }
  | .dot (some c)                      => some { fault := .notBitwise c, place := l.stop }
  | .stray c                           => some { fault := .strayCharacter c, place := l.start }
  | _                                  => none

theorem occurs_of_refusal? {l : Lexeme} {r : Refusal} (h : refusal? l = some r) :
    r.fault.occurs := by
  unfold refusal? at h
  split at h <;> cases h <;> rfl

-- An outcome that is no fault but a structural one or one of the given.
inductive Raises (own : Refusal → Prop) {α : Type} : Except Refusal α → Prop
  | ok (a : α) : Raises own (.ok a)
  | structural {r : Refusal} (h : r.fault.isStructural) : Raises own (.error r)
  | own {r : Refusal} (h : own r) : Raises own (.error r)

section
variable {own own' : Refusal → Prop} {α β : Type}

theorem Raises.bind {x : Except Refusal α} {k : α → Except Refusal β} (hx : Raises own x)
    (hk : ∀ a, Raises own (k a)) : Raises own (x >>= k) := by
  cases hx
  case ok a         => exact hk a
  case structural h => exact .structural h
  case own h        => exact .own h

theorem Raises.mono {x : Except Refusal α} (hx : Raises own x) (le : ∀ r, own r → own' r) :
    Raises own' x := by
  cases hx
  case ok a         => exact .ok a
  case structural h => exact .structural h
  case own h        => exact .own (le _ h)

theorem raises_finishEntry (opening : Opening) (entry : List Node) :
    Raises own (finishEntry opening entry) := by
  unfold finishEntry
  split
  · exact .structural rfl
  · exact .ok _

namespace State

theorem raises_deliver (program : Sequence) (n : Node) (stack : List Frame) :
    Raises own (deliver program n stack) := by
  fun_induction deliver program n stack
  case case2 hi      => exact hi
  case case3 | case5 => exact .structural rfl
  case case6         => exact .bind (raises_finishEntry ..) fun _ => .ok _
  all_goals exact .ok _

theorem raises_settleCast (s : State) : Raises own s.settleCast := by
  unfold settleCast
  split
  · exact raises_deliver ..
  · exact .ok _

theorem raises_takeLeft (s : State) (family : Family) (place : Location) :
    Raises own (s.takeLeft family place) := by
  unfold takeLeft
  split
  · exact .structural rfl
  · split
    · exact .ok _
    · exact .structural rfl

theorem raises_closeList (s : State) (opening : Opening) (place : Location)
    (entries : List (List Node)) : Raises own (s.closeList opening place entries) := by
  cases opening
  case signature => exact .ok _
  all_goals exact raises_deliver ..

theorem raises_closeBlock (s : State) (header : Option Header) (place : Location)
    (content : Sequence) : Raises own (s.closeBlock header place content) := by
  cases header <;> exact raises_deliver ..

theorem raises_close (s : State) {token : Token} {place : Location}
    (stray : own { fault := .strayCharacter (bracket token), place }) :
    Raises own (s.close token place) := by
  unfold close
  split
  case h_3 => exact raises_closeList ..
  case h_4 => exact .bind (raises_finishEntry ..) fun _ => raises_closeList ..
  case h_6 => exact .bind (raises_finishEntry ..) fun _ => .ok _
  case h_7 => exact raises_closeBlock ..
  case h_8 => exact .own stray
  all_goals exact .structural rfl

theorem raises_accept (s : State) {l : Lexeme} (token : ∀ r, refusal? l = some r → own r) :
    Raises own (s.accept l) := by
  have put (n : Node) : Raises own (s.put n) := raises_deliver ..
  obtain ⟨t, start, stop⟩ := l
  cases t <;> simp only [accept]
  case constant | number | string => exact put _
  case openBrace | openParen      => exact .ok _
  case badNumber | openString | stray => exact .own (token _ rfl)
  case function => split <;> first | exact .ok _ | exact .structural rfl
  case name => split <;> first | exact .ok _ | exact put _
  case operator op =>
    cases op
    case not => exact .ok _
    all_goals exact .bind (raises_takeLeft ..) fun _ => .ok _
  case counter =>
    refine .bind (raises_takeLeft ..) fun taken => ?_
    split
    · exact .structural rfl
    · exact raises_deliver ..
  case closeBrace | closeParen | comma =>
    have stray := token _ rfl
    split
    · exact raises_close s stray
    · exact .own stray
  case dot next =>
    refine .bind (raises_takeLeft ..) fun _ => ?_
    cases next
    case none => exact .structural rfl
    case some => exact .own (token _ rfl)
  case colon => exact .bind (raises_takeLeft ..) fun _ => .structural rfl

theorem raises_step (s : State) (l : Lexeme) :
    Raises (fun r => refusal? l = some r) (s.step l) := by
  unfold step
  split
  case' isTrue  => refine .bind (raises_settleCast s) fun t => ?_
  case' isFalse => refine .bind (.ok s) fun t => ?_
  all_goals
    beta_reduce
    split
    case h_1             => exact raises_accept t fun _ eq => eq
    case h_6 token       => exact raises_close _ (by rw [refusal?, token])
    case h_2 | h_4 | h_7 => exact .ok _
    case h_3 | h_5 | h_8 => exact .structural rfl

theorem raises_endLine (s : State) (stop : Location) : Raises own (s.endLine stop) := by
  unfold endLine
  refine .bind (raises_settleCast s) fun t => ?_
  split
  case h_3 | h_4 => exact .structural rfl
  case h_6       => exact .bind (raises_finishEntry ..) fun _ => .ok _
  all_goals exact .ok _

theorem raises_foldlM (s : State) (lexemes : List Lexeme) :
    Raises (fun r => ∃ l ∈ lexemes, refusal? l = some r) (lexemes.foldlM step s) := by
  induction lexemes generalizing s
  case nil => exact .ok s
  case cons l lexemes hi =>
    refine .bind ((raises_step s l).mono fun r eq => ⟨l, .head _, eq⟩) fun t => ?_
    exact (hi t).mono fun r ⟨m, mem, eq⟩ => ⟨m, .tail _ mem, eq⟩

theorem raises_readLine (s : State) (l : SourceLine) :
    Raises (fun r => ∃ x ∈ l.lexemes, refusal? x = some r) (s.readLine l) :=
  .bind (raises_foldlM s l.lexemes) fun t => raises_endLine t l.stop

end State
end
end Parser
end WispSyntax

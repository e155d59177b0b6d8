import WispSyntax.Proofs.Reading

/-!
What the tokens of a program are inside of, told from the tokens alone. The parser holds a frame for
each of these scopes (`State.scopes_of_step`).
-/

namespace WispSyntax

-- Declarations before and after their name is read, up to their body, and pairs of brackets.
inductive Scope
  | naming
  | head
  | parentheses
  | braces
deriving DecidableEq, Repr

namespace Scope

def name : List Scope → List Scope
  | naming :: outer => head :: outer
  | scopes          => scopes

-- The scopes after a token, given those before it, both innermost first. The braces after the head
-- of a declaration are its body and end the head.
def pass : Token → List Scope → List Scope
  | .function,   scopes        => naming :: scopes
  | .name _ _,   scopes        => name scopes
  | .openParen,  scopes        => parentheses :: scopes
  | .openBrace,  head :: outer => braces :: outer
  | .openBrace,  scopes        => braces :: scopes
  | .closeParen, scopes        => scopes.tail
  | .closeBrace, scopes        => scopes.tail
  | _,           scopes        => scopes

variable {scopes : List Scope}

theorem name_of_head?_ne (h : scopes.head? ≠ some naming) : name scopes = scopes := by
  unfold name
  split
  · simp at h
  · rfl

theorem pass_openBrace (h : scopes.head? ≠ some head) :
    pass .openBrace scopes = braces :: scopes := by
  unfold pass
  split <;> simp_all

end Scope

theorem Operator.kind_ne_identifier (op : Operator) : op.kind ≠ .identifier := by
  rcases op with ⟨⟨⟩⟩ | ⟨⟨⟩⟩ | _ | _ | _ <;> decide

theorem Counter.kind_ne_identifier (c : Counter) : c.kind ≠ .identifier := by
  cases c <;> decide

theorem Constant.kind_ne_identifier (c : Constant) : c.kind ≠ .identifier := by
  cases c <;> decide

theorem NumberForm.kind_ne_identifier (form : NumberForm) : form.kind ≠ .identifier := by
  rcases form with _ | _ | ⟨⟨⟩⟩ <;> decide

namespace Parser

def Opening.scopes : Opening → List Scope
  | signature _ => [.head]
  | _           => []

def Frame.scopes : Frame → List Scope
  | operator _ _ _        => []
  | naming _              => [.naming]
  | list opening _ _ _ _  => .parentheses :: opening.scopes
  | block _ _ _           => [.braces]

def Awaited.scopes : Awaited → List Scope
  | parenthesis opening _ => opening.scopes
  | brace _               => [.head]
  | anything | separator  => []

def State.scopes (s : State) : List Scope :=
  s.awaited.scopes ++ s.stack.flatMap Frame.scopes

section
variable {stack : List Frame}

-- No frame is for the head of a declaration on its own.
theorem head?_scopes_ne_head : (stack.flatMap Frame.scopes).head? ≠ some .head := by
  induction stack
  case nil => simp
  case cons f stack hi =>
    cases f
    case operator => exact hi
    all_goals simp [Frame.scopes]

theorem head?_constructs (h : (stack.flatMap Frame.scopes).head? = some .naming) :
    (stack.flatMap Frame.constructs).head? = some .declaration := by
  induction stack
  case nil => cases h
  case cons f stack hi =>
    cases f
    case operator => exact hi h
    case naming   => rfl
    case list     => cases h
    case block    => cases h

end

namespace State

theorem scopes_of_deliver {program : Sequence} {n : Node} {stack : List Frame} {t : State}
    (h : deliver program n stack = .ok t) :
    (n.kind ≠ .identifier → (stack.flatMap Frame.scopes).head? ≠ some .naming) ∧
      t.scopes = Scope.name (stack.flatMap Frame.scopes) := by
  fun_induction deliver program n stack
  case case1 =>
    cases h
    exact ⟨fun _ => by simp, rfl⟩
  case case2 op lhs place stack _ hi =>
    obtain ⟨free, scopes_eq⟩ := hi h
    exact ⟨fun _ => free op.kind_ne_identifier, scopes_eq⟩
  case case4 isIdentifier =>
    cases h
    exact ⟨fun ne => absurd isIdentifier ne, rfl⟩
  case case6 =>
    obtain ⟨full, _, h⟩ := bind_eq_ok_iff.mp h
    cases h
    exact ⟨fun _ => by simp [Frame.scopes], rfl⟩
  case case7 | case8 =>
    cases h
    exact ⟨fun _ => by simp [Frame.scopes], rfl⟩
  case case3 | case5 => contradiction

-- A node that is no name is finished where it is not the name of a declaration.
theorem scopes_of_deliver_ne {program : Sequence} {n : Node} {stack : List Frame} {t : State}
    (h : deliver program n stack = .ok t) (ne : n.kind ≠ .identifier) :
    t.scopes = stack.flatMap Frame.scopes := by
  have ⟨free, scopes_eq⟩ := scopes_of_deliver h
  rw [scopes_eq, Scope.name_of_head?_ne (free ne)]

theorem Settles.scopes_eq {s t : State} (h : Settles s t) : t.scopes = s.scopes := by
  cases h
  case query put =>
    have scopes_eq := scopes_of_deliver_ne put (by simp)
    exact scopes_eq

section
variable {program : Sequence} {stack : List Frame} {s t : State}

theorem Closing.scopes_eq {token : Token} (h : Closing program stack token t) :
    t.scopes = Scope.pass token (stack.flatMap Frame.scopes) := by
  cases h
  case list opening _ _ _ _ _ _ close =>
    cases opening
    case signature =>
      cases close
      rfl
    all_goals exact scopes_of_deliver_ne close (by simp)
  case comma => rfl
  case block header _ _ close => cases header <;> exact scopes_of_deliver_ne close (by simp)

theorem Transition.scopes_eq {l : Lexeme} (h : Transition s l t) :
    t.scopes = Scope.pass l.token s.scopes := by
  cases h
  case leaf token _ _ kind value leaf put =>
    cases token <;> cases leaf
    case name        => exact (scopes_of_deliver put).2
    case constant c  => exact scopes_of_deliver_ne put c.kind_ne_identifier
    case number form => exact scopes_of_deliver_ne put form.kind_ne_identifier
    case string      => exact scopes_of_deliver_ne put (by simp [Node.leaf])
  case callee stack _ _ _ _ outside =>
    exact (Scope.name_of_head?_ne fun naming => outside (head?_constructs naming)).symm
  case declaration | negation => rfl
  case operator left _        => cases left <;> rfl
  case counter c start _ lhs _ left _ _ put =>
    have scopes_eq := scopes_of_deliver_ne put c.kind_ne_identifier
    cases left <;> exact scopes_eq
  case openBlock => exact (Scope.pass_openBrace head?_scopes_ne_head).symm
  case openBody | openGroup | openParameters | openAwaited | separator => rfl
  case close ready closing =>
    rcases ready with rfl | rfl <;> exact closing.scopes_eq

theorem LineBreak.scopes_eq (h : LineBreak s t) : t.scopes = s.scopes := by
  cases h <;> rfl

theorem scopes_of_step {l : Lexeme} (h : s.step l = .ok t) :
    t.scopes = Scope.pass l.token s.scopes := by
  obtain ⟨u, settled, hu⟩ := transition_of_step h
  rw [hu.scopes_eq]
  rcases settled with rfl | ⟨settled, _⟩
  · rfl
  · rw [settled.scopes_eq]

end
end State
end Parser
end WispSyntax

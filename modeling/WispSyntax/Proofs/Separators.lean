import Mathlib.Algebra.Ring.Nat
import WispSyntax.Proofs.Census
import WispSyntax.Proofs.Composition
import WispSyntax.Proofs.Nesting

/-!
Entries of parentheses and the commas between them. An entry is parted from the next one by a comma
or by nothing but the end of its line, and a comma may follow the last one (`parse_parted`).
-/

namespace WispSyntax

-- The groups, the calls and the functions below a node.
def Node.lists (n : Node) : List Node :=
  n.descendants.filter (·.kind.hasParentheses)

section
variable (φ : Nat → Nat)

namespace Node

-- What a node counts if it has parentheses: something that depends on the number of its entries.
def worth (n : Node) : Nat :=
  if n.kind.hasParentheses then φ n.params.length else 0

def total (n : Node) : Nat :=
  (n.inOrder.map (worth φ)).sum

end Node

def worthOf (ns : List Node) : Nat :=
  (ns.map (Node.total φ)).sum

@[simp]
theorem worthOf_nil : worthOf φ [] = 0 :=
  rfl

@[simp]
theorem worthOf_cons (n : Node) (ns : List Node) :
    worthOf φ (n :: ns) = n.total φ + worthOf φ ns := by
  simp [worthOf]

@[simp]
theorem worthOf_append (ms ns : List Node) :
    worthOf φ (ms ++ ns) = worthOf φ ms + worthOf φ ns := by
  simp [worthOf]

theorem worthOf_eq_of_perm {ms ns : List Node} (h : ms.Perm ns) : worthOf φ ms = worthOf φ ns :=
  (h.map _).sum_nat

@[simp]
theorem worthOf_reverse (ns : List Node) : worthOf φ ns.reverse = worthOf φ ns :=
  worthOf_eq_of_perm φ ns.reverse_perm

@[simp]
theorem worthOf_flatten_reverse (nss : List (List Node)) :
    worthOf φ nss.reverse.flatten = worthOf φ nss.flatten :=
  worthOf_eq_of_perm φ nss.reverse_perm.flatten

theorem sum_worth (ns : List Node) :
    ((ns.flatMap Node.inOrder).map (Node.worth φ)).sum = worthOf φ ns := by
  induction ns
  case nil          => rfl
  case cons n ns hi => simp [hi, Node.total]

theorem sum_worth_filter (ns : List Node) :
    (ns.map (Node.worth φ)).sum =
      ((ns.filter (·.kind.hasParentheses)).map (φ ·.params.length)).sum := by
  induction ns
  case nil => rfl
  case cons n ns hi =>
    rw [List.map_cons, List.sum_cons, hi, List.filter_cons, Node.worth]
    split <;> simp

theorem Node.total_eq (n : Node) : n.total φ = n.worth φ + worthOf φ n.branches := by
  rw [Node.total, (n.inOrder_perm.map _).sum_nat, List.map_cons, List.sum_cons, sum_worth]

theorem Node.total_of_no_parentheses {n : Node} (h : n.kind.hasParentheses = false) :
    n.total φ = worthOf φ n.branches := by
  rw [Node.total_eq, worth, h]
  simp

theorem Node.total_leaf {kind : Kind} {value : String} {place : Location}
    (h : kind.hasParentheses = false) : (Node.leaf kind value place).total φ = 0 :=
  Node.total_of_no_parentheses φ h

end

namespace Parser

-- How the last token and the line tell where the parser stands in the entries around it. The number
-- is one where an entry is finished and no comma has been read after it.
inductive State.Stands (c : Census) : State → Nat → Prop
  | program {program} : Stands c ⟨.anything, [], program⟩ 0
  | operator {stack program op lhs place} (within : c.Within) :
      Stands c ⟨.anything, .operator op lhs place :: stack, program⟩ 0
  | naming {stack program place} : Stands c ⟨.anything, .naming place :: stack, program⟩ 0
  | block {stack program header place content} :
      Stands c ⟨.anything, .block header place content :: stack, program⟩ 0
  | opened {stack program opening place budget} (last : c.last = some .openParen) :
      Stands c ⟨.anything, .list opening place [] [] budget :: stack, program⟩ 0
  | entry {stack program opening place entries n entry budget} (within : c.Within) :
      Stands c ⟨.anything, .list opening place entries (n :: entry) budget :: stack, program⟩ 0
  | parted {stack program opening place e entries budget} (last : c.last = some .comma) :
      Stands c ⟨.anything, .list opening place (e :: entries) [] budget :: stack, program⟩ 0
  | ended {stack program opening place e entries budget} (fresh : c.fresh)
      (paren : c.last ≠ some .openParen) (comma : c.last ≠ some .comma) :
      Stands c ⟨.anything, .list opening place (e :: entries) [] budget :: stack, program⟩ 1
  | separator {stack program opening place e entries budget} (within : c.Within) :
      Stands c ⟨.separator, .list opening place (e :: entries) [] budget :: stack, program⟩ 1
  | callee {stack program name place} (fresh : c.fresh = false)
      (called : ∃ text, c.last = some (.name text true)) :
      Stands c ⟨.parenthesis (.call name) place, stack, program⟩ 0
  | signature {stack program name place} :
      Stands c ⟨.parenthesis (.signature name) place, stack, program⟩ 0
  | brace {stack program header} : Stands c ⟨.brace header, stack, program⟩ 0

section
variable (φ : Nat → Nat) (g : Nat)

def Header.total (h : Header) : Nat :=
  φ h.params.length + worthOf φ h.params.flatten

-- The nodes of a frame, and each finished entry of open parentheses.
def Frame.total : Frame → Nat
  | operator _ lhs _         => worthOf φ lhs.toList
  | naming _                 => 0
  | list _ _ entries entry _ =>
    g * entries.length + worthOf φ entries.flatten + worthOf φ entry
  | block header _ content   =>
    (header.map (Header.total φ)).getD 0 + worthOf φ content.toList

def Awaited.total : Awaited → Nat
  | brace header => header.total φ
  | _            => 0

def State.total (s : State) : Nat :=
  s.awaited.total φ + (s.stack.map (Frame.total φ g)).sum + worthOf φ s.program.toList

end

theorem total_combine (φ : Nat → Nat) (op : Operator) (lhs : Option Node) (n : Node)
    (place : Location) :
    (combine op lhs n place).total φ = worthOf φ lhs.toList + n.total φ := by
  rw [Node.total_of_no_parentheses]
  · simp [combine, Node.branches]
  · rcases op with ⟨⟨⟩⟩ | ⟨⟨⟩⟩ | _ | _ | _ <;> rfl

namespace State
variable {c : Census} {program : Sequence} {stack : List Frame} {s t : State}

-- A node that is handed over counts, and so does the entry that it finishes.
theorem stands_of_deliver {n : Node} (h : deliver program n stack = .ok t)
    (within : c.Within) (plain : ∀ φ, n.kind = .identifier → n.total φ = 0) :
    ∃ k, Stands c t k ∧ ∀ φ g, t.total φ g =
      State.total φ g ⟨.anything, stack, program⟩ + n.total φ + g * k := by
  fun_induction deliver program n stack
  case case1 =>
    cases h
    exact ⟨0, .program, fun φ g => by simp [State.total, Awaited.total, Sequence.toList_push]⟩
  case case2 op lhs place stack _ hi =>
    obtain ⟨k, stands, total_eq⟩ := hi h fun φ isIdentifier =>
      absurd isIdentifier op.kind_ne_identifier
    refine ⟨k, stands, fun φ g => ?_⟩
    rw [total_eq, total_combine]
    simp [State.total, Awaited.total, Frame.total]
    omega
  case case3 | case5 => contradiction
  case case4 isIdentifier =>
    cases h
    refine ⟨0, .signature, fun φ g => ?_⟩
    simp [State.total, Awaited.total, Frame.total, plain φ isIdentifier]
  case case6 =>
    obtain ⟨full, hf, h⟩ := bind_eq_ok_iff.mp h
    cases h
    refine ⟨1, .separator within, fun φ g => ?_⟩
    simp [State.total, Awaited.total, Frame.total, eq_of_finishEntry hf, Nat.mul_succ]
    omega
  case case7 =>
    cases h
    refine ⟨0, .entry within, fun φ g => ?_⟩
    simp [State.total, Awaited.total, Frame.total]
    omega
  case case8 =>
    cases h
    refine ⟨0, .block, fun φ g => ?_⟩
    simp [State.total, Awaited.total, Frame.total, Sequence.toList_push]
    omega

theorem Settles.stands {k : Nat} (h : Settles s t) (hs : Stands c s k) :
    k = 0 ∧ ∃ k', Stands c t k' ∧ ∀ φ g, t.total φ g = s.total φ g + g * k' := by
  cases h
  case query put =>
    cases hs
    case operator within =>
      obtain ⟨k, stands, total_eq⟩ := stands_of_deliver put within (by simp)
      refine ⟨rfl, k, stands, fun φ g => ?_⟩
      rw [total_eq, Node.total_of_no_parentheses φ rfl]
      simp [State.total, Awaited.total, Frame.total, Node.branches]
      omega

theorem stands_of_closeList {opening : Opening} {place : Location} {full : List (List Node)}
    (h : closeList ⟨.anything, stack, program⟩ opening place full = .ok t)
    (within : c.Within) :
    ∃ k, Stands c t k ∧ ∀ φ g, t.total φ g = State.total φ g ⟨.anything, stack, program⟩ +
      φ full.length + worthOf φ full.flatten + g * k := by
  cases opening
  case signature =>
    cases h
    refine ⟨0, .brace, fun φ g => ?_⟩
    simp [State.total, Awaited.total, Header.total, await]
    omega
  all_goals
    obtain ⟨k, stands, total_eq⟩ := stands_of_deliver h within (by simp)
    refine ⟨k, stands, fun φ g => ?_⟩
    rw [total_eq, Node.total_eq]
    simp [Node.worth, Kind.hasParentheses, Node.branches]
    omega

theorem stands_of_closeBlock {header : Option Header} {place : Location} {content : Sequence}
    (h : closeBlock ⟨.anything, stack, program⟩ header place content = .ok t)
    (within : c.Within) :
    ∃ k, Stands c t k ∧ ∀ φ g, t.total φ g =
      State.total φ g ⟨.anything, .block header place content :: stack, program⟩ + g * k := by
  cases header
  all_goals
    obtain ⟨k, stands, total_eq⟩ := stands_of_deliver h within (by simp)
    refine ⟨k, stands, fun φ g => ?_⟩
    rw [total_eq, Node.total_eq]
    simp [Node.worth, Kind.hasParentheses, Node.branches, State.total, Awaited.total, Frame.total,
      Header.total]
    omega

theorem Takes.awaited_eq {n : Node} (h : Takes program stack n t) : t.awaited = .anything := by
  cases h <;> rfl

theorem Takes.total_eq {n : Node} (h : Takes program stack n t) (φ : Nat → Nat) (g : Nat) :
    t.total φ g + n.total φ = State.total φ g ⟨.anything, stack, program⟩ := by
  cases h
  all_goals
    simp [State.total, Awaited.total, Frame.total, Sequence.toList]
    try omega

-- A line ends an entry without a comma just where the parser waits for what is behind the entry.
theorem Stands.breaksBefore {k : Nat} {token : Token} (hs : Stands c s k)
    (scopes : c.scopes = s.scopes) (free : s.awaited ≠ .separator) (ne : token ≠ .closeParen) :
    (if c.breaksBefore token then 1 else 0) = k := by
  unfold Census.breaksBefore
  rw [scopes]
  cases hs
  case ended fresh paren comma => simp [State.scopes, Frame.scopes, Awaited.scopes, *]
  case separator => contradiction
  case operator within | entry within => simp [within.fresh]
  case opened last | parted last => simp [last]
  case callee fresh _ => simp [fresh]
  all_goals simp [State.scopes, Frame.scopes, Awaited.scopes, Opening.scopes]

theorem hasParentheses_leafOf? {token : Token} {kind : Kind} {value : String}
    (h : leafOf? token = some (kind, value)) : kind.hasParentheses = false := by
  cases token <;> cases h
  case constant c       => cases c <;> rfl
  case name | string    => rfl
  case number form      => rcases form with _ | _ | ⟨⟨⟩⟩ <;> rfl

-- Behind an entry nothing can come but a comma or the parenthesis.
theorem Transition.awaited_ne_separator {l : Lexeme} {k : Nat} (h : Transition s l t)
    (hs : Stands c s k) (ne : l.token ≠ .closeParen) (ne' : l.token ≠ .comma) :
    s.awaited ≠ .separator := by
  intro waits
  cases hs
  case separator =>
    cases h
    case separator => exact ne' rfl
    case close closing =>
      cases closing
      case list => exact ne rfl
  all_goals cases waits

-- A token that neither closes parentheses nor parts entries.
theorem Transition.stands {l : Lexeme} {k : Nat} (h : Transition s l t) (hs : Stands c s k)
    (ne : l.token ≠ .closeParen) (ne' : l.token ≠ .comma) :
    ∃ k', Stands (c.read l.token) t k' ∧ ∀ φ g, t.total φ g = s.total φ g + g * k' := by
  cases h
  case leaf token _ _ kind value leaf put =>
    have paren : token ≠ .openParen := by
      rintro rfl
      cases leaf
    have noParentheses := hasParentheses_leafOf? leaf
    obtain ⟨k', stands, total_eq⟩ := stands_of_deliver put (c.within_read paren ne')
      fun φ _ => Node.total_leaf φ noParentheses
    refine ⟨k', stands, fun φ g => ?_⟩
    rw [total_eq, Node.total_leaf φ noParentheses, Nat.add_zero]
  case callee text _ _ _  => exact ⟨0, .callee rfl ⟨text, rfl⟩, fun φ g => rfl⟩
  case declaration        =>
    refine ⟨0, .naming, fun φ g => ?_⟩
    simp [State.total, Frame.total]
  case negation           =>
    refine ⟨0, .operator (c.within_read (by simp) ne'), fun φ g => ?_⟩
    simp [State.total, Frame.total]
  case operator op start stop lhs s _ left _ =>
    obtain ⟨awaited, stack, program⟩ := s
    obtain rfl : awaited = .anything := left.awaited_eq
    refine ⟨0, .operator (c.within_read (by simp) ne'), fun φ g => ?_⟩
    rw [← left.total_eq φ g]
    simp [State.total, State.push, Frame.total]
    omega
  case counter op start _ lhs s left _ _ put =>
    obtain ⟨awaited, stack, program⟩ := s
    obtain rfl : awaited = .anything := left.awaited_eq
    have noParentheses : op.kind.hasParentheses = false := by cases op <;> rfl
    obtain ⟨k', stands, total_eq⟩ := stands_of_deliver put (c.within_read (by simp) ne')
      fun φ isIdentifier => absurd isIdentifier op.kind_ne_identifier
    refine ⟨k', stands, fun φ g => ?_⟩
    rw [← left.total_eq φ g, total_eq, Node.total_of_no_parentheses φ noParentheses]
    simp [Node.after, Node.branches]
  case openBlock =>
    refine ⟨0, .block, fun φ g => ?_⟩
    simp [State.total, Frame.total, Frame.openBlock, Sequence.toList]
  case openBody =>
    refine ⟨0, .block, fun φ g => ?_⟩
    simp [State.total, Awaited.total, Frame.total, Frame.openBlock, Sequence.toList]
  case openGroup | openParameters | openAwaited =>
    refine ⟨0, .opened rfl, fun φ g => ?_⟩
    simp [State.total, Awaited.total, Frame.total, Frame.openList]
  case separator => exact absurd rfl ne'
  case close ready closing =>
    cases closing
    case list  => exact absurd rfl ne
    case comma => exact absurd rfl ne'
    case block close =>
      rcases ready with rfl | rfl
      case inl => exact stands_of_closeBlock close (c.within_read (by simp) ne')
      case inr => cases hs

-- The comma after an entry, which may be a parameter that is finished already.
theorem Transition.stands_comma {l : Lexeme} {k : Nat} (h : Transition s l t) (hs : Stands c s k)
    (isComma : l.token = .comma) :
    Stands (c.read l.token) t 0 ∧ c.fresh = false ∧
      ∀ φ g, t.total φ g + g * k = s.total φ g + g := by
  cases h <;> try contradiction
  case leaf leaf _ =>
    cases isComma
    cases leaf
  case separator =>
    cases hs
    case separator within =>
      refine ⟨.parted rfl, within.fresh, fun φ g => ?_⟩
      simp [State.total, Awaited.total]
  case close ready closing =>
    cases closing <;> try contradiction
    case comma finish =>
      rcases ready with rfl | rfl
      case inr => cases hs
      case inl =>
        cases hs
        case entry within =>
          refine ⟨.parted rfl, within.fresh, fun φ g => ?_⟩
          simp [State.total, Frame.total, eq_of_finishEntry finish, Nat.mul_succ]
          omega

-- The parenthesis after some entries: the `m` of them are worth something now, where the `n` that
-- were finished have counted before.
theorem Transition.stands_closeParen {l : Lexeme} {k : Nat} (h : Transition s l t)
    (hs : Stands c s k) (closes : l.token = .closeParen) :
    ∃ k' m n, Stands (c.read l.token) t k' ∧
      (∀ φ g, t.total φ g + g * n = s.total φ g + φ m + g * k') ∧
      (m - 1 + k + if c.last = some .comma then 1 else 0) = n ∧ (c.last = some .comma → 0 < m) := by
  cases h <;> try contradiction
  case leaf leaf _ =>
    cases closes
    cases leaf
  case close ready closing =>
    cases closing <;> try contradiction
    case list entries entry budget full finish close =>
      obtain ⟨k', stands, total_eq⟩ :=
        stands_of_closeList close (c.within_read (t := .closeParen) (by simp) (by simp))
      refine ⟨k', full.length, entries.length, stands, fun φ g => ?worth, ?count⟩
      case worth =>
        have sum := congrArg (worthOf φ) finish.flatten_eq
        rw [total_eq]
        rcases ready with rfl | rfl <;>
          simp [State.total, Awaited.total, Frame.total] at sum ⊢ <;> omega
      case count =>
        cases finish
        case none =>
          rcases ready with rfl | rfl <;> cases hs
          case inl.opened last           => simp [last]
          case inl.parted last           => simp [last]
          case inl.ended comma           => simp [comma]
          case inr.separator within      => simp [within.comma]
        case entry =>
          rcases ready with rfl | rfl <;> cases hs
          case inl.entry within          => simp [within.comma]

-- The entries that the parser has finished, and the commas and ends of lines that part them.
structure Balanced (c : Census) (s : State) : Prop where
  scopes      : c.scopes = s.scopes
  law         : ∃ k, Stands c s k ∧ s.total (· - 1) 1 + c.trailing = c.commas + c.breaks + k
  trailing_le : c.trailing ≤ s.total (min 1) 0

theorem Transition.balanced {l : Lexeme} (h : Transition s l t) (hs : Balanced c s) :
    Balanced (c.read l.token) t := by
  obtain ⟨scopes, ⟨k, stands, law⟩, trailing_le⟩ := hs
  have scopes' : (c.read l.token).scopes = t.scopes := by
    rw [h.scopes_eq, ← scopes, Census.read]
  by_cases closes : l.token = .closeParen
  case pos =>
    obtain ⟨k', m, n, stands', total_eq, count, entries⟩ := h.stands_closeParen stands closes
    have law' := total_eq (· - 1) 1
    have trailing' := total_eq (min 1) 0
    refine ⟨scopes', ⟨k', stands', ?_⟩, ?_⟩
    · simp [Census.read, Census.breaksBefore, closes]
      omega
    · simp [Census.read, closes]
      split
      case isTrue last =>
        have := entries last
        omega
      case isFalse => omega
  case neg =>
    by_cases isComma : l.token = .comma
    case pos =>
      obtain ⟨stands', fresh, total_eq⟩ := h.stands_comma stands isComma
      have law' := total_eq (· - 1) 1
      have trailing' := total_eq (min 1) 0
      refine ⟨scopes', ⟨0, stands', ?_⟩, ?_⟩
      · simp [Census.read, Census.breaksBefore, isComma, fresh]
        omega
      · simp [Census.read, isComma]
        omega
    case neg =>
      have free := h.awaited_ne_separator stands closes isComma
      obtain ⟨k', stands', total_eq⟩ := h.stands stands closes isComma
      have law' := total_eq (· - 1) 1
      have trailing' := total_eq (min 1) 0
      have breaks := stands.breaksBefore scopes free closes
      refine ⟨scopes', ⟨k', stands', ?_⟩, ?_⟩
      · simp [Census.read, closes, isComma]
        omega
      · simp [Census.read, closes]
        omega

theorem Settles.balanced (h : Settles s t) (hs : Balanced c s) : Balanced c t := by
  obtain ⟨scopes, ⟨k, stands, law⟩, trailing_le⟩ := hs
  obtain ⟨rfl, k', stands', total_eq⟩ := h.stands stands
  have law' := total_eq (· - 1) 1
  have trailing' := total_eq (min 1) 0
  exact ⟨scopes.trans h.scopes_eq.symm, ⟨k', stands', by omega⟩, by omega⟩

theorem balanced_of_step {l : Lexeme} (h : s.step l = .ok t) (hs : Balanced c s) :
    Balanced (c.read l.token) t := by
  obtain ⟨u, settled, hu⟩ := transition_of_step h
  rcases settled with rfl | ⟨settled, _⟩
  · exact hu.balanced hs
  · exact hu.balanced (settled.balanced hs)

theorem LineBreak.stands {k : Nat} (h : LineBreak s t) (hs : Stands c s k)
    (free : c.fresh = false → ∀ text, c.last ≠ some (.name text true)) :
    ∃ k', Stands c.enter t k' ∧ ∀ φ g, t.total φ g + g * k = s.total φ g + g * k' := by
  cases h
  case program =>
    cases hs
    exact ⟨0, .program, fun φ g => by simp [State.total, Sequence.toList_settle]⟩
  case entry finish =>
    cases hs
    case entry within =>
      refine ⟨1, .ended rfl within.paren within.comma, fun φ g => ?_⟩
      simp [State.total, Frame.total, eq_of_finishEntry finish, Nat.mul_succ]
      omega
  case noEntry =>
    cases hs
    case opened last       => exact ⟨0, .opened last, fun φ g => rfl⟩
    case parted last       => exact ⟨0, .parted last, fun φ g => rfl⟩
    case ended paren comma => exact ⟨1, .ended rfl paren comma, fun φ g => rfl⟩
  case block =>
    cases hs
    exact ⟨0, .block, fun φ g => by simp [State.total, Frame.total, Sequence.toList_settle]⟩
  case separator =>
    cases hs
    case separator within => exact ⟨1, .ended rfl within.paren within.comma, fun φ g => rfl⟩
  case parenthesis =>
    cases hs
    case callee fresh called =>
      obtain ⟨text, last⟩ := called
      exact absurd last (free fresh text)
    case signature => exact ⟨0, .signature, fun φ g => rfl⟩
  case brace =>
    cases hs
    exact ⟨0, .brace, fun φ g => rfl⟩

theorem LineBreak.balanced (h : LineBreak s t) (hs : Balanced c s)
    (free : c.fresh = false → ∀ text, c.last ≠ some (.name text true)) :
    Balanced c.enter t := by
  obtain ⟨scopes, ⟨k, stands, law⟩, trailing_le⟩ := hs
  obtain ⟨k', stands', total_eq⟩ := h.stands stands free
  have law' := total_eq (· - 1) 1
  have trailing' := total_eq (min 1) 0
  refine ⟨scopes.trans h.scopes_eq.symm, ⟨k', stands', ?_⟩, ?_⟩
  · simp only [Census.enter]
    omega
  · simp only [Census.enter]
    omega

theorem balanced_of_endLine {stop : Location} (h : s.endLine stop = .ok t) (hs : Balanced c s)
    (free : c.fresh = false → ∀ text, c.last ≠ some (.name text true)) :
    Balanced c.enter t := by
  obtain ⟨u, settled, hu⟩ := lineBreak_of_endLine h
  rcases settled with rfl | settled
  · exact hu.balanced hs free
  · exact hu.balanced (settled.balanced hs) free

theorem balanced_of_readLine {l : SourceLine} (h : s.readLine l = .ok t)
    (hs : Balanced c.enter s) : Balanced (c.readLine l).enter t := by
  obtain ⟨u, hu, h⟩ := bind_eq_ok_iff.mp h
  have line : Balanced (c.readLine l) u := by
    refine @foldlM_induction _ _ _ _
      (fun done s => Balanced (done.foldl (fun c x => c.read x.token) c.enter) s)
      l.lexemes [] _ _ (fun done s x t _ hs ht => ?_) hs hu
    rw [List.foldl_append]
    exact balanced_of_step ht hs
  exact balanced_of_endLine h line (c.free_readLine l)

end State

-- What the nodes of a program that have parentheses are worth together.
theorem worthOf_children {root : Node} (h : root.IsProgram) (φ : Nat → Nat) :
    worthOf φ root.children = (root.lists.map (φ ·.params.length)).sum := by
  rw [← sum_worth, (h.descendants_perm.map _).sum_nat, sum_worth_filter, Node.lists]

theorem balanced_of_parse {text : String} {root : Node} (h : parse text = .ok root) :
    worthOf (· - 1) root.children + (census text).trailing =
        (census text).commas + (census text).breaks ∧
      (census text).trailing ≤ worthOf (min 1) root.children := by
  obtain ⟨s, read, closed, rfl⟩ := parse_eq_ok_iff.mp h
  have start : State.Balanced (Census.enter {}) {} := ⟨rfl, ⟨0, .program, rfl⟩, Nat.zero_le _⟩
  have balanced : State.Balanced (census text).enter s := by
    refine @foldlM_induction _ _ _ _
      (fun done s => State.Balanced (done.foldl Census.readLine {}).enter s)
      (keptLines text) [] _ _ (fun done s l t _ hs ht => ?_) start read
    rw [List.foldl_append]
    exact State.balanced_of_readLine ht hs
  obtain ⟨awaited, stack, program⟩ := s
  obtain ⟨rfl, rfl⟩ := (State.isSettled_of_readLines read).1.stack_eq_nil closed
  obtain ⟨_, ⟨k, stands, law⟩, trailing_le⟩ := balanced
  cases stands
  simpa [State.total, Awaited.total, State.root, Census.enter] using And.intro law trailing_le

-- Between two entries of a program stands a comma or the end of a line without one, and a comma
-- that does not stand there stands after the last entry. So there are never more commas than
-- entries, but there are enough of them only if the ends of lines do not outnumber the commas after
-- last entries.
theorem parse_parted {text : String} {root : Node} (h : parse text = .ok root) :
    (root.lists.map (·.params.length - 1)).sum + (census text).trailing =
        commas text + (census text).breaks ∧
      commas text ≤ (root.lists.map (·.params.length)).sum ∧
      ((root.lists.map (·.params.length - 1)).sum ≤ commas text ↔
        (census text).breaks ≤ (census text).trailing) := by
  obtain ⟨law, trailing_le⟩ := balanced_of_parse h
  rw [worthOf_children (isProgram_of_parse h)] at law trailing_le
  rw [commas_census] at law
  have sum (ns : List Node) : (ns.map (·.params.length - 1)).sum +
      (ns.map (min 1 ·.params.length)).sum = (ns.map (·.params.length)).sum := by
    induction ns
    case nil => rfl
    case cons n ns hi =>
      simp only [List.map_cons, List.sum_cons]
      omega
  have entries := sum root.lists
  exact ⟨law, by omega, by omega⟩

theorem parse_parted_lines :
    ∃ root, parse "(a\nb, c,)" = .ok root ∧
      (root.lists.map (·.params.length - 1)).sum + (census "(a\nb, c,)").trailing =
          commas "(a\nb, c,)" + (census "(a\nb, c,)").breaks ∧
        commas "(a\nb, c,)" ≤ (root.lists.map (·.params.length)).sum ∧
        ((root.lists.map (·.params.length - 1)).sum ≤ commas "(a\nb, c,)" ↔
          (census "(a\nb, c,)").breaks ≤ (census "(a\nb, c,)").trailing) := by
  let name (text : String) (place : Location) : Node := .leaf .identifier text place
  let group : Node :=
    { kind := .group
      params := [[name "a" ⟨1, 2⟩], [name "b" ⟨2, 1⟩], [name "c" ⟨2, 4⟩]]
      location := ⟨1, 1⟩ }
  have h : parse "(a\nb, c,)" = .ok { kind := .root, children := [group], location := ⟨1, 1⟩ } :=
    rfl
  exact ⟨_, h, parse_parted h⟩

-- There need not be a comma where a line ends.
theorem not_parted_by_commas : ¬∀ (text : String) (root : Node), parse text = .ok root →
    (root.lists.map (·.params.length - 1)).sum ≤ commas text := by
  intro parted
  let name (text : String) (place : Location) : Node := .leaf .identifier text place
  let group : Node :=
    { kind := .group, params := [[name "a" ⟨1, 2⟩], [name "b" ⟨2, 1⟩]], location := ⟨1, 1⟩ }
  have h : parse "(a\nb)" = .ok { kind := .root, children := [group], location := ⟨1, 1⟩ } := rfl
  have le := parted _ _ h
  obtain ⟨law, _⟩ := balanced_of_parse h
  rw [worthOf_children (isProgram_of_parse h), commas_census] at law
  have counts : commas "(a\nb)" = 0 ∧ (census "(a\nb)").breaks = 1 ∧
      (census "(a\nb)").trailing = 0 := by
    decide
  omega

end Parser
end WispSyntax

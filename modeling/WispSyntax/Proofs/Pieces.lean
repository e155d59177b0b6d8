import Mathlib.Data.List.Forall2
import WispSyntax.Proofs.Shape

/-!
The tokens that a tree consists of. What the parser holds at any time consists of exactly the
tokens that it has read, in their order, but for the commas: `Covers` is kept by every token and
every end of a line.
-/

namespace WispSyntax

-- A token of a tree. The tree keeps the place of one token for each node.
structure Piece where
  token : Token
  place : Option Location

-- The pieces of a tree do not tell a called name from one that is not, unless it makes a call.
structure Piece.Matches (p : Piece) (l : Lexeme) : Prop where
  token : l.token = p.token ∨ ∃ text, p.token = .name text false ∧ l.token = .name text true
  place : ∀ place ∈ p.place, l.start = place

theorem Piece.Matches.token_eq {p : Piece} {l : Lexeme} (h : p.Matches l)
    (ne : ∀ text, p.token ≠ .name text false) : l.token = p.token :=
  h.token.elim id fun ⟨text, eq, _⟩ => absurd eq (ne text)

-- The pieces are the tokens of a text, in their order.
def Covers (pieces : List Piece) (lexemes : List Lexeme) : Prop :=
  List.Forall₂ Piece.Matches pieces lexemes

-- The token in the place of a node of the kind, if the parser builds nodes of that kind at all.
def Kind.token? (value : String) : Kind → Option Token
  | add               => some (.operator (.math .add))
  | subtract          => some (.operator (.math .subtract))
  | multiply          => some (.operator (.math .multiply))
  | divide            => some (.operator (.math .divide))
  | modulo            => some (.operator (.math .modulo))
  | power             => some (.operator (.math .power))
  | bitAnd            => some (.operator (.math .bitAnd))
  | bitOr             => some (.operator (.math .bitOr))
  | bitXor            => some (.operator (.math .bitXor))
  | shiftLeft         => some (.operator (.math .shiftLeft))
  | shiftRight        => some (.operator (.math .shiftRight))
  | assignment        => some (.operator (.relation .assign))
  | equal             => some (.operator (.relation .equal))
  | less              => some (.operator (.relation .less))
  | lessEq            => some (.operator (.relation .lessEq))
  | greater           => some (.operator (.relation .greater))
  | greaterEq         => some (.operator (.relation .greaterEq))
  | notEqual          => some (.operator .notEqual)
  | not               => some (.operator .not)
  | typeOf | typeCast => some (.operator .cast)
  | increment         => some (.counter .increment)
  | decrement         => some (.counter .decrement)
  | integer           => some (.number .integer value)
  | float             => some (.number .float value)
  | binary            => some (.number (.marked .binary) value)
  | hexadecimal       => some (.number (.marked .hexadecimal) value)
  | string            => some (.string value)
  | identifier        => some (.name value false)
  | truth             => some (.constant .truth)
  | falsehood         => some (.constant .falsehood)
  | nil               => some (.constant .nil)
  | function          => some .function
  | call              => some (.name value true)
  | group             => some .openParen
  | block             => some .openBrace
  | _                 => none

namespace Kind

variable {value : String}

@[simp]
theorem token?_operator (op : Operator) : op.kind.token? value = some (.operator op) := by
  rcases op with ⟨⟨⟩⟩ | ⟨⟨⟩⟩ | _ | _ | _ <;> rfl

@[simp]
theorem token?_counter (c : Counter) : c.kind.token? value = some (.counter c) := by
  cases c <;> rfl

@[simp]
theorem token?_number (form : NumberForm) : form.kind.token? value = some (.number form value) := by
  rcases form with _ | _ | ⟨⟨⟩⟩ <;> rfl

@[simp]
theorem token?_constant (c : Constant) : c.kind.token? value = some (.constant c) := by
  cases c <;> rfl

theorem not_isMistake_of_token? {k : Kind} {t : Token} (h : k.token? value = some t) :
    ¬t.isMistake := by
  cases k <;> cases h <;> exact Bool.false_ne_true

theorem eq_string_of_token? {k : Kind} {text : String} (h : k.token? value = some (.string text)) :
    k = .string := by
  cases k <;> cases h
  rfl

-- The tokens that stand between the token of a node and its parameters or its children.
def opening (value : String) : Kind → List Token
  | function => [.name value false, .openParen]
  | call     => [.openParen]
  | _        => []

-- Those between the parameters and the children.
def middle : Kind → List Token
  | function => [.closeParen, .openBrace]
  | _        => []

def closing : Kind → List Token
  | function | block => [.closeBrace]
  | call | group     => [.closeParen]
  | _                => []

end Kind

-- Tokens whose places are not kept.
def unplaced (tokens : List Token) : List Piece :=
  tokens.map ({ token := ·, place := none })

namespace Node

-- The token in the place of a node.
def mark (n : Node) : List Piece :=
  (n.kind.token? n.value).toList.map ({ token := ·, place := n.location })

def pieces : Node → List Piece :=
  weave (fun n => n.mark ++ unplaced (n.kind.opening n.value)) (fun n => unplaced n.kind.middle)
    (fun n => unplaced n.kind.closing)

theorem pieces_eq (n : Node) :
    n.pieces = n.lhs.toList.flatMap pieces ++ (n.mark ++ unplaced (n.kind.opening n.value)) ++
      n.rhs.toList.flatMap pieces ++ n.alt.toList.flatMap pieces ++
      n.params.flatten.flatMap pieces ++ unplaced n.kind.middle ++ n.children.flatMap pieces ++
      unplaced n.kind.closing := by
  rw [pieces, weave_eq]

end Node

namespace Covers

variable {ps qs : List Piece} {xs ys : List Lexeme}

theorem append (h : Covers ps xs) (h' : Covers qs ys) : Covers (ps ++ qs) (xs ++ ys) :=
  List.rel_append h h'

theorem snoc {p : Piece} {x : Lexeme} (h : Covers ps xs) (hp : p.Matches x) :
    Covers (ps ++ [p]) (xs ++ [x]) :=
  h.append (.cons hp .nil)

-- A place may be forgotten.
theorem unplace {token : Token} {place : Option Location}
    (h : Covers (ps ++ [⟨token, place⟩]) xs) : Covers (ps ++ unplaced [token]) xs := by
  induction ps generalizing xs
  case nil =>
    cases h
    case cons hp rest =>
      cases rest
      exact .cons ⟨hp.token, by simp⟩ .nil
  case cons p ps hi =>
    cases h
    case cons hp rest => exact .cons hp (hi rest)

-- What a property of tokens tells of the pieces it tells of the text, if commas do not matter to it
-- and neither do calls to the token of a name.
theorem flatMap_eq {α : Type} {f : Token → List α} (comma : f .comma = [])
    (called : ∀ text, f (.name text true) = f (.name text false))
    (h : Covers ps (xs.filter (·.token ≠ .comma))) :
    ps.flatMap (f ·.token) = xs.flatMap (f ·.token) := by
  induction xs generalizing ps
  case nil =>
    cases h
    rfl
  case cons x xs hi =>
    rw [List.filter_cons] at h
    split at h
    case isTrue =>
      cases h
      case cons p ps here rest =>
        have eq : f p.token = f x.token := by
          rcases here.token with eq | ⟨text, eq, eq'⟩
          · rw [eq]
          · rw [eq, eq', called]
        rw [List.flatMap_cons, List.flatMap_cons, hi rest, eq]
    case isFalse isComma =>
      have isComma : x.token = .comma := by simpa using isComma
      rw [List.flatMap_cons, isComma, comma, hi h, List.nil_append]

end Covers

namespace Parser

-- The pieces before the parenthesis that opens a list.
def Opening.pieces (place : Location) : Opening → List Piece
  | group | parameters => []
  | call name          => [{ token := .name name true, place }]
  | signature name     => { token := .function, place } :: unplaced [.name name false]

-- Only a group is in the place of its parenthesis.
def Opening.parenthesis (place : Location) : Opening → Piece
  | group | parameters   => { token := .openParen, place }
  | call _ | signature _ => { token := .openParen, place := none }

def Header.pieces (h : Header) : List Piece :=
  (Opening.signature h.name).pieces h.place ++ unplaced [.openParen] ++
    h.params.flatten.flatMap Node.pieces ++ unplaced [.closeParen]

namespace Frame

def pieces : Frame → List Piece
  | operator op lhs place               =>
    lhs.toList.flatMap Node.pieces ++ [{ token := .operator op, place }]
  | naming place                        => [{ token := .function, place }]
  | list opening place entries entry _  =>
    opening.pieces place ++ [opening.parenthesis place] ++
      entries.reverse.flatten.flatMap Node.pieces ++ entry.reverse.flatMap Node.pieces
  | block none place content            =>
    { token := .openBrace, place } :: content.toList.flatMap Node.pieces
  | block (some header) _ content       =>
    header.pieces ++ unplaced [.openBrace] ++ content.toList.flatMap Node.pieces

end Frame

def Awaited.pieces : Awaited → List Piece
  | anything | separator      => []
  | parenthesis opening place => opening.pieces place
  | brace header              => header.pieces

namespace State

def pieces (s : State) : List Piece :=
  s.program.toList.flatMap Node.pieces ++ s.stack.reverse.flatMap Frame.pieces ++
    s.awaited.pieces

section
variable {awaited : Awaited} {f : Frame} {stack : List Frame} {program : Sequence}

theorem pieces_cons : pieces ⟨awaited, f :: stack, program⟩ =
    pieces ⟨.anything, stack, program⟩ ++ f.pieces ++ awaited.pieces := by
  simp [pieces, Awaited.pieces]

theorem pieces_await : pieces ⟨awaited, stack, program⟩ =
    pieces ⟨.anything, stack, program⟩ ++ awaited.pieces := by
  simp [pieces, Awaited.pieces]

end

theorem pieces_combine (op : Operator) (lhs : Option Node) (n : Node) (place : Location) :
    (combine op lhs n place).pieces =
      lhs.toList.flatMap Node.pieces ++ [{ token := .operator op, place }] ++ n.pieces := by
  rw [Node.pieces_eq]
  have ordinary : op.kind.opening "" = [] ∧ op.kind.middle = [] ∧ op.kind.closing = [] := by
    rcases op with ⟨⟨⟩⟩ | ⟨⟨⟩⟩ | _ | _ | _ <;> exact ⟨rfl, rfl, rfl⟩
  simp [combine, Node.mark, ordinary, unplaced]

-- An identifier is nothing but its name.
def IsPlain (n : Node) : Prop :=
  n.kind = .identifier → n.pieces = [{ token := .name n.value false, place := n.location }]

theorem covers_of_deliver {program : Sequence} {n : Node} {stack : List Frame} {t : State}
    {xs : List Lexeme} (h : deliver program n stack = .ok t) (plain : IsPlain n)
    (hc : Covers (pieces ⟨.anything, stack, program⟩ ++ n.pieces) xs) : Covers t.pieces xs := by
  fun_induction deliver program n stack
  case case1 =>
    cases h
    simpa [pieces, Awaited.pieces, Sequence.toList_push] using hc
  case case2 n op lhs place stack accepts hi =>
    refine hi h ?_ ?_
    · intro isIdentifier
      rcases op with ⟨⟨⟩⟩ | ⟨⟨⟩⟩ | _ | _ | _ <;> cases isIdentifier
    · rw [pieces_combine]
      simpa [pieces_cons, Frame.pieces, Awaited.pieces] using hc
  case case3 => contradiction
  case case4 n place stack isIdentifier =>
    cases h
    rw [plain isIdentifier] at hc
    rw [pieces_await]
    simpa [pieces_cons, Awaited.pieces, Frame.pieces, Opening.pieces] using hc.unplace
  case case5 => contradiction
  case case6 n opening place entries entry budget stack spent =>
    obtain ⟨full, hf, h⟩ := bind_eq_ok_iff.mp h
    cases h
    rw [eq_of_finishEntry hf]
    simpa [pieces_cons, Frame.pieces, Awaited.pieces] using hc
  case case7 =>
    cases h
    simpa [pieces_cons, Frame.pieces, Awaited.pieces] using hc
  case case8 header place content stack =>
    cases h
    cases header <;>
      simpa [pieces_cons, Frame.pieces, Awaited.pieces, Sequence.toList_push] using hc

theorem isPlain_of_ne {n : Node} (ne : n.kind ≠ .identifier) : IsPlain n :=
  fun h => absurd h ne

theorem Settles.covers {s t : State} {xs : List Lexeme} (h : Settles s t)
    (hc : Covers s.pieces xs) : Covers t.pieces xs := by
  cases h
  case query put =>
    refine covers_of_deliver put (isPlain_of_ne (by simp)) ?_
    simpa [pieces_cons, Frame.pieces, Awaited.pieces, Node.pieces_eq, Node.mark, Kind.token?,
      Kind.opening, Kind.middle, Kind.closing, unplaced] using hc

section
variable {program : Sequence} {stack : List Frame} {t : State} {xs : List Lexeme}

theorem covers_of_closeList {opening : Opening} {place : Location} {entries : List (List Node)}
    (h : closeList ⟨.anything, stack, program⟩ opening place entries = .ok t)
    (hc : Covers (pieces ⟨.anything, stack, program⟩ ++ (opening.pieces place ++
      [opening.parenthesis place] ++ entries.reverse.flatten.flatMap Node.pieces ++
        unplaced [.closeParen])) xs) : Covers t.pieces xs := by
  cases opening
  case group | parameters | call =>
    refine covers_of_deliver h (isPlain_of_ne (by simp)) ?_
    simpa [Node.pieces_eq, Node.mark, Kind.token?, Kind.opening, Kind.middle, Kind.closing,
      unplaced, Opening.pieces, Opening.parenthesis] using hc
  case signature =>
    cases h
    rw [await, pieces_await]
    simpa [Awaited.pieces, Header.pieces, Opening.parenthesis, unplaced] using hc

theorem covers_of_closeBlock {header : Option Header} {place : Location} {content : Sequence}
    (h : closeBlock ⟨.anything, stack, program⟩ header place content = .ok t)
    (hc : Covers (pieces ⟨.anything, stack, program⟩ ++
      (Frame.pieces (.block header place content) ++ unplaced [.closeBrace])) xs) :
    Covers t.pieces xs := by
  cases header
  all_goals
    refine covers_of_deliver h (isPlain_of_ne (by simp)) ?_
    simpa [Node.pieces_eq, Node.mark, Kind.token?, Kind.opening, Kind.middle, Kind.closing,
      unplaced, Frame.pieces, Header.pieces, Opening.pieces] using hc

theorem Closing.covers {l : Lexeme} (h : Closing program stack l.token t)
    (hc : Covers (pieces ⟨.anything, stack, program⟩) xs) :
    Covers t.pieces (xs ++ [l].filter (·.token ≠ .comma)) := by
  obtain ⟨token, start, stop⟩ := l
  have same : Piece.Matches ⟨token, none⟩ ⟨token, start, stop⟩ := ⟨.inl rfl, by simp⟩
  cases h
  case list finish close =>
    refine covers_of_closeList close ?_
    rw [finish.flatten_eq]
    simpa [pieces_cons, Frame.pieces, Awaited.pieces, unplaced] using hc.snoc same
  case comma finish =>
    simpa [pieces_cons, Frame.pieces, Awaited.pieces, eq_of_finishEntry finish] using hc
  case block close =>
    refine covers_of_closeBlock close ?_
    simpa [pieces_cons, Awaited.pieces, unplaced] using hc.snoc same

theorem Takes.pieces_eq {n : Node} (h : Takes program stack n t) :
    pieces ⟨.anything, stack, program⟩ = t.pieces ++ n.pieces := by
  cases h
  case block header _ _ _ =>
    cases header <;>
      simp [pieces_cons, Frame.pieces, Awaited.pieces, Sequence.toList]
  all_goals
    simp [pieces, Frame.pieces, Awaited.pieces, Sequence.toList]

end

theorem pieces_leaf {token : Token} {kind : Kind} {value : String} (start stop : Location)
    (h : leafOf? token = some (kind, value)) :
    IsPlain (.leaf kind value start) ∧ ∃ p, (Node.leaf kind value start).pieces = [p] ∧
      p.Matches ⟨token, start, stop⟩ := by
  have same : Piece.Matches ⟨token, some start⟩ ⟨token, start, stop⟩ := ⟨.inl rfl, by simp⟩
  cases token
  case name called =>
    cases h
    refine ⟨fun _ => rfl, ⟨.name value false, start⟩, rfl, ?_, by simp⟩
    cases called
    case false => exact .inl rfl
    case true  => exact .inr ⟨value, rfl, rfl⟩
  case constant c =>
    cases h
    refine ⟨isPlain_of_ne (by cases c <;> simp [Node.leaf, Constant.kind]), _, ?_, same⟩
    cases c <;> rfl
  case number form text =>
    cases h
    refine ⟨isPlain_of_ne (by
      rcases form with _ | _ | ⟨⟨⟩⟩ <;> simp [Node.leaf, NumberForm.kind, Radix.kind]), _, ?_, same⟩
    rcases form with _ | _ | ⟨⟨⟩⟩ <;> rfl
  case string text =>
    cases h
    exact ⟨isPlain_of_ne (by simp [Node.leaf]), _, rfl, same⟩
  all_goals cases h

theorem Transition.covers {s t : State} {l : Lexeme} {xs : List Lexeme} (h : Transition s l t)
    (hs : s.WellFormed) (hc : Covers s.pieces xs) :
    Covers t.pieces (xs ++ [l].filter (·.token ≠ .comma)) := by
  have placed : Piece.Matches ⟨l.token, some l.start⟩ l := ⟨.inl rfl, by simp⟩
  have somewhere : Piece.Matches ⟨l.token, none⟩ l := ⟨.inl rfl, by simp⟩
  cases h
  case leaf token start stop kind value leaf put =>
    obtain ⟨plain, p, pieces_eq, same⟩ := pieces_leaf start stop leaf
    have ne : token ≠ .comma := by rintro rfl; cases leaf
    refine covers_of_deliver put plain ?_
    simpa [pieces_eq, ne] using hc.snoc same
  case callee outside =>
    rw [pieces_await]
    simpa [Awaited.pieces, Opening.pieces] using hc.snoc placed
  case declaration | negation =>
    simpa [pieces_cons, Frame.pieces, Awaited.pieces] using hc.snoc placed
  case operator s _ left _ =>
    rw [left.pieces_eq] at hc
    cases left <;>
      simpa [push, pieces_cons, Frame.pieces, Awaited.pieces] using hc.snoc placed
  case counter c start stop lhs s left _ _ put =>
    have ne : c.kind ≠ .identifier := by cases c <;> simp [Counter.kind]
    refine covers_of_deliver put (isPlain_of_ne ne) ?_
    rw [left.pieces_eq] at hc
    have anything : s.awaited = .anything := by cases left <;> rfl
    have ordinary : c.kind.opening "" = [] ∧ c.kind.middle = [] ∧ c.kind.closing = [] := by
      cases c <;> exact ⟨rfl, rfl, rfl⟩
    rw [Node.pieces_eq]
    simpa [Node.after, Node.mark, unplaced, ordinary, ← anything] using hc.snoc placed
  case openBlock =>
    simpa [Frame.openBlock, Sequence.toList, pieces_cons, Frame.pieces, Awaited.pieces]
      using hc.snoc placed
  case openBody =>
    rw [pieces_await] at hc
    simpa [Frame.openBlock, Sequence.toList, pieces_cons, Frame.pieces, Awaited.pieces, unplaced]
      using hc.snoc somewhere
  case openGroup | openParameters =>
    simpa [Frame.openList, pieces_cons, Frame.pieces, Awaited.pieces, Opening.pieces,
      Opening.parenthesis] using hc.snoc placed
  case openAwaited opening place _ _ =>
    rw [pieces_await] at hc
    have noPlace : opening.parenthesis place = ⟨.openParen, none⟩ := by
      obtain ⟨_, hasName, _⟩ := hs.awaited
      cases opening <;> first | rfl | cases hasName
    simpa [Frame.openList, pieces_cons, Frame.pieces, Awaited.pieces, noPlace]
      using hc.snoc somewhere
  case separator => simpa [pieces, Awaited.pieces] using hc
  case close ready closing =>
    refine closing.covers ?_
    rcases ready with rfl | rfl <;> exact hc

theorem covers_of_step {s t : State} {l : Lexeme} {xs : List Lexeme} (h : s.step l = .ok t)
    (hs : s.WellFormed) (hc : Covers s.pieces xs) :
    Covers t.pieces (xs ++ [l].filter (·.token ≠ .comma)) := by
  obtain ⟨u, settled, hu⟩ := transition_of_step h
  rcases settled with rfl | ⟨settled, _⟩
  · exact hu.covers hs hc
  · exact hu.covers (settled.wellFormed hs) (settled.covers hc)

theorem LineBreak.covers {s t : State} {xs : List Lexeme} (h : LineBreak s t)
    (hc : Covers s.pieces xs) : Covers t.pieces xs := by
  cases h
  case program => simpa [pieces, Sequence.toList_settle] using hc
  case entry finish =>
    simpa [pieces_cons, Frame.pieces, Awaited.pieces, eq_of_finishEntry finish] using hc
  case block header _ _ =>
    cases header <;>
      simpa [pieces_cons, Frame.pieces, Awaited.pieces, Sequence.toList_settle] using hc
  case separator => simpa [pieces, Awaited.pieces] using hc
  case noEntry | parenthesis | brace => exact hc

theorem covers_of_endLine {s t : State} {stop : Location} {xs : List Lexeme}
    (h : s.endLine stop = .ok t) (hc : Covers s.pieces xs) : Covers t.pieces xs := by
  obtain ⟨u, settled, hu⟩ := lineBreak_of_endLine h
  rcases settled with rfl | settled
  · exact hu.covers hc
  · exact hu.covers (settled.covers hc)

end State

-- The tokens of an accepted text are the pieces of its tree and commas.
theorem covers_of_parse {text : String} {root : Node} (h : parse text = .ok root) :
    Covers (root.children.flatMap Node.pieces)
      (((keptLines text).flatMap SourceLine.lexemes).filter (·.token ≠ .comma)) := by
  let P (done : List Lexeme) (s : State) :=
    (s.WellFormed ∧ Continues s.stack) ∧ Covers s.pieces (done.filter (·.token ≠ .comma))
  have start : P [] {} := ⟨⟨⟨List.forall_mem_nil _, trivial, trivial⟩, trivial⟩, .nil⟩
  have ⟨s, ⟨_, hc⟩, anything, empty, root_eq⟩ := parse_induction (P := P) (Q := fun _ => P) start
    (fun _ _ _ _ hs => hs) ?_ ?_ h
  · subst root_eq
    simpa [State.root, State.pieces, anything, empty, Awaited.pieces] using hc
  · intro l hl x hx done s t ⟨⟨hs, continues⟩, hc⟩ ht
    refine ⟨State.wellFormed_of_step ht (spelt_of_mem_lexemes hl hx) hs continues, ?_⟩
    rw [List.filter_append]
    exact State.covers_of_step ht hs hc
  · intro l hl done s t ⟨⟨hs, _⟩, hc⟩ ht
    exact ⟨State.wellFormed_of_endLine ht hs, State.covers_of_endLine ht hc⟩

end Parser
end WispSyntax

import WispSyntax.Proofs.Alignment
import WispSyntax.Proofs.Pieces

/-!
The places of nodes. In the tree of an accepted text every node has the place where its own token
stands, and places increase from left to right.
-/

namespace WispSyntax

-- How a token is written, a string in double quotes. Mistakes are not written at all.
def Token.text : Token → String
  | function     => "fn"
  | constant c   => c.word
  | name text _  => text
  | number _ text => text
  | string text  => "\"" ++ text ++ "\""
  | operator op  => op.symbol
  | counter c    => c.symbol
  | openBrace    => "\x7b"
  | closeBrace   => "\x7d"
  | openParen    => "("
  | closeParen   => ")"
  | comma        => ","
  | _            => ""

theorem Spelt.eq_text {t : Token} {spelling : List Char} (h : Spelt t spelling)
    (ne : ∀ text, t ≠ .string text) : spelling = t.text.toList := by
  cases h
  case word | digitName | number => simp [Token.text]
  case string                    => exact absurd rfl (ne _)
  all_goals rfl

theorem Spelt.eq_quoted {text : String} {spelling : List Char}
    (h : Spelt (.string text) spelling) : ∃ opening closing, Token.isQuote opening ∧
      Token.isQuote closing ∧ spelling = opening :: text.toList ++ [closing] := by
  generalize eq : Token.string text = t at h
  cases h <;> cases eq
  case string.refl opening closing _ ho hc => exact ⟨opening, closing, ho, hc, by simp⟩

namespace Node

-- How the beginning of a node is written: as its own token, which is a call's name together with
-- the parenthesis after it.
def IsSpelling (n : Node) (spelling : List Char) : Prop :=
  match n.kind with
  | .string =>
    ∃ opening closing, Token.isQuote opening ∧ Token.isQuote closing ∧
      spelling = opening :: n.value.toList ++ [closing]
  | .call   => spelling = n.value.toList ++ ['(']
  | k       => ∃ t, k.token? n.value = some t ∧ spelling = t.text.toList

-- The lexeme is the token in the place of the node.
def Marks (n : Node) (l : Lexeme) : Prop :=
  ∃ t, n.kind.token? n.value = some t ∧ Piece.Matches { token := t, place := n.location } l

theorem WellFormed.exists_token {n : Node} {nested : Bool} (h : n.WellFormed nested) :
    ∃ t, n.kind.token? n.value = some t := by
  cases h <;> simp [leaf, between, before, after] <;> exact ⟨_, rfl⟩

theorem Marks.not_isMistake {n : Node} {l : Lexeme} (h : n.Marks l) : ¬l.token.isMistake := by
  have ⟨t, token, same⟩ := h
  rcases same.token with eq | ⟨text, _, eq⟩ <;> rw [eq]
  · exact Kind.not_isMistake_of_token? token
  · exact nofun

theorem Marks.exists_isSpelling {n : Node} {l : Lexeme} {chars : List Char} {length : Nat}
    (h : n.Marks l) (stands : StandsIn l.token length chars) :
    ∃ spelling rest, chars = spelling ++ rest ∧ n.IsSpelling spelling := by
  have ⟨t, token, matches', _⟩ := h
  have same : l.token = t ∨ ∃ text, t = .name text false ∧ l.token = .name text true := matches'
  have ⟨spelling, rest, chars_eq, spelt, _, called⟩ := stands
  have eq_text (ne : n.kind ≠ .string) : spelling = t.text.toList := by
    rcases same with eq | ⟨text, eq, eq'⟩
    · rw [← eq]
      refine spelt.eq_text fun text isString => ne ?_
      rw [← eq, isString] at token
      exact Kind.eq_string_of_token? token
    · rw [eq]
      exact (spelt.eq_text (by simp [eq'])).trans (by simp [eq', Token.text])
  unfold IsSpelling
  split
  case h_1 isString =>
    rw [isString] at token
    cases token
    rcases same with eq | ⟨text, eq, _⟩
    · exact ⟨spelling, rest, chars_eq, (eq ▸ spelt).eq_quoted⟩
    · cases eq
  case h_2 isCall =>
    have ne : n.kind ≠ .string := by simp [isCall]
    rw [isCall] at token
    cases token
    rcases same with eq | ⟨text, eq, _⟩
    · have ⟨rest', rest_eq⟩ := List.head?_eq_some_iff.mp (called _ eq)
      exact ⟨_, rest', by simp [chars_eq, eq_text ne, rest_eq, Token.text], rfl⟩
    · cases eq
  case h_3 ne _ => exact ⟨spelling, rest, chars_eq, t, token, eq_text ne⟩

end Node

-- A piece of which the tree keeps the place, or nothing.
def Piece.placed (p : Piece) : List Piece :=
  if p.place.isSome then [p] else []

theorem placed_mark (n : Node) : n.mark.flatMap Piece.placed = n.mark := by
  unfold Node.mark
  cases n.kind.token? n.value <;> simp [Piece.placed]

theorem placed_unplaced (tokens : List Token) : (unplaced tokens).flatMap Piece.placed = [] := by
  simp [unplaced, Piece.placed]

-- The tree keeps the places of the tokens that its nodes stand for, and no others.
theorem placed_pieces (n : Node) : n.pieces.flatMap Piece.placed = n.inOrder.flatMap Node.mark := by
  rw [Node.pieces, Node.inOrder, Node.flatMap_weave, Node.flatMap_weave]
  simp only [List.flatMap_append, placed_mark, placed_unplaced, List.append_nil,
    List.flatMap_singleton, List.flatMap_nil]

theorem Covers.placed {ps : List Piece} {xs : List Lexeme} (h : Covers ps xs) :
    ∃ ys, ys.Sublist xs ∧ Covers (ps.flatMap Piece.placed) ys := by
  induction h
  case nil => exact ⟨[], .slnil, .nil⟩
  case cons p x ps xs same _ hi =>
    have ⟨ys, sub, hc⟩ := hi
    rw [List.flatMap_cons]
    cases isSome : p.place.isSome
    case false => exact ⟨ys, sub.cons x, by simpa [Piece.placed, isSome] using hc⟩
    case true =>
      exact ⟨x :: ys, sub.cons_cons x, by simpa [Piece.placed, isSome] using .cons same hc⟩

-- Each node with the lexeme of its own token.
theorem Covers.marks {ns : List Node} {xs : List Lexeme} (h : Covers (ns.flatMap Node.mark) xs)
    (tokens : ∀ n ∈ ns, ∃ t, n.kind.token? n.value = some t) : List.Forall₂ Node.Marks ns xs := by
  induction ns generalizing xs
  case nil =>
    cases h
    exact .nil
  case cons n ns hi =>
    have ⟨⟨t, token⟩, tokens⟩ := List.forall_mem_cons.mp tokens
    simp only [List.flatMap_cons, Node.mark, token, Option.toList_some, List.map_singleton,
      List.singleton_append] at h
    cases h
    case cons same rest => exact .cons ⟨t, token, same⟩ (hi rest tokens)

namespace Parser

variable {text : String} {root : Node}

theorem marks_of_parse (h : parse text = .ok root) :
    ∃ ys, ys.Sublist ((keptLines text).flatMap SourceLine.lexemes) ∧
      List.Forall₂ Node.Marks (root.children.flatMap Node.inOrder) ys := by
  have isProgram := isProgram_of_parse h
  have ⟨ys, sub, hc⟩ := (covers_of_parse h).placed
  refine ⟨ys, sub.trans List.filter_sublist, Covers.marks ?_ ?_⟩
  · simpa only [List.flatMap_assoc, placed_pieces] using hc
  · intro n hn
    have ⟨_, wf⟩ := isProgram.wellFormed n (isProgram.descendants_perm.mem_iff.mp hn)
    exact wf.exists_token

theorem textAt_of_marks {n : Node} {l : Lexeme} (h : n.Marks l)
    (hl : l ∈ (keptLines text).flatMap SourceLine.lexemes) :
    ∃ spelling rest, n.IsSpelling spelling ∧ TextAt text n.location (spelling ++ rest) := by
  have ⟨line, hline, hl⟩ := List.mem_flatMap.mp hl
  have ⟨chars, _, textAt, stands⟩ := standsIn_of_mem_lexemes hline hl h.not_isMistake
  obtain ⟨spelling, rest, rfl, isSpelling⟩ := h.exists_isSpelling stands
  have ⟨_, _, same⟩ := h
  rw [same.place _ rfl] at textAt
  exact ⟨spelling, rest, isSpelling, textAt⟩

theorem locations_of_marks {ns : List Node} {ys : List Lexeme} (h : List.Forall₂ Node.Marks ns ys) :
    ns.map Node.location = ys.map Lexeme.start := by
  induction h
  case nil => rfl
  case cons mark _ hi =>
    have ⟨_, _, same⟩ := mark
    rw [List.map_cons, List.map_cons, hi, same.place _ rfl]

theorem exists_marks {ns : List Node} {ys : List Lexeme} {n : Node}
    (h : List.Forall₂ Node.Marks ns ys) (hn : n ∈ ns) : ∃ l ∈ ys, n.Marks l := by
  induction h
  case nil => contradiction
  case cons l _ _ mark _ hi =>
    rcases List.mem_cons.mp hn with rfl | hn
    · exact ⟨l, .head _, mark⟩
    · have ⟨l, hl, mark⟩ := hi hn
      exact ⟨l, .tail _ hl, mark⟩

-- In the tree of an accepted text, every node has the place where its own token stands, places
-- increase from left to right, and a right operand begins on the line of its operator.
theorem parse_places (h : parse text = .ok root) :
    (∀ n ∈ root.descendants, ∃ spelling rest, n.IsSpelling spelling ∧
      TextAt text n.location (spelling ++ rest)) ∧
    (root.children.flatMap Node.inOrder).Perm root.descendants ∧
    (root.children.flatMap Node.inOrder).Pairwise (·.location.Precedes ·.location) ∧
    (root.descendants.map Node.location).Nodup ∧
    ∀ n ∈ root.descendants, ∀ r ∈ n.rhs, r.start.line = n.location.line := by
  have perm := (isProgram_of_parse h).descendants_perm
  have ⟨ys, sub, marks⟩ := marks_of_parse h
  have increasing : (root.children.flatMap Node.inOrder).Pairwise
      (·.location.Precedes ·.location) := by
    have starts := List.pairwise_map.mpr ((pairwise_lexemes text).sublist sub)
    rw [← locations_of_marks marks] at starts
    exact List.pairwise_map.mp starts
  refine ⟨?_, perm, increasing, ?_, ?_⟩
  · intro n hn
    have ⟨l, hl, mark⟩ := exists_marks marks (perm.mem_iff.mpr hn)
    exact textAt_of_marks mark (sub.subset hl)
  · refine (perm.map Node.location).nodup_iff.mp (List.pairwise_map.mpr ?_)
    exact increasing.imp Location.Precedes.ne
  · intro n hn
    have ⟨child, hc, hn⟩ := List.mem_flatMap.mp (perm.mem_iff.mpr hn)
    exact straight_of_parse h child hc n hn

theorem parse_places_sum :
    ∃ root, parse "// sum\nx + f(\n  1)" = .ok root ∧
    (∀ n ∈ root.descendants, ∃ spelling rest, n.IsSpelling spelling ∧
      TextAt "// sum\nx + f(\n  1)" n.location (spelling ++ rest)) ∧
    (root.children.flatMap Node.inOrder).Perm root.descendants ∧
    (root.children.flatMap Node.inOrder).Pairwise (·.location.Precedes ·.location) ∧
    (root.descendants.map Node.location).Nodup ∧
    ∀ n ∈ root.descendants, ∀ r ∈ n.rhs, r.start.line = n.location.line := by
  let call : Node :=
    { kind := .call, value := "f", params := [[.leaf .integer "1" ⟨3, 3⟩]], location := ⟨2, 5⟩ }
  let sum : Node := .between .add (.leaf .identifier "x" ⟨2, 1⟩) call ⟨2, 3⟩
  have h : parse "// sum\nx + f(\n  1)" =
      .ok { kind := .root, children := [sum], location := ⟨1, 1⟩ } := rfl
  exact ⟨_, h, parse_places h⟩

end Parser
end WispSyntax

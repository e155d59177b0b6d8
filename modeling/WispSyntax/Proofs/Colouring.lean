import Mathlib.Data.List.Nodup
import WispSyntax.Proofs.WordSpans
import WispSyntax.Viewer.SourcePane

/-!
The colours of a program. In an accepted text the highlighting agrees with the tree: its strings are
the string nodes, and the name of every call is a word of its own in the colour of functions
(`parse_coloured`).
-/

namespace WispSyntax
namespace Parser

theorem State.Transition.not_isMistake {s t : State} {l : Lexeme} (h : Transition s l t) :
    ¬l.token.isMistake := by
  cases h
  case leaf token _ _ _ _ leaf _ => cases token <;> cases leaf <;> exact nofun
  case close closing             => cases closing <;> exact nofun
  all_goals exact nofun

variable {text : String} {root : Node}

-- An accepted text holds no mistakes.
theorem not_isMistake_of_parse (h : parse text = .ok root) :
    ∀ x ∈ (keptLines text).flatMap SourceLine.lexemes, ¬x.token.isMistake := by
  have ⟨_, all, _⟩ := parse_induction (P := fun done _ => ∀ x ∈ done, ¬x.token.isMistake)
    (Q := fun _ done _ => ∀ x ∈ done, ¬x.token.isMistake) (List.forall_mem_nil _)
    (fun _ _ _ _ hs => hs) ?_ (fun _ _ _ _ _ hs _ => hs) h
  · exact all
  · intro _ _ x _ done s t hs ht
    have ⟨_, _, hu⟩ := State.transition_of_step ht
    exact List.forall_mem_append.mpr ⟨hs, List.forall_mem_singleton.mpr hu.not_isMistake⟩

end Parser

namespace Node

-- The strings among the tokens of a tree stand for its string nodes.
theorem strings_pieces (n : Node) :
    n.pieces.filter (·.token.isString) =
      (n.inOrder.filter (·.kind = .string)).flatMap mark := by
  have opening (m : Node) : (m.mark ++ unplaced (m.kind.opening m.value)).filter
      (·.token.isString) = ([m].filter (·.kind = .string)).flatMap mark := by
    obtain ⟨kind, _, _, _, _, _, _, _⟩ := m
    cases kind <;> rfl
  have middle (m : Node) : (unplaced m.kind.middle).filter (·.token.isString) = [] := by
    cases m.kind <;> rfl
  have closing (m : Node) : (unplaced m.kind.closing).filter (·.token.isString) = [] := by
    cases m.kind <;> rfl
  rw [pieces, inOrder, filter_weave, filter_weave, flatMap_weave]
  simp only [opening, middle, closing, List.filter_nil, List.flatMap_nil]

end Node

namespace Parser

variable {text : String} {root : Node}

theorem strings_of_parse (h : parse text = .ok root) :
    List.Forall₂ Node.Marks (root.inOrder.filter (·.kind = .string))
      (((keptLines text).flatMap SourceLine.lexemes).filter (·.token.isString)) := by
  have same (p : Piece) (l : Lexeme) (h : p.Matches l) :
      p.token.isString ↔ l.token.isString := by
    rcases h.token with eq | ⟨name, eq, eq'⟩
    · rw [eq]
    · rw [eq, eq']
      rfl
  have strings := List.rel_filter same (covers_of_parse h)
  have kept (l : Lexeme) : (l.token.isString && decide (l.token ≠ .comma)) = l.token.isString := by
    cases l.token <;> rfl
  rw [List.filter_filter] at strings
  simp only [kept, List.filter_flatMap, Node.strings_pieces] at strings
  refine Covers.marks ?_ ?_
  · have isProgram := isProgram_of_parse h
    have ne : ¬root.kind = .string := by
      rw [isProgram.1]
      exact nofun
    rw [isProgram.inOrder_eq, List.filter_cons_of_neg (by simpa using ne), List.filter_flatMap,
      List.flatMap_assoc, List.filter_flatMap]
    exact strings
  · intro n hn
    have isString : n.kind = .string := by simpa using (List.mem_filter.mp hn).2
    exact ⟨.string n.value, by rw [isString]; rfl⟩

end Parser

theorem Spelt.isWord_of_called {name : String} {spelling : List Char}
    (h : Spelt (.name name true) spelling) : IsWord spelling ∧ name = String.ofList spelling := by
  cases h
  case word isWord => exact ⟨isWord, rfl⟩

namespace Highlight

-- The spans of all lines of a text, each in its place.
def ofText (text : String) : List (Location × Span) :=
  (SourceLine.enumerate 1 (SourcePane.lines text)).flatMap fun l => placed l.start (spans l.text)

theorem spans_of_mem_keptLines {text : String} {l : SourceLine} (h : l ∈ keptLines text) :
    l ∈ SourceLine.enumerate 1 (SourcePane.lines text) ∧
      spans l.text = spansFrom [] [] 0 l.text.toList := by
  obtain ⟨mem, kept⟩ := List.mem_filter.mp h
  have kept : SourceLine.isSkippable l.text = false := by simpa using kept
  exact ⟨mem, by simp [spans, kept]⟩

-- A comment has one span, and that is in another colour.
theorem quoted_placed (l : SourceLine) :
    (placed l.start (spans l.text)).filter (isQuoted ·.2) =
      if SourceLine.isSkippable l.text then []
      else (placed l.start (spansFrom [] [] 0 l.text.toList)).filter (isQuoted ·.2) := by
  unfold spans
  split <;> rfl

-- The strings of a text are those of the lines that the parser reads.
theorem quoted_ofText (text : String) :
    ((ofText text).filter (isQuoted ·.2)).map (fun p => (p.1, p.2.text.toList)) =
      (keptLines text).flatMap fun l => quotations l.start 0 l.text.toList := by
  rw [ofText, List.filter_flatMap, List.map_flatMap, keptLines]
  change _ = ((SourceLine.enumerate 1 (SourcePane.lines text)).filter
    (!SourceLine.isSkippable ·.text)).flatMap _
  induction SourceLine.enumerate 1 (SourcePane.lines text)
  case nil => rfl
  case cons l ls hi =>
    rw [List.flatMap_cons, hi, quoted_placed]
    cases skip : SourceLine.isSkippable l.text
    case true => simp [skip]
    case false =>
      have quoted := quoted_spansFrom l.start [] [] 0 l.text.toList
      rw [List.filter_cons_of_pos (by simp [skip]), List.flatMap_cons, ← quoted]
      rfl

theorem right_of_mem_placed {place : Location} {ss : List Span} {p : Location × Span}
    (h : p ∈ placed place ss) : ∃ n, p.1 = place.right n := by
  induction ss generalizing place
  case nil => cases h
  case cons s ss hi =>
    rcases List.mem_cons.mp h with rfl | h
    · exact ⟨0, rfl⟩
    · obtain ⟨n, eq⟩ := hi h
      exact ⟨s.text.length + n, by rw [eq, Location.right_right]⟩

theorem pairwise_placed (place : Location) {ss : List Span} (ne : ∀ s ∈ ss, 0 < s.text.length) :
    (placed place ss).Pairwise (·.1.Precedes ·.1) := by
  induction ss generalizing place
  case nil => exact .nil
  case cons s ss hi =>
    obtain ⟨here, ne⟩ := List.forall_mem_cons.mp ne
    refine .cons (fun p hp => ?_) (hi _ ne)
    obtain ⟨n, eq⟩ := right_of_mem_placed hp
    rw [eq, Location.right_right]
    exact .right (Nat.add_pos_left here n)

theorem length_pos_of_mem_spansFrom {before previous : List Char} {skip : Nat} {text : List Char}
    {s : Span} (h : s ∈ spansFrom before previous skip text) : 0 < s.text.length := by
  fun_induction spansFrom before previous skip text
  case case1 => cases h
  case case2 hi => exact hi h
  case case3 hi =>
    rcases List.mem_cons.mp h with rfl | h
    · exact Nat.lt_of_lt_of_eq (Nat.succ_pos _) (length_span ..).symm
    · exact hi h

-- No two spans are in the same place.
theorem pairwise_ofText (text : String) : (ofText text).Pairwise (·.1.Precedes ·.1) := by
  refine List.pairwise_flatMap.mpr ⟨fun l _ => ?_, ?_⟩
  · unfold spans
    split
    case isTrue  => exact .cons (List.forall_mem_nil _) .nil
    case isFalse => exact pairwise_placed _ fun s => length_pos_of_mem_spansFrom
  · refine (number_pairwise_enumerate ..).imp fun lt p hp q hq => .inl ?_
    obtain ⟨_, eq⟩ := right_of_mem_placed hp
    obtain ⟨_, eq'⟩ := right_of_mem_placed hq
    rwa [eq, eq']

theorem wordStyle_called {word : List Char} (h : IsWord word) (previous : List Char) (cast : Bool) :
    wordStyle word previous true cast = { fg := some Theme.function } := by
  obtain ⟨ne, letters, free⟩ := h
  obtain ⟨c, rest, rfl⟩ := List.exists_cons_of_ne_nil ne
  have digit : c.isDigit = false := Bool.eq_false_iff.mpr fun digit => by
    simpa [not_isLetter_of_isDigit digit] using letters c List.mem_cons_self
  have function : c :: rest ≠ "fn".toList := fun eq => free (by rw [eq]; rfl)
  have constant : c :: rest ∉ constantWords := by
    intro mem
    simp only [constantWords, List.mem_cons, List.not_mem_nil, or_false] at mem
    rcases mem with eq | eq | eq <;> exact free (by rw [eq]; rfl)
  rw [wordStyle, if_neg (by simp [digit]), if_neg function, if_neg constant, if_pos (by simp)]

-- The name of a call is a span of its own.
theorem mem_placed_of_called {place : Location} {text : List Char} {l : Lexeme} {name : String}
    (legible : ∀ x ∈ Lexeme.ofChars place 0 text, ¬x.token.isMistake)
    (h : l ∈ Lexeme.ofChars place 0 text) (called : l.token = .name name true) :
    (l.start, { text := name, style := { fg := some Theme.function } }) ∈
      placed place (spansFrom [] [] 0 text) := by
  obtain ⟨front, c, rest, n, text_eq, start_eq, read, whole, apart⟩ :=
    exists_front_of_mem_ofChars legible h
  rw [called] at read
  obtain ⟨spelling, after, rest_eq, spelt, -, follows⟩ := Lexeme.standsIn_of_read_called read
  obtain ⟨isWord, rfl⟩ := spelt.isWord_of_called
  have follows := follows _ rfl
  have first : isLetter c := by
    obtain ⟨d, spelling, rfl⟩ := List.exists_cons_of_ne_nil isWord.1
    obtain ⟨rfl, -⟩ := List.cons.inj rest_eq
    exact isWord.2.1 c List.mem_cons_self
  have alphanumeric : ∀ d ∈ spelling, isAlphanumeric d := fun d hd => by
    simp [isAlphanumeric, isWord.2.1 d hd]
  obtain ⟨previous, cast, mem⟩ := exists_mem_placed whole (apart first) isWord.1 alphanumeric
    (by rw [follows]; decide +kernel) (Nat.zero_le _) (by simp) place [] []
  rw [start_eq, Nat.zero_add, ← List.drop_zero (l := text), text_eq, rest_eq]
  simp only [follows, decide_true, wordStyle_called isWord] at mem
  exact mem

end Highlight

-- The span shows the string of the node, between any two quotes.
def Node.IsQuotedBy (n : Node) (p : Location × Span) : Prop :=
  p.1 = n.location ∧ ∃ opening closing, Token.isQuote opening ∧ Token.isQuote closing ∧
    p.2.text.toList = opening :: n.value.toList ++ [closing]

theorem Node.Marks.isQuotedBy {n : Node} {l : Lexeme} {p : Location × Span} (h : n.Marks l)
    (isString : n.kind = .string) (quotes : l.Quotes (p.1, p.2.text.toList)) : n.IsQuotedBy p := by
  obtain ⟨t, token, same⟩ := h
  obtain ⟨place, opening, content, closing, opens, closes, text_eq, token_eq⟩ := quotes
  rw [isString] at token
  cases token
  have token_eq' : l.token = .string n.value := same.token_eq nofun
  obtain rfl : content = n.value.toList := by
    rw [Token.string.inj (token_eq'.symm.trans token_eq), String.toList_ofList]
  exact ⟨place.trans (same.place _ rfl), opening, closing, opens, closes, text_eq⟩

theorem isQuotedBy_of_marks {ns : List Node} {xs : List Lexeme} {ps : List (Location × Span)}
    (marks : List.Forall₂ Node.Marks ns xs) (isString : ∀ n ∈ ns, n.kind = .string)
    (quotes : List.Forall₂ Lexeme.Quotes (ps.map fun p => (p.1, p.2.text.toList)) xs) :
    List.Forall₂ Node.IsQuotedBy ns ps := by
  rw [List.forall₂_map_left_iff] at quotes
  induction marks generalizing ps
  case nil =>
    cases quotes
    exact .nil
  case cons mark _ hi =>
    obtain ⟨here, isString⟩ := List.forall_mem_cons.mp isString
    cases quotes
    case cons quote quotes => exact .cons (mark.isQuotedBy here quote) (hi isString quotes)

namespace Parser

variable {text : String} {root : Node}

theorem quotes_of_parse (h : parse text = .ok root) :
    List.Forall₂ Lexeme.Quotes
      ((keptLines text).flatMap fun l => quotations l.start 0 l.text.toList)
      (((keptLines text).flatMap SourceLine.lexemes).filter (·.token.isString)) := by
  have legible := not_isMistake_of_parse h
  rw [List.filter_flatMap]
  have lines : List.Forall₂ (fun l l' => l = l' ∧ l ∈ keptLines text) (keptLines text)
      (keptLines text) :=
    List.forall₂_same.mpr fun l hl => ⟨rfl, hl⟩
  refine List.rel_flatMap lines ?_
  rintro l _ ⟨rfl, hl⟩
  refine matches_ofChars fun x hx isOpen => legible x (List.mem_flatMap.mpr ⟨l, hl, hx⟩) ?_
  rw [isOpen]
  rfl

theorem mem_ofText_of_call {n : Node} (h : parse text = .ok root) (hn : n ∈ root.inOrder)
    (isCall : n.kind = .call) :
    (n.location, { text := n.value, style := { fg := some Theme.function } }) ∈
      Highlight.ofText text := by
  have legible := not_isMistake_of_parse h
  have ⟨xs, sub, marks⟩ := marks_of_parse h
  have isProgram := isProgram_of_parse h
  rw [isProgram.inOrder_eq] at hn
  have hn : n ∈ root.children.flatMap Node.inOrder := by
    rcases List.mem_cons.mp hn with rfl | hn
    · rw [isProgram.1] at isCall
      cases isCall
    · exact hn
  obtain ⟨x, hx, t, token, same⟩ := exists_marks marks hn
  rw [isCall] at token
  cases token
  have called : x.token = .name n.value true := same.token_eq (by simp)
  obtain ⟨l, hl, hx⟩ := List.mem_flatMap.mp (sub.subset hx)
  obtain ⟨line, spans⟩ := Highlight.spans_of_mem_keptLines hl
  refine List.mem_flatMap.mpr ⟨l, line, ?_⟩
  rw [spans, ← same.place _ rfl]
  exact Highlight.mem_placed_of_called
    (fun y hy => legible y (List.mem_flatMap.mpr ⟨l, hl, hy⟩)) hx called

-- The spans of an accepted text in the colour of strings are its string nodes, each in its place,
-- and there is exactly one span in the place of a call, which is its name in the colour of functions.
theorem parse_coloured (h : parse text = .ok root) :
    List.Forall₂ Node.IsQuotedBy (root.inOrder.filter (·.kind = .string))
      ((Highlight.ofText text).filter (·.2.style.fg = some Theme.string)) ∧
    ∀ n ∈ root.inOrder, n.kind = .call → ∀ p,
      p ∈ Highlight.ofText text ∧ p.1 = n.location ↔
        p = (n.location, { text := n.value, style := { fg := some Theme.function } }) := by
  constructor
  case left =>
    refine isQuotedBy_of_marks (strings_of_parse h) ?_ ?_
    · intro n hn
      simpa using (List.mem_filter.mp hn).2
    · have quotes := quotes_of_parse h
      rw [← Highlight.quoted_ofText] at quotes
      exact quotes
  case right =>
    intro n hn isCall p
    have mem := mem_ofText_of_call h hn isCall
    constructor
    case mp =>
      intro ⟨hp, place⟩
      have places := List.pairwise_map.mpr
        ((Highlight.pairwise_ofText text).imp Location.Precedes.ne)
      exact List.inj_on_of_nodup_map places hp mem place
    case mpr =>
      rintro rfl
      exact ⟨mem, rfl⟩

theorem parse_coloured_comment :
    ∃ root, parse "// it's\ng('b c\", 1)" = .ok root ∧
    List.Forall₂ Node.IsQuotedBy (root.inOrder.filter (·.kind = .string))
      ((Highlight.ofText "// it's\ng('b c\", 1)").filter (·.2.style.fg = some Theme.string)) ∧
    ∀ n ∈ root.inOrder, n.kind = .call → ∀ p,
      p ∈ Highlight.ofText "// it's\ng('b c\", 1)" ∧ p.1 = n.location ↔
        p = (n.location, { text := n.value, style := { fg := some Theme.function } }) := by
  let call : Node :=
    { kind := .call, value := "g", location := ⟨2, 1⟩,
      params := [[.leaf .string "b c" ⟨2, 3⟩], [.leaf .integer "1" ⟨2, 10⟩]] }
  have h : parse "// it's\ng('b c\", 1)" =
      .ok { kind := .root, children := [call], location := ⟨1, 1⟩ } := rfl
  exact ⟨_, h, parse_coloured h⟩

end Parser
end WispSyntax

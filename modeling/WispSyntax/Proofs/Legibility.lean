import WispSyntax.Proofs.Printing

/-!
Printed programs can be read. The lexer reads what is printed for well-formed trees line by line and
token by token as it was printed (`items_of_print`).
-/

namespace WispSyntax

def Token.isCalled : Token → Bool
  | name _ called => called
  | _             => false

-- Items that can be read back once they are written, given the token before them on their line.
-- Every line has a token, and no line looks like a comment.
def Legible : Option Token → List Item → Prop
  | none,   []                => True
  | some _, []                => False
  | none,   .newline :: _     => False
  | some s, .newline :: items => s.isCalled = false ∧ Legible none items
  | none,   .token t :: items =>
    t ≠ .operator (.math .divide) ∧ Spelt t t.text.toList ∧ Legible (some t) items
  | some s, .token t :: items =>
    (s.isCalled → t = .openParen) ∧ Spelt t t.text.toList ∧ Legible (some t) items

namespace Legible
variable {prev : Option Token} {rest : List Item} {t : Token}

theorem token (free : ∀ s ∈ prev, s.isCalled = false)
    (first : t ≠ .operator (.math .divide)) (spelt : Spelt t t.text.toList)
    (next : Legible (some t) rest) : Legible prev (.token t :: rest) := by
  cases prev
  case none   => exact ⟨first, spelt, next⟩
  case some s => exact ⟨by simp [free s rfl], spelt, next⟩

theorem inner {s : Token} (free : s.isCalled = false) (spelt : Spelt t t.text.toList)
    (next : Legible (some t) rest) : Legible (some s) (.token t :: rest) :=
  ⟨by simp [free], spelt, next⟩

end Legible

-- What can be printed anywhere in a program.
def Prints (items : List Item) : Prop :=
  ∀ prev rest, (∀ s ∈ prev, s.isCalled = false) →
    (∀ t, t.isCalled = false → Legible (some t) rest) → Legible prev (items ++ rest)

section
variable {value : String}

theorem spelt_number {form : NumberForm} (h : IsNumber form value.toList) :
    Spelt (.number form value) (Token.number form value).text.toList := by
  have spelt := Spelt.number h
  rwa [String.ofList_toList] at spelt

theorem spelt_string (h : IsQuotable value.toList) :
    Spelt (.string value) (Token.string value).text.toList := by
  have spelt : Spelt (.string (String.ofList value.toList)) ('"' :: value.toList ++ ['"']) :=
    .string h rfl rfl
  rw [String.ofList_toList] at spelt
  simpa [Token.text] using spelt

theorem spelt_word {called : Bool} (h : IsWord value.toList) :
    Spelt (.name value called) (Token.name value called).text.toList := by
  have spelt : Spelt (.name (String.ofList value.toList) called) value.toList := .word h
  rwa [String.ofList_toList] at spelt

theorem spelt_digitName (h : IsDigitName value.toList) :
    Spelt (.name value false) (Token.name value false).text.toList := by
  have spelt := Spelt.digitName h
  rwa [String.ofList_toList] at spelt

theorem spelt_name (h : IsName value.toList) :
    Spelt (.name value false) (Token.name value false).text.toList := by
  cases h
  case inl word  => exact spelt_word word
  case inr digit => exact spelt_digitName digit

theorem spelt_headName {layout : Layout} (h : IsName value.toList) :
    Spelt (Node.headName layout value) (Node.headName layout value).text.toList := by
  cases h
  case inl word  => exact spelt_word word
  case inr digit =>
    have ⟨⟨c, rest, value_eq, isDigit⟩, _⟩ := digit
    have name_eq : Node.headName layout value = .name value false := by
      simp [Node.headName, value_eq, not_isLetter_of_isDigit isDigit]
    rw [name_eq]
    exact spelt_digitName digit

end

theorem Prints.token {t : Token} (free : t.isCalled = false)
    (first : t ≠ .operator (.math .divide)) (spelt : Spelt t t.text.toList) :
    Prints [.token t] := by
  intro prev rest hp next
  exact Legible.token hp first spelt (next t free)

namespace Legible
variable {layout : Layout}

theorem list {ns : List Node} (h : ∀ n ∈ ns, Prints (n.items layout)) {s : Token}
    {rest : List Item} (free : s.isCalled = false)
    (next : ∀ t, t.isCalled = false → Legible (some t) rest) :
    Legible (some s) (Node.itemsList layout ns ++ rest) := by
  induction ns generalizing s
  case nil => exact next s free
  case cons n ns hi =>
    have ⟨hn, hs⟩ := List.forall_mem_cons.mp h
    rw [Node.itemsList, List.append_assoc]
    exact hn (some s) _ (by simp [free]) fun t free => hi hs free

theorem more {es : List (List Node)} (h : ∀ e ∈ es, ∀ n ∈ e, Prints (n.items layout)) {s : Token}
    {rest : List Item} (free : s.isCalled = false)
    (next : ∀ t, t.isCalled = false → Legible (some t) rest) :
    Legible (some s) (Node.itemsMore layout es ++ rest) := by
  induction es generalizing s
  case nil => exact next s free
  case cons e es hi =>
    have ⟨he, hs⟩ := List.forall_mem_cons.mp h
    rw [Node.itemsMore, List.cons_append, List.cons_append, List.append_assoc]
    exact inner free .comma (list he rfl fun t free => hi hs free)

theorem entries {es : List (List Node)} (h : ∀ e ∈ es, ∀ n ∈ e, Prints (n.items layout)) {s : Token}
    {rest : List Item} (free : s.isCalled = false)
    (next : ∀ t, t.isCalled = false → Legible (some t) rest) :
    Legible (some s) (Node.itemsEntries layout es ++ rest) := by
  cases es
  case nil => exact next s free
  case cons e es =>
    have ⟨he, hs⟩ := List.forall_mem_cons.mp h
    rw [Node.itemsEntries, List.append_assoc]
    exact list he free fun t free => more hs free next

theorem lines {ns : List Node} (h : ∀ n ∈ ns, Prints (n.items layout)) {rest : List Item}
    (next : Legible none rest) : Legible none (Node.itemsLines layout ns ++ rest) := by
  induction ns
  case nil => exact next
  case cons n ns hi =>
    have ⟨hn, hs⟩ := List.forall_mem_cons.mp h
    rw [Node.itemsLines, List.append_assoc]
    exact hn none _ (by simp) fun t free => ⟨free, hi hs⟩

end Legible

namespace Node.WellFormed

theorem prints {layout : Layout} {n : Node} {nested : Bool} (h : n.WellFormed nested) :
    Prints (n.items layout) := by
  induction h
  case constant c =>
    rw [items_constant]
    exact .token rfl (by simp) (.constant c)
  case number isNumber =>
    rw [items_number]
    exact .token rfl (by simp) (spelt_number isNumber)
  case string isQuotable =>
    rw [items_string]
    exact .token rfl (by simp) (spelt_string isQuotable)
  case identifier isName =>
    rw [items_identifier]
    exact .token rfl (by simp) (spelt_name isName)
  case operator op _ _ _ _ _ left right =>
    intro prev rest free next
    rw [items_between, List.append_assoc]
    refine left prev _ free fun t called => ?_
    refine .inner called (.operator op) ?_
    exact right _ rest (by simp [Token.isCalled]) next
  case negation right =>
    intro prev rest free next
    rw [items_negation]
    refine .token free (by simp) (.operator .not) ?_
    exact right _ rest (by simp [Token.isCalled]) next
  case query left =>
    intro prev rest free next
    rw [items_query, List.append_assoc]
    refine left prev _ free fun t called => ?_
    exact .inner called (.operator .cast) (next _ rfl)
  case counter c _ _ _ left =>
    intro prev rest free next
    rw [items_counter, List.append_assoc]
    refine left prev _ free fun t called => ?_
    exact .inner called (.counter c) (next _ rfl)
  case group entries =>
    intro prev rest free next
    simp only [items_group, List.cons_append, List.append_assoc]
    refine .token free (by simp) .openParen (.entries entries rfl fun t called => ?_)
    exact .inner called .closeParen (next _ rfl)
  case call isWord _ _ entries =>
    intro prev rest free next
    simp only [items_call, List.cons_append, List.append_assoc]
    refine .token free (by simp) (spelt_word isWord) ⟨fun _ => rfl, .openParen, ?_⟩
    refine .entries entries rfl fun t called => ?_
    exact .inner called .closeParen (next _ rfl)
  case block lines =>
    intro prev rest free next
    simp only [items_block, List.cons_append, List.append_assoc]
    refine .token free (by simp) .openBrace ⟨rfl, .lines lines ?_⟩
    exact .token (by simp) (by simp) .closeBrace (next _ rfl)
  case function isName _ _ _ entries lines =>
    intro prev rest free next
    simp only [items_function, List.cons_append, List.append_assoc]
    refine .token free (by simp) .function ⟨by simp [Token.isCalled], spelt_headName isName, ?_⟩
    refine ⟨fun _ => rfl, .openParen, .entries entries rfl fun t called => ?_⟩
    refine .inner called .closeParen (.inner rfl .openBrace ⟨rfl, .lines lines ?_⟩)
    exact .token (by simp) (by simp) .closeBrace (next _ rfl)

end Node.WellFormed

namespace Lexeme

theorem ofChars_skip (place : Location) (front rest : List Char) :
    ofChars place front.length (front ++ rest) = ofChars (place.right front.length) 0 rest := by
  induction front generalizing place
  case nil => rfl
  case cons c front hi =>
    rw [List.cons_append, List.length_cons, ofChars, hi, Location.right_right, Nat.add_comm]

theorem ofChars_blanks (place : Location) (n : Nat) (rest : List Char) :
    ofChars place 0 (List.replicate n ' ' ++ rest) = ofChars (place.right n) 0 rest := by
  induction n generalizing place
  case zero => rfl
  case succ n hi =>
    have blank : isBlank ' ' := rfl
    rw [List.replicate_succ, List.cons_append, ofChars, if_pos blank, hi, Location.right_right,
      Nat.add_comm]

theorem ofChars_spelt {t : Token} {spelling rest : List Char} (place : Location)
    (h : Spelt t spelling) (ends : t.endsBefore rest.head?)
    (called : ∀ text called, t = .name text called → called = decide (rest.head? = some '(')) :
    (ofChars place 0 (spelling ++ rest)).map (·.token) =
      t :: (ofChars (place.right spelling.length) 0 rest).map (·.token) := by
  obtain ⟨c, tail, rfl, blank, read_eq⟩ := read_of_spelt h ends called
  rw [List.cons_append, ofChars, if_neg (by simp [blank]), read_eq]
  simp only [List.map_cons, ofChars_skip, Location.right_right, List.length_cons, Nat.add_comm]

end Lexeme

namespace Layout
variable (layout : Layout) {s t : Token} {ts : List Token}

-- The characters of a line.
def writeLine (ts : List Token) : List Char :=
  layout.write none (ts.map .token)

theorem write_newline (prev : Option Token) (ts : List Token) (rest : List Item) :
    layout.write prev (ts.map .token ++ .newline :: rest) =
      layout.write prev (ts.map .token) ++ '\n' :: layout.write none rest := by
  induction ts generalizing prev
  case nil => rfl
  case cons t ts hi =>
    cases prev <;> simp [write, hi]

-- A token of a legible line is told from what is written after it.
theorem apart_of_legible (h : Legible (some s) (ts.map .token ++ [.newline])) :
    s.endsBefore (layout.write (some s) (ts.map .token)).head? ∧
      ∀ text called, s = .name text called →
        called = decide ((layout.write (some s) (ts.map .token)).head? = some '(') := by
  cases ts
  case nil =>
    refine ⟨s.endsBefore_none, ?_⟩
    rintro text called rfl
    exact h.1
  case cons t ts =>
    have ⟨openParen, spelt, _⟩ := h
    rw [List.map_cons, write]
    cases gap_eq : layout.gap s t
    case zero =>
      have ⟨c, tail, text_eq⟩ := List.exists_cons_of_ne_nil spelt.ne_nil
      have head_eq (chars : List Char) :
          (List.replicate 0 ' ' ++ t.text.toList ++ chars).head? = t.text.toList.head? := by
        rw [text_eq]
        rfl
      rw [head_eq]
      refine ⟨layout.ends s t gap_eq, ?_⟩
      rintro text called rfl
      cases called
      case false => simp [layout.apart text t gap_eq]
      case true  => simp [openParen rfl, Token.text]
    case succ n =>
      refine ⟨s.endsBefore_blank, ?_⟩
      rintro text called rfl
      cases called
      case false => rfl
      case true  =>
        rw [openParen rfl, layout.call] at gap_eq
        contradiction

theorem tokens_write (h : Legible (some s) (ts.map .token ++ [.newline])) (place : Location) :
    (Lexeme.ofChars place 0 (layout.write (some s) (ts.map .token))).map (·.token) = ts := by
  induction ts generalizing s place
  case nil => rfl
  case cons t ts hi =>
    have ⟨_, spelt, next⟩ := h
    have ⟨ends, called⟩ := layout.apart_of_legible next
    rw [List.map_cons, write, List.append_assoc, Lexeme.ofChars_blanks,
      Lexeme.ofChars_spelt _ spelt ends called, hi next]

theorem tokens_writeLine (h : Legible none (ts.map .token ++ [.newline])) (place : Location) :
    (Lexeme.ofChars place 0 (layout.writeLine ts)).map (·.token) = ts := by
  cases ts
  case nil => rfl
  case cons t ts =>
    have ⟨_, spelt, next⟩ := h
    have ⟨ends, called⟩ := layout.apart_of_legible next
    rw [writeLine, List.map_cons, write, Lexeme.ofChars_spelt _ spelt ends called,
      layout.tokens_write next]

end Layout

-- What can be a line of its own, a line feed coming after it.
def IsLine (chars : List Char) : Prop :=
  '\n' ∉ chars ∧ chars.getLast? ≠ some '\r'

section
variable {chars front : List Char}

theorem isLine_of_not_isBlank (h : ∀ c ∈ chars, isBlank c = false) : IsLine chars := by
  constructor
  · intro mem
    have blank := h _ mem
    contradiction
  · intro last
    have blank := h _ (List.mem_of_getLast? last)
    contradiction

theorem IsLine.append (h : IsLine chars) (ne : chars ≠ []) (hf : '\n' ∉ front) :
    IsLine (front ++ chars) := by
  have ⟨feed, last⟩ := h
  refine ⟨by simp [hf, feed], ?_⟩
  rwa [List.getLast?_append_of_ne_nil _ ne]

theorem splitLines_line (h : IsLine chars) (rest : List Char) :
    splitLines (chars ++ '\n' :: rest) = chars :: splitLines rest := by
  induction chars
  case nil => rw [List.nil_append, splitLines]
  case cons c chars hi =>
    have ⟨feed, last⟩ := h
    simp only [List.mem_cons, not_or] at feed
    have line : IsLine chars := by
      refine ⟨feed.2, fun h => last ?_⟩
      simp [List.getLast?_cons, h]
    rw [List.cons_append, splitLines, hi line]
    · exact Ne.symm feed.1
    · rintro after rfl eq
      cases chars
      case nil => exact last rfl
      case cons d chars =>
        have first := (List.cons.inj eq).1
        simp [first] at feed

theorem isBlank_of_isWordChar {c : Char} (h : Token.isWordChar c) : isBlank c = false := by
  cases Bool.or_eq_true _ _ ▸ h
  case inl letter => exact not_isBlank_of_isLetter letter
  case inr digit  => exact not_isBlank_of_isDigit digit

theorem Spelt.isLine {t : Token} {spelling : List Char} (h : Spelt t spelling) :
    IsLine spelling := by
  cases h
  case constant c => cases c <;> simp [IsLine, Constant.word]
  case word isWord =>
    exact isLine_of_not_isBlank fun c hc => not_isBlank_of_isLetter (isWord.2.1 c hc)
  case digitName isDigitName =>
    exact isLine_of_not_isBlank fun c hc => isBlank_of_isWordChar (isDigitName.2.1 c hc)
  case number isNumber =>
    refine isLine_of_not_isBlank fun c hc => ?_
    rcases isNumber.isWordChar c hc with wordChar | rfl
    · exact isBlank_of_isWordChar wordChar
    · rfl
  case string text opening closing isQuotable ho hc =>
    have line : IsLine [closing] :=
      isLine_of_not_isBlank (by simpa using (ordinary_of_isQuote hc).2.2)
    refine line.append (List.cons_ne_nil _ _) fun mem => ?_
    rcases List.mem_cons.mp mem with rfl | mem
    · contradiction
    · exact (isQuotable _ mem).2 rfl
  case operator op =>
    rcases op with ⟨⟨⟩⟩ | ⟨⟨⟩⟩ | _ | _ | _ <;>
      simp [IsLine, Operator.symbol, MathOperator.symbol, Relation.symbol]
  case counter c => cases c <;> simp [IsLine, Counter.symbol]
  all_goals simp [IsLine]

end

-- What the parser is given for a line.
def SourceLine.items (l : SourceLine) : List Item :=
  l.lexemes.map (.token ·.token) ++ [.newline]

namespace Layout
variable (layout : Layout) {s t : Token} {ts : List Token} {items : List Item}

theorem isLine_append_write {front : List Char} (hf : IsLine front)
    (h : Legible (some s) (ts.map .token ++ [.newline])) :
    IsLine (front ++ layout.write (some s) (ts.map .token)) := by
  induction ts generalizing s front
  case nil => simpa [write] using hf
  case cons t ts hi =>
    have ⟨_, spelt, next⟩ := h
    have feed : '\n' ∉ front ++ List.replicate (layout.gap s t) ' ' := by
      simp [hf.1]
    have line := spelt.isLine.append spelt.ne_nil feed
    rw [List.map_cons, write, ← List.append_assoc, ← List.append_assoc]
    exact hi line next

theorem isLine_writeLine (h : Legible none (ts.map .token ++ [.newline])) :
    IsLine (layout.writeLine ts) := by
  cases ts
  case nil => exact ⟨List.not_mem_nil, by simp [writeLine, write]⟩
  case cons t ts =>
    have ⟨_, spelt, next⟩ := h
    exact layout.isLine_append_write spelt.isLine next

theorem not_isSkippable_writeLine (h : Legible none (ts.map .token ++ [.newline])) :
    SourceLine.isSkippable (String.ofList (layout.writeLine ts)) = false := by
  cases ts
  case nil => exact h.elim
  case cons t ts =>
    have ⟨ne, spelt, next⟩ := h
    have ⟨ends, called⟩ := layout.apart_of_legible next
    have ⟨c, tail, text_eq, blank, read_eq⟩ := read_of_spelt spelt ends called
    have slash : c ≠ '/' := by
      rintro rfl
      rw [Token.read_symbol rfl rfl rfl] at read_eq
      exact ne (Prod.mk.inj read_eq).1.symm
    simp only [SourceLine.isSkippable, String.toList_ofList, writeLine, List.map_cons, write,
      text_eq, List.cons_append, List.dropWhile_cons, blank]
    simp [slash]

theorem items_writeLine (h : Legible none (ts.map .token ++ [.newline])) (number : Nat) :
    SourceLine.items ⟨number, String.ofList (layout.writeLine ts)⟩ =
      ts.map .token ++ [.newline] := by
  have tokens := congrArg (List.map Item.token) (layout.tokens_writeLine h ⟨number, 1⟩)
  rw [List.map_map] at tokens
  rw [SourceLine.items, SourceLine.lexemes, SourceLine.start, String.toList_ofList]
  exact congrArg (· ++ [.newline]) tokens

theorem exists_line (h : Legible (some s) items) :
    ∃ (ts : List Token) (rest : List Item), items = ts.map .token ++ .newline :: rest ∧
      Legible (some s) (ts.map .token ++ [.newline]) ∧ Legible none rest := by
  induction items generalizing s
  case nil => exact h.elim
  case cons item items hi =>
    cases item
    case newline =>
      exact ⟨[], items, rfl, ⟨h.1, trivial⟩, h.2⟩
    case token t =>
      have ⟨openParen, spelt, next⟩ := h
      have ⟨ts, rest, items_eq, line, below⟩ := hi next
      exact ⟨t :: ts, rest, by simp [items_eq], ⟨openParen, spelt, line⟩, below⟩

-- The lines of a text that is written from legible items are read as these items.
theorem items_of_write (h : Legible none items) (first : Nat) :
    ((SourceLine.enumerate first ((splitLines (layout.write none items)).map String.ofList)).filter
      (!SourceLine.isSkippable ·.text)).flatMap SourceLine.items = items := by
  induction size : items.length using Nat.strong_induction_on generalizing items first
  case h n hi =>
    cases items
    case nil => rfl
    case cons item items =>
      cases item
      case newline => exact h.elim
      case token t =>
        have ⟨ne, spelt, next⟩ := h
        have ⟨ts, rest, items_eq, line, below⟩ := exists_line next
        have line : Legible none ((t :: ts).map .token ++ [.newline]) := ⟨ne, spelt, line⟩
        have all_eq : .token t :: items = (t :: ts).map .token ++ .newline :: rest := by
          rw [items_eq, List.map_cons, List.cons_append]
        have shorter : rest.length < n := by
          simp [← size, all_eq]
          omega
        have hi := hi rest.length shorter below (first + 1) rfl
        have kept := layout.not_isSkippable_writeLine line
        have cut := splitLines_line (layout.isLine_writeLine line) (layout.write none rest)
        rw [all_eq, write_newline, ← writeLine, cut, List.map_cons, SourceLine.enumerate_cons,
          List.filter_cons_of_pos (by simp [kept]), List.flatMap_cons,
          layout.items_writeLine line first, hi, List.append_assoc, List.singleton_append]

-- A printed program is read as it was printed.
theorem items_of_print {trees : List Node} (h : ∀ n ∈ trees, n.WellFormed false) :
    (keptLines (layout.print trees)).flatMap SourceLine.items = Node.itemsLines layout trees := by
  have legible : Legible none (Node.itemsLines layout trees ++ []) :=
    .lines (fun n hn => (h n hn).prints) trivial
  rw [List.append_nil] at legible
  rw [keptLines, print, Feed.withoutComments, Feed.ofText, String.toList_ofList]
  exact layout.items_of_write legible 1

end Layout
end WispSyntax

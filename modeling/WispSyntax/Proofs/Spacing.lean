import Mathlib.Data.List.Forall2
import WispSyntax.Proofs.Extent

/-!
Blanks between tokens. Which blanks there are, and how many of them, changes the places of the
tokens of a line and nothing else (`alike_ofChars`), but whether there is one at all matters.
-/

namespace WispSyntax

-- Texts that differ in blanks outside strings, `quoted` telling whether they begin inside of one. A
-- run of blanks has another one in its place, and at the end of a line there may be any or none.
inductive Respaced : Bool → List Char → List Char → Prop
  | trailing {quoted front front'} (blank : ∀ c ∈ front, isBlank c)
      (blank' : ∀ c ∈ front', isBlank c) : Respaced quoted front front'
  | char {quoted rest rest'} (c : Char) (next : Respaced (quoted ^^ Token.isQuote c) rest rest') :
      Respaced quoted (c :: rest) (c :: rest')
  | run {front front' rest rest'} (ne : front ≠ []) (blank : ∀ c ∈ front, isBlank c)
      (ne' : front' ≠ []) (blank' : ∀ c ∈ front', isBlank c) (next : Respaced false rest rest') :
      Respaced false (front ++ rest) (front' ++ rest')

-- Lines that differ in blanks outside strings. At the beginning there may be any or none.
def IsRespaced (line line' : List Char) : Prop :=
  Respaced false (line.dropWhile isBlank) (line'.dropWhile isBlank)

-- The character that a text goes on with if it goes on at once.
def next? (text : List Char) : Option Char :=
  text.head?.filter (!isBlank ·)

theorem next?_of_isBlank {c : Char} (h : isBlank c) (rest : List Char) :
    next? (c :: rest) = none := by
  rw [next?, List.head?_cons, Option.filter_some, if_neg (by simp [h])]

theorem next?_of_not_isBlank {c : Char} (h : isBlank c = false) (rest : List Char) :
    next? (c :: rest) = some c := by
  rw [next?, List.head?_cons, Option.filter_some, if_pos (by simp [h])]

namespace Respaced

variable {quoted : Bool} {c : Char} {xs ys front rest rest' : List Char} {n : Nat}

theorem symm (h : Respaced quoted xs ys) : Respaced quoted ys xs := by
  induction h
  case trailing blank blank'         => exact .trailing blank' blank
  case char hi                       => exact .char _ hi
  case run ne blank ne' blank' _ hi => exact .run ne' blank' ne blank hi

theorem cons (blank : isBlank c = false) (h : Respaced quoted (c :: xs) ys) :
    ∃ ys', ys = c :: ys' ∧ Respaced (quoted ^^ Token.isQuote c) xs ys' := by
  generalize eq : c :: xs = text at h
  cases h
  case trailing blanks _ =>
    subst eq
    simp [blank] at blanks
  case char next =>
    obtain ⟨rfl, rfl⟩ := List.cons.inj eq
    exact ⟨_, rfl, next⟩
  case run front _ _ _ ne blanks _ _ _ =>
    cases front
    case nil => contradiction
    case cons d front =>
      obtain ⟨rfl, -⟩ := List.cons.inj eq
      simp [blank] at blanks

theorem next?_eq_some (h : Respaced quoted xs ys) (next : next? xs = some c) :
    next? ys = some c := by
  obtain ⟨head, blank⟩ := Option.filter_eq_some_iff.mp next
  obtain ⟨rest, rfl⟩ := List.head?_eq_some_iff.mp head
  obtain ⟨rest', rfl, _⟩ := h.cons (by simpa using blank)
  exact next

theorem next?_eq (h : Respaced quoted xs ys) : next? xs = next? ys :=
  Option.ext fun _ => ⟨h.next?_eq_some, h.symm.next?_eq_some⟩

theorem append (plain : ∀ c ∈ front, isPlain c) (h : Respaced false (front ++ rest) ys) :
    ∃ rest', ys = front ++ rest' ∧ Respaced false rest rest' := by
  induction front generalizing ys
  case nil => exact ⟨ys, rfl, h⟩
  case cons c front hi =>
    obtain ⟨here, plain⟩ := List.forall_mem_cons.mp plain
    obtain ⟨blank, quote, _⟩ := isPlain_iff.mp here
    obtain ⟨ys, rfl, next⟩ := h.cons blank
    rw [quote] at next
    obtain ⟨rest', rfl, last⟩ := hi plain next
    exact ⟨rest', rfl, last⟩

theorem drop (reaches : Token.Reaches n xs) (h : Respaced false xs ys) :
    Respaced false (xs.drop n) (ys.drop n) := by
  obtain ⟨front, rest, rfl, rfl, plain⟩ := reaches
  obtain ⟨rest', rfl, next⟩ := h.append plain
  rwa [List.drop_left, List.drop_left]

-- The rest of a string and what follows it.
theorem string {closing : Char} (quote : ∀ c ∈ front, Token.isQuote c = false)
    (closes : Token.isQuote closing) (h : Respaced true (front ++ closing :: rest) ys) :
    ∃ rest', ys = front ++ closing :: rest' ∧ Respaced false rest rest' := by
  have visible : isBlank closing = false := (ordinary_of_isQuote closes).2.2
  induction front generalizing ys
  case nil =>
    obtain ⟨rest', rfl, next⟩ := h.cons visible
    rw [closes] at next
    exact ⟨rest', rfl, next⟩
  case cons c front hi =>
    obtain ⟨here, quote⟩ := List.forall_mem_cons.mp quote
    cases h
    case trailing blanks _ =>
      have := blanks closing (by simp)
      simp [visible] at this
    case char next =>
      rw [here] at next
      obtain ⟨rest', rfl, last⟩ := hi quote next
      exact ⟨rest', rfl, last⟩

theorem takeWhile {p : Char → Bool} (plain : ∀ c, p c → isPlain c) (h : Respaced false xs ys) :
    xs.takeWhile p = ys.takeWhile p ∧ Respaced false (xs.dropWhile p) (ys.dropWhile p) := by
  have front : ∀ c ∈ xs.takeWhile p, p c := fun c hc => List.mem_takeWhile_imp hc
  rw [← List.takeWhile_append_dropWhile (p := p) (l := xs)] at h
  obtain ⟨rest', rfl, next⟩ := h.append fun c hc => plain c (front c hc)
  have ends : rest'.takeWhile p = [] ∧ rest'.dropWhile p = rest' := by
    rcases rest' with _ | ⟨d, rest'⟩
    case nil => exact ⟨rfl, rfl⟩
    case cons =>
      suffices stops : p d = false by simp [stops]
      rw [Bool.eq_false_iff]
      intro goes
      have visible := (isPlain_iff.mp (plain d goes)).1
      obtain ⟨rest, eq, _⟩ := next.symm.cons visible
      have stops := List.head?_dropWhile_not p xs
      simp [eq, goes] at stops
  rw [List.takeWhile_append_of_pos front, List.dropWhile_append_of_pos front, ends.1, ends.2,
    List.append_nil]
  exact ⟨rfl, next⟩

theorem dropBlanks (h : Respaced quoted xs ys) (outside : quoted = false) :
    Respaced false (xs.dropWhile isBlank) (ys.dropWhile isBlank) := by
  induction h
  case trailing blank blank' =>
    rw [List.dropWhile_eq_nil_iff.mpr blank, List.dropWhile_eq_nil_iff.mpr blank']
    exact .trailing (by simp) (by simp)
  case char c next hi =>
    subst outside
    cases blank : isBlank c
    case false => simpa [List.dropWhile_cons, blank] using .char c next
    case true =>
      have quote : Token.isQuote c = false :=
        Bool.eq_false_iff.mpr fun h => by simp [ordinary_of_isQuote h] at blank
      simpa [List.dropWhile_cons, blank] using hi (by simp [quote])
  case run blank _ blank' _ hi =>
    rw [List.dropWhile_append_of_pos blank, List.dropWhile_append_of_pos blank']
    exact hi rfl

end Respaced

-- Where the blanks at the beginning are left out, lines begin with the same character if any.
theorem IsRespaced.cases {xs ys : List Char} (h : IsRespaced xs ys) :
    (xs.dropWhile isBlank = [] ∧ ys.dropWhile isBlank = []) ∨
    ∃ c rest rest', xs.dropWhile isBlank = c :: rest ∧ ys.dropWhile isBlank = c :: rest' ∧
      isBlank c = false ∧ Respaced (Token.isQuote c) rest rest' := by
  have head := List.head?_dropWhile_not isBlank xs
  have head' := List.head?_dropWhile_not isBlank ys
  unfold IsRespaced at h
  rcases front : xs.dropWhile isBlank with _ | ⟨c, rest⟩ <;> rw [front] at h head
  case nil =>
    rcases front' : ys.dropWhile isBlank with _ | ⟨d, rest'⟩ <;> rw [front'] at h head'
    case nil  => exact .inl ⟨rfl, rfl⟩
    case cons =>
      obtain ⟨_, none, _⟩ := h.symm.cons (by simpa using head')
      contradiction
  case cons =>
    have blank : isBlank c = false := by simpa using head
    obtain ⟨rest', eq, next⟩ := h.cons blank
    rw [Bool.false_xor] at next
    exact .inr ⟨c, rest, rest', rfl, eq, blank, next⟩

namespace Token

-- Tokens that are the same for the parser. A dot that is no operator is a mistake in any case.
inductive Alike : Token → Token → Prop
  | refl (t : Token) : Alike t t
  | dot (next next' : Option Char) : Alike (dot next) (dot next')

theorem Alike.symm {t u : Token} (h : Alike t u) : Alike u t := by
  cases h
  case refl => exact .refl _
  case dot  => exact .dot _ _

theorem Alike.trans {t u v : Token} (h : Alike t u) (h' : Alike u v) : Alike t v := by
  cases h
  case refl => exact h'
  case dot =>
    cases h'
    case refl => exact .dot _ _
    case dot  => exact .dot _ _

section
variable {quoted : Bool} {c : Char} {xs ys : List Char}

-- No operator has a blank in it, so that a blank after a dot is as good as the end of the line.
theorem ending_dot (rest : List Char) :
    Ending.ofChars ('.' :: rest) = Ending.ofChars ('.' :: (next? rest).toList) := by
  rcases rest with _ | ⟨c, rest⟩
  case nil => rfl
  case cons =>
    cases blank : isBlank c
    case false =>
      rw [next?_of_not_isBlank blank]
      rfl
    case true =>
      have suffix : isBitwiseSuffix c = false := by
        rw [Bool.eq_false_iff]
        intro suffix
        simp only [isBitwiseSuffix, Bool.or_eq_true, decide_eq_true_eq] at suffix
        rcases suffix with (((rfl | rfl) | rfl) | rfl) | rfl <;> contradiction
      have symbol : isArithmeticSymbol c = false := by
        rw [Bool.eq_false_iff]
        intro symbol
        simp only [isArithmeticSymbol, Bool.or_eq_true, decide_eq_true_eq] at symbol
        rcases symbol with ((((rfl | rfl) | rfl) | rfl) | rfl) | rfl <;> contradiction
      have digit : c.isDigit = false :=
        Bool.eq_false_iff.mpr fun h => by simp [not_isBlank_of_isDigit h] at blank
      rw [next?_of_isBlank blank]
      simp [Ending.ofChars, suffix, symbol, digit]

theorem ending_respaced (h : Respaced false xs ys) : Ending.ofChars xs = Ending.ofChars ys := by
  have noDot {xs : List Char} (h : xs.head? ≠ some '.') : Ending.ofChars xs = .plain := by
    fun_cases Ending.ofChars xs <;> simp_all
  by_cases dot : next? xs = some '.'
  case pos =>
    obtain ⟨rest, rfl⟩ := List.head?_eq_some_iff.mp (Option.filter_eq_some_iff.mp dot).1
    obtain ⟨rest', rfl, next⟩ := h.cons rfl
    rw [ending_dot, ending_dot rest', next.next?_eq]
  case neg =>
    have head {xs : List Char} (h : next? xs ≠ some '.') : xs.head? ≠ some '.' :=
      fun eq => h (by rw [next?, eq]; rfl)
    rw [noDot (head dot), noDot (head (h.next?_eq ▸ dot))]

theorem readFloat_respaced (whole : List Char) (h : Respaced false xs ys) :
    readFloat whole xs = readFloat whole ys := by
  obtain ⟨run, rest⟩ := h.takeWhile (p := isWordChar) fun _ => isPlain_of_isWordChar
  simp only [readFloat, run, ending_respaced rest]

theorem readNumber_respaced (h : Respaced false xs ys) : readNumber xs = readNumber ys := by
  obtain ⟨run, rest⟩ := h.takeWhile (p := isWordChar) fun _ => isPlain_of_isWordChar
  simp only [readNumber, run, ending_respaced rest]
  split <;> try rfl
  split <;> try rfl
  split
  case h_1 fraction =>
    obtain ⟨c, after, after_eq, _⟩ := ending_fraction fraction
    rw [after_eq] at rest ⊢
    obtain ⟨after', eq, next⟩ := rest.symm.cons rfl
    rw [eq]
    exact readFloat_respaced _ next.symm
  case h_2 => rfl

theorem readSymbol_next (c : Char) (rest : List Char) :
    (readSymbol c rest).1.Alike (readSymbol c (next? rest).toList).1 ∧
      (readSymbol c rest).2 = (readSymbol c (next? rest).toList).2 := by
  rcases rest with _ | ⟨d, rest⟩
  case nil => exact ⟨.refl _, rfl⟩
  case cons =>
    cases blank : isBlank d
    case false =>
      have same : readSymbol c (d :: rest) = readSymbol c [d] := by
        unfold readSymbol
        split <;> simp_all
      rw [next?_of_not_isBlank blank, same]
      exact ⟨.refl _, rfl⟩
    case true =>
      rw [next?_of_isBlank blank, Option.toList_none]
      unfold readSymbol
      split
      case h_30 => simp_all [Alike.refl]
      all_goals first
        | exact ⟨.dot _ _, rfl⟩
        | exact ⟨.refl _, rfl⟩
        | next eq => cases eq; contradiction

-- Two readings of a token, and what they leave for the next one.
def ReadsAlike (r r' : Token × Nat) (rest rest' : List Char) : Prop :=
  r.1.Alike r'.1 ∧ Respaced false (rest.drop r.2) (rest'.drop r'.2)

theorem readsAlike_of_eq {r r' : Token × Nat} (reaches : Reaches r.2 xs) (eq : r = r')
    (h : Respaced false xs ys) : ReadsAlike r r' xs ys := by
  subst eq
  exact ⟨.refl _, h.drop reaches⟩

theorem readSymbol_respaced (c : Char) (h : Respaced false xs ys) :
    ReadsAlike (readSymbol c xs) (readSymbol c ys) xs ys := by
  obtain ⟨alike, length⟩ := readSymbol_next c xs
  obtain ⟨alike', length'⟩ := readSymbol_next c ys
  rw [← h.next?_eq] at alike' length'
  refine ⟨alike.trans alike'.symm, ?_⟩
  rw [length'.trans length.symm]
  exact h.drop (reaches_of_readSymbol rfl)

theorem readString_append {content : List Char} {closing : Char}
    (quote : ∀ c ∈ content, isQuote c = false) (closes : isQuote closing) (after : List Char) :
    readString (content ++ closing :: after) =
      (string (String.ofList content), content.length + 1) := by
  have inside : ∀ c ∈ content, (!isQuote c) = true := fun c hc => by simp [quote c hc]
  simp [readString, List.takeWhile_append_of_pos inside, List.dropWhile_append_of_pos inside,
    closes]

-- Either both strings lack their end, or they are the same.
theorem readString_cases (h : Respaced true xs ys) :
    (readString xs = (openString, xs.length) ∧ readString ys = (openString, ys.length)) ∨
      (readString xs = readString ys ∧
        Respaced false (xs.drop (readString xs).2) (ys.drop (readString ys).2)) := by
  rcases readString_eq xs with ⟨noQuote, eq⟩ | ⟨content, closing, after, rfl, quote, closes, eq⟩
  case inl =>
    rcases readString_eq ys with ⟨_, eq'⟩ | ⟨content, closing, after, rfl, quote, closes, _⟩
    case inl => exact .inl ⟨eq, eq'⟩
    case inr =>
      obtain ⟨_, rfl, _⟩ := h.symm.string quote closes
      have := noQuote closing (by simp)
      simp [closes] at this
  case inr =>
    obtain ⟨after', rfl, next⟩ := h.string quote closes
    rw [readString_append quote closes, readString_append quote closes]
    refine .inr ⟨rfl, ?_⟩
    rw [← List.drop_drop, ← List.drop_drop, List.drop_left, List.drop_left]
    exact next

theorem readString_respaced (h : Respaced true xs ys) :
    ReadsAlike (readString xs) (readString ys) xs ys := by
  rcases readString_cases h with ⟨eq, eq'⟩ | ⟨eq, next⟩
  case inl =>
    rw [eq, eq']
    exact ⟨.refl _, by simpa using .trailing (by simp) (by simp)⟩
  case inr => exact ⟨eq ▸ .refl _, next⟩

theorem read_respaced (h : Respaced (isQuote c) xs ys) :
    ReadsAlike (read c xs) (read c ys) xs ys := by
  cases quote : isQuote c
  case true =>
    obtain ⟨letter, digit, _⟩ := ordinary_of_isQuote quote
    rw [quote] at h
    simpa [read, letter, digit, quote] using readString_respaced h
  case false =>
    rw [quote] at h
    cases letter : isLetter c
    case true =>
      obtain ⟨word, after⟩ := h.takeWhile (p := isLetter) fun _ => isPlain_of_isLetter
      have called (rest : List Char) : rest.head? = some '(' ↔ next? rest = some '(' := by
        simp [next?, Option.filter_eq_some_iff, show isBlank '(' = false from rfl]
      have same (word : List Char) :
          ofWord word (xs.dropWhile isLetter) = ofWord word (ys.dropWhile isLetter) := by
        simp only [ofWord, called, after.next?_eq]
      refine readsAlike_of_eq (reaches_of_read quote rfl) ?_ h
      simp [read, letter, word, same]
    case false =>
      cases digit : c.isDigit
      case true =>
        refine readsAlike_of_eq (reaches_of_read quote rfl) ?_ h
        have number : Respaced false (c :: xs) (c :: ys) := .char c (by simpa [quote] using h)
        simp [read, letter, digit, readNumber_respaced number]
      case false => simpa [read, letter, digit, quote] using readSymbol_respaced c h

end
end Token
namespace Lexeme

-- The same token for the parser on the same line.
structure Alike (l l' : Lexeme) : Prop where
  token : l.token.Alike l'.token
  start : l.start.line = l'.start.line
  stop  : l.stop.line = l'.stop.line

variable {xs ys : List Char}

theorem ofChars_dropBlanks (place : Location) (chars : List Char) :
    ∃ n, ofChars place 0 chars = ofChars (place.right n) 0 (chars.dropWhile isBlank) := by
  induction chars generalizing place
  case nil => exact ⟨0, rfl⟩
  case cons c chars hi =>
    rw [List.dropWhile_cons]
    split
    case isTrue blank =>
      obtain ⟨n, eq⟩ := hi (place.right 1)
      exact ⟨1 + n, by rw [ofChars, if_pos blank, eq, Location.right_right]⟩
    case isFalse => exact ⟨0, rfl⟩

theorem ofChars_cons {c : Char} (blank : isBlank c = false) (place : Location)
    (rest : List Char) :
    ofChars place 0 (c :: rest) =
      { token := (Token.read c rest).1, start := place
        stop := place.right ((Token.read c rest).2 + 1) } ::
        ofChars (place.right (1 + (Token.read c rest).2)) 0 (rest.drop (Token.read c rest).2) := by
  rw [← Location.right_right place 1, ← ofChars_drop, ofChars, if_neg (by simp [blank])]

theorem alike_ofChars (h : IsRespaced xs ys) (place place' : Location)
    (line : place.line = place'.line) :
    List.Forall₂ Alike (ofChars place 0 xs) (ofChars place' 0 ys) := by
  induction size : xs.length using Nat.strong_induction_on generalizing xs ys place place'
  case h size hi =>
    obtain ⟨n, eq⟩ := ofChars_dropBlanks place xs
    obtain ⟨n', eq'⟩ := ofChars_dropBlanks place' ys
    rw [eq, eq']
    have shorter := (List.dropWhile_sublist isBlank (l := xs)).length_le
    rcases h.cases with ⟨none, none'⟩ | ⟨c, rest, rest', some, some', blank, next⟩
    case inl =>
      rw [none, none']
      exact .nil
    case inr =>
      obtain ⟨alike, next⟩ := Token.read_respaced next
      rw [some, some', ofChars_cons blank, ofChars_cons blank]
      refine .cons ⟨alike, line, line⟩ (hi _ ?_ (next.dropBlanks rfl) _ _ line rfl)
      have drop := (List.drop_sublist (Token.read c rest).2 rest).length_le
      rw [some, List.length_cons] at shorter
      omega

end Lexeme
end WispSyntax

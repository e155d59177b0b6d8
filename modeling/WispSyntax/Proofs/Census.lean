import WispSyntax.Proofs.Lexemes
import WispSyntax.Proofs.Punctuation
import WispSyntax.Proofs.Scopes

/-!
A census of the tokens of a program: the commas, the ends of lines that end an entry of parentheses
where no comma does, and the commas behind the last entry. It takes nothing but the tokens and their
lines.
-/

namespace WispSyntax

-- A name that is called is followed by its parenthesis, on the same line.
theorem Lexeme.not_called_of_getLast? {place : Location} {skip : Nat} {chars : List Char}
    {l : Lexeme} (h : (ofChars place skip chars).getLast? = some l) (text : String) :
    l.token ≠ .name text true := by
  fun_induction ofChars place skip chars
  case case1    => cases h
  case case2 hi => exact hi h
  case case3 hi => exact hi h
  case case4 place c rest blank t more hr hi =>
    rcases eq : ofChars (place.right 1) more rest with _ | ⟨x, xs⟩
    case nil =>
      have whole : ofChars place 0 (c :: rest) = ⟨t, place, place.right (more + 1)⟩ :: [] := by
        rw [ofChars, if_neg blank, hr]
        exact congrArg _ eq
      rw [eq] at h
      cases h
      exact fun called => ne_nil_of_called whole called rfl
    case cons =>
      rw [eq, List.getLast?_cons_cons, ← eq] at h
      exact hi h

-- What is counted along the tokens of a program.
structure Census where
  scopes   : List Scope := []
  last     : Option Token := none
  -- No token of the line has been read
  fresh    : Bool := true
  commas   : Nat := 0
  -- Ends of lines that part two entries without a comma
  breaks   : Nat := 0
  -- Commas after the last entry of their parentheses
  trailing : Nat := 0

namespace Census

-- The line goes on directly inside parentheses, and the line before it has ended an entry there.
def breaksBefore (c : Census) (t : Token) : Bool :=
  c.fresh && c.scopes.head? = some .parentheses && c.last ≠ some .openParen &&
    c.last ≠ some .comma && t ≠ .closeParen

def read (c : Census) (t : Token) : Census where
  scopes   := Scope.pass t c.scopes
  last     := some t
  fresh    := false
  commas   := c.commas + if t = .comma then 1 else 0
  breaks   := c.breaks + if c.breaksBefore t then 1 else 0
  trailing := c.trailing + if c.last = some .comma ∧ t = .closeParen then 1 else 0

def enter (c : Census) : Census :=
  { c with fresh := true }

def readLine (c : Census) (l : SourceLine) : Census :=
  l.lexemes.foldl (fun c x => c.read x.token) c.enter

-- The last token is on the line and may be the end of an entry.
structure Within (c : Census) : Prop where
  fresh : c.fresh = false
  paren : c.last ≠ some .openParen
  comma : c.last ≠ some .comma

theorem within_read (c : Census) {t : Token} (paren : t ≠ .openParen) (comma : t ≠ .comma) :
    (c.read t).Within :=
  ⟨rfl, by simpa [read] using paren, by simpa [read] using comma⟩

theorem free_readLine (c : Census) (l : SourceLine) (fresh : (c.readLine l).fresh = false)
    (text : String) : (c.readLine l).last ≠ some (.name text true) := by
  unfold readLine at *
  rcases List.eq_nil_or_concat l.lexemes with eq | ⟨init, x, eq⟩ <;> rw [eq] at fresh ⊢
  case inl => cases fresh
  case inr =>
    have last : l.lexemes.getLast? = some x := by simp [eq]
    simpa [read] using Lexeme.not_called_of_getLast? last text

end Census

def census (text : String) : Census :=
  (keptLines text).foldl Census.readLine {}

-- The commas of the lines of a text that are read, outside string literals.
def commas (text : String) : Nat :=
  ((keptLines text).flatMap fun l => unquoted false l.text.toList).count ','

theorem commas_foldl (c : Census) (xs : List Lexeme) :
    (xs.foldl (fun c x => c.read x.token) c).commas =
      c.commas + (xs.flatMap (·.token.marks)).count ',' := by
  induction xs generalizing c
  case nil => rfl
  case cons x xs hi =>
    have here : (c.read x.token).commas = c.commas + x.token.marks.count ',' := by
      cases x.token <;> simp [Census.read, Token.marks]
    rw [List.foldl_cons, hi, here, List.flatMap_cons, List.count_append, Nat.add_assoc]

theorem commas_census (text : String) : (census text).commas = commas text := by
  have lines (c : Census) (ls : List SourceLine) : (ls.foldl Census.readLine c).commas =
      c.commas + (ls.flatMap fun l => unquoted false l.text.toList).count ',' := by
    induction ls generalizing c
    case nil => rfl
    case cons l ls hi =>
      have marks := marks_ofChars l.start 0 l.text.toList
      rw [List.drop_zero] at marks
      have line : (c.readLine l).commas = c.commas + (unquoted false l.text.toList).count ',' := by
        rw [Census.readLine, commas_foldl, SourceLine.lexemes, marks, unquotedMarks,
          List.count_filter rfl]
        rfl
      rw [List.foldl_cons, hi, line, List.flatMap_cons, List.count_append, Nat.add_assoc]
  exact (lines {} (keptLines text)).trans (Nat.zero_add _)

end WispSyntax

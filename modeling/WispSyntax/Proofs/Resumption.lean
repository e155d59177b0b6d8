import WispSyntax.Proofs.Agreement

/-!
A session can be asked for a program again, whatever came of it before (`parseProgram_resumes`).
What it keeps of a program that it has given up on makes no difference to the next one.
-/

namespace WispSyntax

open WispSyntax.Parser

theorem Parser.readFrom_ok {q : State} {last : SourceLine} {failure : Option String}
    {lines : List SourceLine} {root : Node} {left : Feed}
    (h : readFrom q last failure lines = (.ok root, left)) : left = { lines := [] } := by
  induction lines generalizing q last
  case nil =>
    cases failure <;> cases unclosed : q.unclosed <;> simp only [readFrom, unclosed] at h <;>
      cases h
    rfl
  case cons l lines hi =>
    rw [readFrom] at h
    split at h
    case h_1 => cases h
    case h_2 => exact hi h

theorem Feed.parse_ok {f left : Feed} {root : Node} (h : f.parse = (.ok root, left)) :
    left = { lines := [] } :=
  readFrom_ok h

theorem Feed.parse_nil :
    Feed.parse { lines := [] } =
      (.ok { kind := .root, location := { line := 1, column := 1 } }, { lines := [] }) :=
  rfl

namespace Session

variable {α : Type} [LineSupplier α]

-- Neither the line that was pulled last nor the place in it is seen by what comes after.
theorem lines_congr {s t : Session α} (supplier : s.supplier = t.supplier)
    (contexts : s.contexts = t.contexts) (n : Nat) (nodes : List Node) :
    (Builder.lines n nodes s).1 = (Builder.lines n nodes t).1 ∧
      (Builder.lines n nodes s).2.supplier = (Builder.lines n nodes t).2.supplier := by
  cases n
  case zero   => exact ⟨rfl, supplier⟩
  case succ n =>
    obtain ⟨a, line, position, open_⟩ := s
    obtain ⟨_, line', position', _⟩ := t
    obtain rfl : a = _ := supplier
    obtain rfl : open_ = _ := contexts
    simp only [Builder.lines, Builder.bind_apply, Builder.nextLine]
    rcases LineSupplier.hasNext a with ⟨_ | _, b⟩
    case false => exact ⟨rfl, rfl⟩
    case true  =>
      simp only
      rcases LineSupplier.advance b with ⟨_ | _ | _, c⟩ <;> exact ⟨rfl, rfl⟩

-- A session that has just begun.
def start (a : α) : Session α where
  supplier := a

-- A session that has been asked for a program so many times.
def after (a : α) : Nat → Session α
  | 0     => start a
  | n + 1 => (parseProgram (after a n)).2

-- Every program that a session is asked for is the one that a new session would find in what is
-- left of the lines, and the lines are used up in the same way. Once there has been a tree, there
-- is nothing left.
structure Resumes (a : α) : Prop where
  result n : (parseProgram (after a n)).1 = (parseProgram (start (after a n).supplier)).1
  supplier n :
    (parseProgram (after a n)).2.supplier = (parseProgram (start (after a n).supplier)).2.supplier
  parse n : (parseProgram (after a n)).1 = (LineSupplier.feed (after a n).supplier).parse.1
  ended {n m root} (ok : (parseProgram (after a n)).1 = .ok root) (later : n < m) :
    (parseProgram (after a m)).1 = .ok { kind := .root, location := { line := 1, column := 1 } }

theorem contexts_after (a : α) (n : Nat) : (after a n).contexts = [] := by
  induction n
  case zero      => rfl
  case succ n hi =>
    rw [← hi]
    exact Builder.moves_lines Builder.stable_contexts _ _ _

variable [LawfulSupplier α] {a : α}

theorem isValid_after (valid : LineSupplier.IsValid a) (n : Nat) :
    LineSupplier.IsValid (after a n).supplier := by
  induction n
  case zero      => exact valid
  case succ n hi =>
    have fits : (after a n).Fits [] ((after a n).size + 1) :=
      { valid := hi, contexts_eq := contexts_after a n, size_lt := Nat.lt_succ_self _ }
    exact (Builder.moves_lines Builder.stable_fits _ _ _ _ _ fits).valid

theorem parse_after (valid : LineSupplier.IsValid a) (n : Nat) :
    (LineSupplier.feed (after a n).supplier).parse =
      ((parseProgram (after a n)).1, LineSupplier.feed (after a (n + 1)).supplier) :=
  (parseProgram_eq (isValid_after valid n) (contexts_after a n)).symm

theorem feed_after {n m : Nat} (valid : LineSupplier.IsValid a)
    (ended : LineSupplier.feed (after a n).supplier = { lines := [] }) (le : n ≤ m) :
    LineSupplier.feed (after a m).supplier = { lines := [] } := by
  induction le
  case refl         => exact ended
  case step m le hi =>
    have parsed := parse_after valid m
    rw [hi, Feed.parse_nil] at parsed
    exact (congrArg Prod.snd parsed).symm

theorem resumes_of_isValid (valid : LineSupplier.IsValid a) : Resumes a where
  result n   := (lines_congr (s := after a n) (t := start _) rfl (contexts_after a n) _ _).1
  supplier n := (lines_congr (s := after a n) (t := start _) rfl (contexts_after a n) _ _).2
  parse n    := (congrArg Prod.fst (parse_after valid n)).symm
  ended      := by
    intro n m root ok later
    have parsed := parse_after valid n
    rw [ok] at parsed
    have empty := feed_after valid (Feed.parse_ok parsed) later
    have parsed := parse_after valid m
    rw [empty, Feed.parse_nil] at parsed
    exact (congrArg Prod.fst parsed).symm

-- The suppliers that there are, in any number of comment filters.
theorem parseProgram_resumes (filters : Nat) :
    (∀ text, Resumes (Filtered.wrap (TextLines.ofText text) filters)) ∧
      ∀ reads, Resumes (Filtered.wrap (ReaderLines.ofReads reads) filters) :=
  ⟨fun _ => resumes_of_isValid (Filtered.isValid_wrap trivial filters),
    fun reads =>
      resumes_of_isValid (Filtered.isValid_wrap (ReaderLines.isValid_ofReads reads) filters)⟩

-- The first program of a session is what the stack makes of the lines that the filters let through.
theorem parseProgram_wrap (valid : LineSupplier.IsValid a) (filters : Nat) :
    (parseProgram (start (Filtered.wrap a filters))).1 =
      ((LineSupplier.feed a).filtered filters).parse.1 := by
  have parsed := parse_after (Filtered.isValid_wrap valid filters) 0
  rw [after, start, Filtered.feed_wrap] at parsed
  exact (congrArg Prod.fst parsed).symm

theorem parseProgram_text (text : String) (filters : Nat) :
    (parseProgram (start (Filtered.wrap (TextLines.ofText text) (filters + 1)))).1 =
      WispSyntax.parse text := by
  rw [parseProgram_wrap trivial, TextLines.feed_ofText, Feed.filtered, WispSyntax.parse]

end Session
end WispSyntax

import WispSyntax.Proofs.Descent

/-!
What all parts of the descent do to a session. They do nothing but go past tokens, pull lines and
enter constructs, which they leave again whatever happens (`stable_contexts`), so that there is
never more left than before (`stable_fits`).
-/

namespace WispSyntax
namespace Builder

open WispSyntax.Parser

variable {α β γ : Type}

-- A relation between sessions that all basic steps keep.
structure Stable [LineSupplier α] (R : Session α → Session α → Prop) : Prop where
  refl (s : Session α) : R s s
  trans {s t u : Session α} : R s t → R t u → R s u
  consume (s : Session α) : R s (consume s).2
  nextLine (s : Session α) : R s (nextLine s).2
  within {s t : Session α} (construct : Construct) :
    R { s with contexts := construct :: s.contexts } t → R s { t with contexts := t.contexts.tail }

-- What a builder does to a session is in the relation, whether it fails or not.
def Moves (R : Session α → Session α → Prop) (x : Builder α β) : Prop :=
  ∀ s, R s (x s).2

-- Nothing is done to the session.
def Still (x : Builder α β) : Prop :=
  ∀ s, (x s).2 = s

section
variable {x : Builder α β} {f : β → Builder α γ}

theorem bind_apply (x : Builder α β) (f : β → Builder α γ) (s : Session α) :
    (x >>= f) s = match x s with
      | (.ok b, s)          => f b s
      | (.error failure, s) => (.error failure, s) :=
  rfl

theorem Still.bind (hx : Still x) (hf : ∀ b, Still (f b)) : Still (x >>= f) := by
  intro s
  have here := hx s
  rw [bind_apply]
  generalize x s = result at here
  rcases result with ⟨_ | b, t⟩
  case error => exact here
  case ok    => exact (hf b t).trans here

variable [LineSupplier α] {R : Session α → Session α → Prop}

theorem Still.moves (hR : Stable R) (h : Still x) : Moves R x := by
  intro s
  rw [h s]
  exact hR.refl s

namespace Moves

theorem bind (hR : Stable R) (hx : Moves R x) (hf : ∀ b, Moves R (f b)) : Moves R (x >>= f) := by
  intro s
  have here := hx s
  rw [bind_apply]
  generalize x s = result at here
  rcases result with ⟨_ | b, t⟩
  case error => exact here
  case ok    => exact hR.trans here (hf b t)

end Moves
end

theorem still_pure (b : β) : Still (pure b : Builder α β) :=
  fun _ => rfl

theorem still_reject (fault : Fault) (place : Location) :
    Still (reject fault place : Builder α β) :=
  fun _ => rfl

theorem still_peek : Still (peek : Builder α _) :=
  fun _ => rfl

theorem still_takeLeft (family : Family) (place : Location) (nodes : List Node) :
    Still (takeLeft family place nodes : Builder α _) := by
  unfold takeLeft
  split
  · exact still_reject _ _
  · split
    · exact still_pure _
    · exact still_reject _ _

theorem still_separator : Still (separator : Builder α _) := by
  unfold separator
  refine still_peek.bind fun next => ?_
  split
  · exact still_pure _
  · split
    · exact still_pure _
    · exact still_reject _ _

section
variable [LineSupplier α] {R : Session α → Session α → Prop} (hR : Stable R)
include hR

theorem moves_eat (token : Token) : Moves R (eat token) := by
  refine .bind hR (fun _ => hR.refl _) fun next => ?_
  split
  · exact fun _ => hR.refl _
  · split
    · exact .bind hR hR.consume fun _ => fun _ => hR.refl _
    · exact fun _ => hR.refl _

theorem moves_skipToToken (construct : Construct) (steps : Nat) :
    Moves R (skipToToken construct steps) := by
  induction steps
  case zero => exact fun _ => hR.refl _
  case succ steps hi =>
    refine .bind hR (fun _ => hR.refl _) fun next => ?_
    split
    · exact fun _ => hR.refl _
    · refine .bind hR hR.nextLine fun more => ?_
      split
      · exact hi
      · exact .bind hR (fun _ => hR.refl _) fun _ => fun _ => hR.refl _

theorem moves_within (construct : Construct) {x : Builder α β} (hx : Moves R x) :
    Moves R (within construct x) :=
  fun _ => hR.within construct (hx _)

theorem moves_closeEntry (paired : Bool) (place : Location) (entry : List Node) :
    Moves R (closeEntry paired place entry) := by
  unfold closeEntry
  have eaten : Moves R (eat .comma >>= fun _ => pure ()) :=
    (moves_eat hR _).bind hR fun _ => fun _ => hR.refl _
  split
  · exact .bind hR (fun _ => hR.refl _) fun _ => fun _ => hR.refl _
  · split
    · exact fun _ => hR.refl _
    · split
      · exact (still_separator.moves hR).bind hR fun _ => eaten
      · exact eaten

variable {expressions : Budget → Builder α (List Node)}
variable (he : ∀ budget, Moves R (expressions budget))
include he

theorem moves_rightOperand (op : Operator) : Moves R (rightOperand expressions op) := by
  refine .bind hR (fun _ => hR.refl _) fun next => ?_
  split
  · exact .bind hR (fun _ => hR.refl _) fun _ => fun _ => hR.refl _
  · refine .bind hR (he _) fun nodes => ?_
    split
    · exact .bind hR (fun _ => hR.refl _) fun _ => fun _ => hR.refl _
    · split
      · exact fun _ => hR.refl _
      · exact fun _ => hR.refl _

theorem moves_typing (l : Lexeme) (nodes : List Node) : Moves R (typing expressions l nodes) := by
  refine ((still_takeLeft _ _ _).moves hR).bind hR fun left => ?_
  refine .bind hR hR.consume fun _ => .bind hR (fun _ => hR.refl _) fun next => ?_
  split
  · exact fun _ => hR.refl _
  · refine .bind hR (fun _ => hR.refl _) fun open_ => ?_
    split
    · exact fun _ => hR.refl _
    · refine .bind hR (he _) fun nodes => ?_
      split
      · exact fun _ => hR.refl _
      · split
        · exact fun _ => hR.refl _
        · exact fun _ => hR.refl _

theorem moves_content (steps n : Nat) (nodes : List Node) :
    Moves R (content expressions steps n nodes) := by
  induction n generalizing nodes
  case zero => exact fun _ => hR.refl _
  case succ n hi =>
    refine (moves_skipToToken hR _ _).bind hR fun _ => (moves_eat hR _).bind hR fun closed => ?_
    split
    · exact fun _ => hR.refl _
    · exact .bind hR (he _) fun more => hi _

theorem moves_block (steps : Nat) : Moves R (block expressions steps) := by
  refine .bind hR (fun _ => hR.refl _) fun place => (moves_eat hR _).bind hR fun opened => ?_
  split
  · exact .bind hR (moves_within hR _ (moves_content hR he _ _ _)) fun _ => fun _ => hR.refl _
  · exact fun _ => hR.refl _

theorem moves_entries (steps : Nat) (paired : Bool) (n : Nat) (done : List (List Node)) :
    Moves R (entries expressions steps paired n done) := by
  induction n generalizing done
  case zero => exact fun _ => hR.refl _
  case succ n hi =>
    refine (moves_skipToToken hR _ _).bind hR fun _ => (moves_eat hR _).bind hR fun closed => ?_
    split
    · exact fun _ => hR.refl _
    · exact .bind hR (fun _ => hR.refl _) fun place => .bind hR (he _) fun entry =>
        (moves_closeEntry hR _ _ _).bind hR fun _ => hi _

theorem moves_list (steps : Nat) : Moves R (list expressions steps) := by
  refine .bind hR (fun _ => hR.refl _) fun open_ => ?_
  split
  · exact moves_entries hR he _ _ _ _
  · exact moves_within hR _ (moves_entries hR he _ _ _ _)

theorem moves_group (steps : Nat) : Moves R (group expressions steps) := by
  refine .bind hR (fun _ => hR.refl _) fun place => (moves_eat hR _).bind hR fun opened => ?_
  split
  · exact .bind hR (moves_list hR he _) fun _ _ => hR.refl _
  · exact fun _ => hR.refl _

theorem moves_name : Moves R (name expressions) := by
  refine .bind hR (he _) fun nodes => ?_
  split
  · exact .bind hR (fun _ => hR.refl _) fun _ => fun _ => hR.refl _
  · split
    · exact fun _ => hR.refl _
    · exact fun _ => hR.refl _

theorem moves_function (steps : Nat) (place : Location) :
    Moves R (function expressions steps place) :=
  moves_within hR _ <| .bind hR (moves_name hR he) fun _ =>
    (moves_skipToToken hR _ _).bind hR fun _ => (moves_group hR he _).bind hR fun _ =>
    (moves_skipToToken hR _ _).bind hR fun _ => (moves_block hR he _).bind hR fun _ =>
    fun _ => hR.refl _

theorem moves_item (steps : Nat) (l : Lexeme) (nodes : List Node) :
    Moves R (item expressions steps l nodes) := by
  unfold item
  split
  case h_1 =>
    refine .bind hR (fun _ => hR.refl _) fun open_ => ?_
    split
    · exact fun _ => hR.refl _
    · exact .bind hR hR.consume fun _ => .bind hR (moves_function hR he _ _) fun _ _ => hR.refl _
  case h_2 => exact .bind hR hR.consume fun _ _ => hR.refl _
  case h_3 =>
    refine .bind hR hR.consume fun _ => .bind hR (fun _ => hR.refl _) fun open_ => ?_
    split
    · exact .bind hR (moves_group hR he _) fun _ _ => hR.refl _
    · exact fun _ => hR.refl _
  case h_4 | h_5 => exact .bind hR hR.consume fun _ _ => hR.refl _
  case h_6 =>
    exact .bind hR hR.consume fun _ => .bind hR (moves_rightOperand hR he _) fun _ _ => hR.refl _
  case h_7 => exact moves_typing hR he _ _
  case h_8 =>
    exact ((still_takeLeft _ _ _).moves hR).bind hR fun _ => .bind hR hR.consume fun _ =>
      .bind hR (moves_rightOperand hR he _) fun _ _ => hR.refl _
  case h_9 =>
    refine ((still_takeLeft _ _ _).moves hR).bind hR fun left => .bind hR hR.consume fun _ => ?_
    split <;> exact fun _ => hR.refl _
  case h_10 => exact .bind hR (moves_block hR he _) fun _ _ => hR.refl _
  case h_11 => exact .bind hR (moves_group hR he _) fun _ _ => hR.refl _
  case h_17 =>
    refine ((still_takeLeft _ _ _).moves hR).bind hR fun left => ?_
    split <;> exact fun _ => hR.refl _
  case h_18 => exact ((still_takeLeft _ _ _).moves hR).bind hR fun _ _ => hR.refl _
  all_goals exact fun _ => hR.refl _

end

section
variable [LineSupplier α] {R : Session α → Session α → Prop} (hR : Stable R)
include hR

theorem moves_dispatch (steps : Nat) (budget : Budget) (nodes : List Node) :
    Moves R (dispatch steps budget nodes) := by
  induction steps generalizing budget nodes
  case zero => exact fun _ => hR.refl _
  case succ steps hi =>
    unfold dispatch
    split
    · exact fun _ => hR.refl _
    · refine .bind hR (fun _ => hR.refl _) fun next => ?_
      split
      · exact fun _ => hR.refl _
      · refine .bind hR (fun _ => hR.refl _) fun open_ => ?_
        split
        · exact fun _ => hR.refl _
        · exact .bind hR (moves_item hR (fun budget => hi budget []) _ _ _) fun _ => hi _ _

theorem moves_lines (steps : Nat) (nodes : List Node) : Moves R (lines steps nodes) := by
  induction steps generalizing nodes
  case zero => exact fun _ => hR.refl _
  case succ steps hi =>
    refine .bind hR hR.nextLine fun more => ?_
    split
    · exact .bind hR (moves_dispatch hR _ _ _) fun _ => hi _
    · exact fun _ => hR.refl _

end

-- Every construct that is entered is left again, on every way out.
theorem stable_contexts [LineSupplier α] :
    Stable fun s t : Session α => t.contexts = s.contexts where
  refl _        := rfl
  trans h h'    := h'.trans h
  consume _     := rfl
  nextLine s    := by
    unfold nextLine
    split
    · rfl
    · split <;> rfl
  within _ h    := by
    simp only [h, List.tail_cons]

end Builder

theorem Lexeme.ofChars_eq_cons {place : Location} {chars : List Char} {l : Lexeme}
    {lexemes : List Lexeme} (h : ofChars place 0 chars = l :: lexemes) :
    ∃ n, l.stop = place.right n ∧ lexemes = ofChars (place.right n) 0 (chars.drop n) := by
  induction chars generalizing place
  case nil => cases h
  case cons c chars hi =>
    rw [ofChars] at h
    split at h
    case isTrue =>
      obtain ⟨n, stop, rest⟩ := hi h
      rw [Location.right_right] at stop rest
      exact ⟨1 + n, stop, by rw [rest, Nat.add_comm 1 n, List.drop_succ_cons]⟩
    case isFalse =>
      obtain ⟨rfl, rfl⟩ := List.cons.inj h
      refine ⟨_, rfl, ?_⟩
      rw [ofChars_drop, Location.right_right, Nat.add_comm 1, List.drop_succ_cons]

namespace Session

variable {α : Type}

theorem rest_consume (s : Session α) : (Builder.consume s).2.rest = s.rest.tail := by
  rcases rest_eq : s.rest with _ | ⟨l, lexemes⟩
  case nil =>
    have still : (Builder.consume s).2 = s := by simp [Builder.consume, rest_eq]
    rw [still, rest_eq, List.tail_nil]
  case cons =>
    obtain ⟨n, stop, rest⟩ := Lexeme.ofChars_eq_cons rest_eq
    have column : l.stop.column - 1 = s.position + n := by
      rw [stop]
      simp only [Location.right, SourceLine.start]
      omega
    simp only [Builder.consume, rest_eq, List.head?_cons, Option.elim_some, column,
      List.tail_cons]
    rw [rest, Location.right_right, List.drop_drop]
    rfl

variable [LineSupplier α]

-- How many tokens and lines are left.
def size (s : Session α) : Nat :=
  s.rest.length + (LineSupplier.feed s.supplier).size

-- The session is inside of these constructs, and there is less than the given size left.
structure Fits (s : Session α) (contexts : List Construct) (n : Nat) : Prop where
  valid       : LineSupplier.IsValid s.supplier
  contexts_eq : s.contexts = contexts
  size_lt     : s.size < n

namespace Fits

variable {s : Session α} {contexts : List Construct} {n : Nat}

theorem mono {m : Nat} (h : s.Fits contexts m) (le : m ≤ n) : s.Fits contexts n :=
  { h with size_lt := Nat.lt_of_lt_of_le h.size_lt le }

theorem exists_succ (h : s.Fits contexts n) : ∃ m, n = m + 1 :=
  Nat.exists_eq_succ_of_ne_zero (Nat.ne_zero_of_lt h.size_lt)

theorem consume {l : Lexeme} {lexemes : List Lexeme} (h : s.Fits contexts (n + 1))
    (rest_eq : s.rest = l :: lexemes) : (Builder.consume s).2.Fits contexts n where
  valid       := h.valid
  contexts_eq := h.contexts_eq
  size_lt     := by
    have size_lt := h.size_lt
    rw [size, rest_eq, List.length_cons] at size_lt
    change (Builder.consume s).2.rest.length + (LineSupplier.feed s.supplier).size < n
    rw [rest_consume, rest_eq, List.tail_cons]
    omega

theorem enter (h : s.Fits contexts n) (construct : Construct) :
    { s with contexts := construct :: s.contexts : Session α }.Fits (construct :: contexts) n where
  valid       := h.valid
  contexts_eq := by rw [h.contexts_eq]
  size_lt     := h.size_lt

theorem leave {construct : Construct} (h : s.Fits (construct :: contexts) n) :
    { s with contexts := s.contexts.tail : Session α }.Fits contexts n where
  valid       := h.valid
  contexts_eq := by rw [h.contexts_eq, List.tail_cons]
  size_lt     := h.size_lt

end Fits
end Session

namespace Builder

variable {α β : Type} [LineSupplier α] {s : Session α}

-- What pulling a line comes to.
inductive Pulls (s : Session α) : Except Failure Bool × Session α → Prop
  | line {l lines failure supplier} (before : LineSupplier.feed s.supplier = ⟨l :: lines, failure⟩)
      (after : LineSupplier.feed supplier = ⟨lines, failure⟩)
      (valid : LineSupplier.IsValid supplier) :
      Pulls s (.ok true, { s with supplier, line := l, position := 0 })
  | failed {reason supplier} (before : LineSupplier.feed s.supplier = ⟨[], some reason⟩)
      (after : LineSupplier.feed supplier = ⟨[], none⟩) (valid : LineSupplier.IsValid supplier) :
      Pulls s (.error (.unreadable reason), { s with supplier })
  | ended {supplier} (before : LineSupplier.feed s.supplier = ⟨[], none⟩)
      (after : LineSupplier.feed supplier = ⟨[], none⟩) (valid : LineSupplier.IsValid supplier) :
      Pulls s (.ok false, { s with supplier })

variable [LawfulSupplier α]

theorem pulls_nextLine (valid : LineSupplier.IsValid s.supplier) : Pulls s (nextLine s) := by
  obtain ⟨b, asked, feed_b, valid_b⟩ := exists_hasNext valid
  obtain ⟨c, advanced, feed_c, valid_c⟩ := exists_advance valid_b
  rw [feed_b] at advanced feed_c
  rcases before : LineSupplier.feed s.supplier with ⟨_ | ⟨l, lines⟩, failure⟩
  case nil =>
    cases failure
    case none =>
      have eq : nextLine s = (.ok false, { s with supplier := b }) := by
        simp [nextLine, asked, before, Feed.hasNext]
      rw [eq]
      exact .ended before (feed_b.trans before) valid_b
    case some reason =>
      have eq : nextLine s = (.error (.unreadable reason), { s with supplier := c }) := by
        simp [nextLine, asked, advanced, before, Feed.hasNext, Feed.pull, handOut]
      rw [eq]
      exact .failed before (by rw [feed_c, before, Feed.pull]) valid_c
  case cons =>
    have eq : nextLine s = (.ok true, { s with supplier := c, line := l, position := 0 }) := by
      simp [nextLine, asked, advanced, before, Feed.hasNext, Feed.pull, handOut]
    rw [eq]
    exact .line before (by rw [feed_c, before, Feed.pull]) valid_c

end Builder

theorem Session.rest_line {α : Type} (s : Session α) (supplier : α) (l : SourceLine) :
    { s with supplier, line := l, position := 0 : Session α }.rest = l.lexemes :=
  rfl

namespace Session.Fits

variable {α : Type} [LineSupplier α] {s : Session α} {contexts : List Construct} {n : Nat}

theorem of_line {supplier : α} {l : SourceLine} {lines : List SourceLine} {failure : Option String}
    (contexts_eq : s.contexts = contexts) (size_lt : (LineSupplier.feed s.supplier).size < n + 1)
    (before : LineSupplier.feed s.supplier = ⟨l :: lines, failure⟩)
    (after : LineSupplier.feed supplier = ⟨lines, failure⟩)
    (valid : LineSupplier.IsValid supplier) :
    { s with supplier, line := l, position := 0 : Session α }.Fits contexts n where
  valid       := valid
  contexts_eq := contexts_eq
  size_lt     := by
    simp only [before, Feed.size, List.foldr_cons] at size_lt
    simp only [size, rest_line, after, Feed.size]
    omega

theorem line {supplier : α} {l : SourceLine} {lines : List SourceLine} {failure : Option String}
    (h : s.Fits contexts (n + 1)) (before : LineSupplier.feed s.supplier = ⟨l :: lines, failure⟩)
    (after : LineSupplier.feed supplier = ⟨lines, failure⟩)
    (valid : LineSupplier.IsValid supplier) :
    { s with supplier, line := l, position := 0 : Session α }.Fits contexts n :=
  of_line h.contexts_eq (Nat.lt_of_le_of_lt (Nat.le_add_left _ _) h.size_lt) before after valid

theorem drained {supplier : α} (h : s.Fits contexts n)
    (after : LineSupplier.feed supplier = ⟨[], none⟩) (valid : LineSupplier.IsValid supplier) :
    { s with supplier : Session α }.Fits contexts n where
  valid       := valid
  contexts_eq := h.contexts_eq
  size_lt     := by
    have size_lt := h.size_lt
    simp only [size, after] at size_lt ⊢
    exact Nat.lt_of_le_of_lt (Nat.add_le_add_left (Nat.zero_le _) _) size_lt

end Session.Fits

namespace Builder

-- What is left only gets less.
theorem stable_fits {α : Type} [LineSupplier α] [LawfulSupplier α] :
    Stable fun s t : Session α => ∀ contexts n, s.Fits contexts n → t.Fits contexts n where
  refl _ _ _ h               := h
  trans h h' contexts n fits := h' contexts n (h contexts n fits)
  consume s contexts n h     := by
    rcases rest_eq : s.rest with _ | ⟨l, lexemes⟩
    case nil =>
      have still : (consume s).2 = s := by simp [consume, rest_eq]
      rw [still]
      exact h
    case cons =>
      cases n
      case zero   => exact absurd h.size_lt (Nat.not_lt_zero _)
      case succ n => exact (h.consume rest_eq).mono (Nat.le_succ n)
  nextLine s contexts n h    := by
    have pulls := pulls_nextLine h.valid
    generalize nextLine s = pulled at pulls
    cases pulls
    case line before after valid =>
      cases n
      case zero   => exact absurd h.size_lt (Nat.not_lt_zero _)
      case succ n => exact (h.line before after valid).mono (Nat.le_succ n)
    case failed after valid => exact h.drained after valid
    case ended after valid  => exact h.drained after valid
  within construct h contexts n fits :=
    (h _ n (fits.enter construct)).leave

end Builder
end WispSyntax

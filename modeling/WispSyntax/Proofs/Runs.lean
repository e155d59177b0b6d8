import WispSyntax.Proofs.Progress

/-!
What each part of the descent without tokens does to a session, whether it fails or not, what it may
fail for, and what it comes to if it does not (`Runs`). As each of them takes up something of the
input, the turns and the levels that there are suffice.
-/

namespace WispSyntax

open WispSyntax.Parser

variable {α β γ σ : Type}

namespace Cursor

theorem eat_apply (c : Char) (s : Session (Recorded α)) :
    eat c s = if s.ahead.head? = some c then (.ok true, s.past 1) else (.ok false, s) := by
  change (if s.ahead.head? = some c then (pass 1 >>= fun _ => pure true : Reading α Bool)
    else pure false) s = _
  split <;> rfl

theorem advance_of_nil {s : Session (Recorded α)} (ended : s.ahead = []) :
    advance s = (.ok none, s) := by
  rw [advance, Builder.bind_apply]
  simp only [peek, ended]
  rfl

theorem advance_of_cons {s : Session (Recorded α)} {c : Char} {rest : List Char}
    (ahead_eq : s.ahead = c :: rest) : advance s = (.ok (some c), s.past 1) := by
  rw [advance, Builder.bind_apply]
  simp only [peek, ahead_eq]
  rfl

-- A line is pulled with or without a record.
theorem nextLine_eq [LineSupplier α] (s : Session (Recorded α)) :
    Builder.nextLine s =
      ((Builder.nextLine s.plain).1, (Builder.nextLine s.plain).2.recorded s.events) := by
  have asks (r : Recorded α) : LineSupplier.hasNext r =
      ((LineSupplier.hasNext r.supplier).1,
        { r with supplier := (LineSupplier.hasNext r.supplier).2 }) :=
    rfl
  have pulls (r : Recorded α) : LineSupplier.advance r =
      ((LineSupplier.advance r.supplier).1,
        { r with supplier := (LineSupplier.advance r.supplier).2 }) :=
    rfl
  unfold Builder.nextLine Session.plain
  rw [asks]
  rcases LineSupplier.hasNext s.supplier.supplier with ⟨_ | _, supplier⟩
  case false => rfl
  case true  =>
    simp only [pulls]
    rcases LineSupplier.advance supplier with ⟨_ | _ | _, supplier⟩ <;> rfl

-- A supplier fails with words of its own.
theorem unreadable_of_nextLine [LineSupplier α] {s : Session α} {failure : Failure}
    (h : (Builder.nextLine s).1 = .error failure) : ∃ reason, failure = .unreadable reason := by
  unfold Builder.nextLine at h
  rcases asked : LineSupplier.hasNext s.supplier with ⟨_ | _, supplier⟩ <;> rw [asked] at h
  case false => cases h
  case true  =>
    rcases advanced : LineSupplier.advance supplier with ⟨reason | _ | line, supplier⟩
    all_goals
      simp only [advanced] at h
      cases h
    exact ⟨reason, rfl⟩

end Cursor

theorem Cursor.closes_block (c : Char) : closes (some .block) c ↔ c = '}' := by
  unfold closes
  split <;> simp_all

theorem Cursor.closes_entry {innermost : Construct}
    (h : innermost = .group ∨ innermost = .declaration) (c : Char) :
    closes (some innermost) c ↔ c = ')' ∨ c = ',' := by
  unfold closes
  rcases h with rfl | rfl <;> split <;> simp_all

-- The characters that an operator on numbers begins with.
def Cursor.isMathSymbol (c : Char) : Bool :=
  Token.isArithmeticSymbol c || c = '.'

-- A fault that no program has is what a way ends in that no input leads to.
def Failure.IsDue (P : Event → Prop) : Failure → Prop
  | rejected fault _ _          => fault.occurs ∨ ∃ arm, P (.fellThrough arm)
  | unopened _ _ | unreadable _ => True

-- What a part of the descent does to a session, whether it fails or not, what it may fail for, and
-- what holds of its result and of the session afterwards if it does not.
structure Runs [LineSupplier α] (P : Event → Prop) (x : Reading α β) (s : Session (Recorded α))
    (Q : β → Session (Recorded α) → Prop) : Prop where
  goes    : s.Goes P (x s).2
  fails   : ∀ failure, (x s).1 = .error failure → failure.IsDue P
  ensures : ∀ b, (x s).1 = .ok b → Q b (x s).2

-- What a turn of a loop with an invariant comes to.
def Taken [LineSupplier α] (I : σ → Session (Recorded α) → Prop)
    (Q : β → Session (Recorded α) → Prop) (s : Session (Recorded α)) :
    Turn σ β → Session (Recorded α) → Prop
  | .leave result, t => Q result t
  | .again next,   t => I next t ∧ s.Spends t

namespace Runs

open Builder (reject contexts within nextLine stuck takeLeft)
open Cursor

section
variable [LineSupplier α] {P : Event → Prop} {x : Reading α β} {f : β → Reading α γ}
variable {s t : Session (Recorded α)} {Q : β → Session (Recorded α) → Prop}
variable {R : γ → Session (Recorded α) → Prop}

theorem mono {Q' : β → Session (Recorded α) → Prop} (h : Runs P x s Q)
    (imp : ∀ b t, s.Goes P t → Q b t → Q' b t) : Runs P x s Q' where
  goes        := h.goes
  fails       := h.fails
  ensures b r := imp b _ h.goes (h.ensures b r)

theorem pure {b : β} (h : Q b s) : Runs P (Pure.pure b) s Q where
  goes  := .refl s
  fails := nofun
  ensures
    | _, rfl => h

theorem failed {failure : Failure} (h : x s = (.error failure, s)) (due : failure.IsDue P) :
    Runs P x s Q where
  goes := by
    rw [h]
    exact .refl s
  fails _ r := by
    rw [h] at r
    cases r
    exact due
  ensures b r := by
    rw [h] at r
    cases r

theorem reject (fault : Fault) (place : Location) (occurs : fault.occurs) :
    Runs P (Builder.reject fault place) s Q :=
  failed rfl (.inl occurs)

theorem bind (hx : Runs P x s Q) (hf : ∀ b t, s.Goes P t → Q b t → Runs P (f b) t R) :
    Runs P (x >>= f) s R := by
  obtain ⟨goes, fails, ensures⟩ := hx
  rcases step : x s with ⟨failure | b, t⟩ <;> rw [step] at goes fails ensures
  case error =>
    have eq : (x >>= f) s = (.error failure, t) := by rw [Builder.bind_apply, step]
    refine ⟨by rwa [eq], fun _ r => ?_, fun b r => ?_⟩ <;> rw [eq] at r <;> cases r
    exact fails failure rfl
  case ok =>
    have eq : (x >>= f) s = f b t := by rw [Builder.bind_apply, step]
    obtain ⟨goes', fails', ensures'⟩ := hf b t goes (ensures b rfl)
    exact ⟨by rw [eq]; exact goes.trans goes', by rwa [eq], by rwa [eq]⟩

-- What goes on without a choice.
theorem step {b : β} (hx : x s = (.ok b, t)) (goes : s.Goes P t) (h : Runs P (f b) t R) :
    Runs P (x >>= f) s R := by
  refine bind (Q := fun b' t' => b' = b ∧ t' = t) ⟨by rwa [hx], ?_, ?_⟩ ?_
  · rw [hx]
    exact nofun
  · rw [hx]
    rintro _ ⟨⟩
    exact ⟨rfl, rfl⟩
  · rintro _ _ _ ⟨rfl, rfl⟩
    exact h

-- What only looks.
theorem look {b : β} (hx : x s = (.ok b, s)) (h : Runs P (f b) s R) : Runs P (x >>= f) s R :=
  step hx (.refl s) h

theorem rejectHere {fault : Fault} (occurs : fault.occurs) :
    Runs P (Cursor.here >>= Builder.reject fault) s Q :=
  look rfl (reject _ _ occurs)

theorem pass {n : Nat} {f : Unit → Reading α γ} (h : Runs P (f ()) (s.past n) R) :
    Runs P (Cursor.pass n >>= f) s R :=
  step rfl (.past s n) h

theorem note {event : Session (Recorded α) → Event} {f : Unit → Reading α γ}
    (fits : s.Holds P → P (event s)) (h : Runs P (f ()) (s.noting (event s)) R) :
    Runs P (Cursor.note event >>= f) s R :=
  step rfl (.noting fits) h

theorem takeWhile {p : Char → Bool} {f : List Char → Reading α γ}
    (h : Runs P (f (s.ahead.takeWhile p)) (s.past (s.ahead.takeWhile p).length) R) :
    Runs P (Cursor.takeWhile p >>= f) s R :=
  step rfl (.past s _) h

theorem skipBlanks {f : Unit → Reading α γ} (h : Runs P (f ()) s.skipped R) :
    Runs P (Cursor.skipBlanks >>= f) s R :=
  step rfl (.past s _) h

theorem eat {c : Char} {f : Bool → Reading α γ} (no : s.ahead.head? ≠ some c → Runs P (f false) s R)
    (yes : s.ahead.head? = some c → Runs P (f true) (s.past 1) R) :
    Runs P (Cursor.eat c >>= f) s R := by
  have result := eat_apply c s
  split at result
  case isTrue next  => exact step result (.past s 1) (yes next)
  case isFalse next => exact look result (no next)

theorem advance {f : Option Char → Reading α γ}
    (ended : s.ahead = [] → Runs P (f none) s R)
    (next : ∀ c rest, s.ahead = c :: rest → Runs P (f (some c)) (s.past 1) R) :
    Runs P (Cursor.advance >>= f) s R := by
  rcases ahead_eq : s.ahead with _ | ⟨c, rest⟩
  case nil  => exact look (advance_of_nil ahead_eq) (ended ahead_eq)
  case cons => exact step (advance_of_cons ahead_eq) (.past s 1) (next c rest ahead_eq)

theorem takeLeft {family : Family} {place : Location} {nodes : List Node}
    {f : Node × List Node → Reading α γ}
    (h : ∀ lhs rest, nodes = lhs :: rest → Runs P (f (lhs, rest)) s R) :
    Runs P (Builder.takeLeft family place nodes >>= f) s R := by
  unfold Builder.takeLeft
  split
  case h_1      => exact bind (reject _ _ rfl) fun _ _ _ => False.elim
  case h_2 lhs rest =>
    split
    case isTrue  => exact look rfl (h lhs rest rfl)
    case isFalse => exact bind (reject _ _ rfl) fun _ _ _ => False.elim

theorem inside {construct : Construct}
    (enters : P (.moved s.contexts) → P (.moved (construct :: s.contexts)))
    (h : Runs P x (s.entered construct) fun b t => Q b t.exited) :
    Runs P (Cursor.inside construct x) s Q where
  goes    := .leave enters h.goes
  fails   := h.fails
  ensures := h.ensures

theorem exhausted (h : P .exhausted) : Runs P (Cursor.exhausted : Reading α β) s Q :=
  note (fun _ => h) (failed rfl trivial)

theorem fallThrough {arm : Arm} {fault : Fault} {place : Location} (h : P (.fellThrough arm)) :
    Runs P (Cursor.fallThrough arm fault place : Reading α β) s Q :=
  note (fun _ => h) (failed rfl (.inr ⟨arm, h⟩))

-- As long as each turn that is not the last one takes up something, there are enough.
theorem loop {turn : σ → Reading α (Turn σ β)} {I : σ → Session (Recorded α) → Prop} {y : σ}
    (calm : P .exhausted ∨ s.IsLawful) (start : I y s)
    (turns : ∀ y t, s.Goes P t → I y t → Runs P (turn y) t (Taken I Q t)) :
    Runs P (Cursor.loop turn y) s Q := by
  have run (n : Nat) (y : σ) (t : Session (Recorded α)) (goes : s.Goes P t) (inv : I y t)
      (enough : t.Enough P n) : Runs P (Cursor.turns turn n y) t Q := by
    induction n generalizing y t
    case zero =>
      refine exhausted (enough.elim id fun ⟨_, lt⟩ => ?_)
      exact absurd lt (Nat.not_lt_zero _)
    case succ n hi =>
      refine (turns y t goes inv).bind fun result u further taken => ?_
      cases result
      case leave => exact pure taken
      case again => exact hi _ u (goes.trans further) taken.1 (enough.spends taken.2)
  have all := run _ y s (.refl s) start (calm.imp_right (⟨·, Nat.lt_succ_self _⟩))
  exact ⟨all.goes, all.fails, all.ensures⟩

end

section
variable [LineSupplier α] {P : Event → Prop} {s : Session (Recorded α)} {n : Nat}

theorem pullLine : Runs P Cursor.pullLine s fun more t => more = true → s.Spends t := by
  suffices pulled : Runs P nextLine s fun more t => more = true → s.Spends t from
    pulled.bind fun more t _ spends =>
      note (fun holds => holds.moved) (pure fun again => (spends again).noting)
  have contexts_eq : (nextLine s.plain).2.contexts = s.contexts :=
    Builder.stable_contexts.nextLine s.plain
  have pulls (lawful : s.IsLawful) : Builder.Pulls s.plain (nextLine s.plain) :=
    have := lawful.1
    Builder.pulls_nextLine lawful.2
  refine ⟨?goes, ?fails, ?ensures⟩ <;> rw [nextLine_eq]
  case goes =>
    exact ⟨contexts_eq, fun holds => holds.events,
      fun lawful => ⟨lawful.1, (pulls lawful).isValid⟩, fun lawful => (pulls lawful).left_le,
      fun lawful => (pulls lawful).amount_le⟩
  case fails =>
    intro failure failed
    obtain ⟨reason, rfl⟩ := unreadable_of_nextLine failed
    trivial
  case ensures =>
    rintro _ result rfl
    exact ⟨fun lawful => ⟨lawful.1, (pulls lawful).isValid⟩,
      fun lawful => (pulls lawful).left_lt result, fun lawful => (pulls lawful).amount_lt result⟩

theorem skipTurn (construct : Construct) :
    Runs P (Cursor.skipTurn construct ()) s
      (Taken (fun _ _ => True) (fun _ t => t.Ready) s) := by
  refine skipBlanks (look rfl ?_)
  split
  case isTrue some =>
    obtain ⟨c, next⟩ := Option.isSome_iff_exists.mp some
    exact pure (Session.ready_of_skipped next)
  case isFalse =>
    refine pullLine.bind fun more u _ spends => ?_
    split
    case isTrue again => exact pure ⟨trivial, (spends again).before⟩
    case isFalse      => exact rejectHere rfl

theorem skipToToken (construct : Construct) (calm : P .exhausted ∨ s.IsLawful) :
    Runs P (Cursor.skipToToken construct) s fun _ t => t.Ready :=
  loop (I := fun _ _ => True) calm trivial fun _ _ _ _ => skipTurn construct

end

section
variable [LineSupplier α] {P : Event → Prop} {s : Session (Recorded α)} {place : Location}

-- A digit that stands first is taken, whatever comes after it.
theorem move_of_isDigit {c : Char} (digit : c.isDigit) (next : Option Char) :
    Token.Guess.move [] c next .integer = .take .integer := by
  have noLetter : isLetter c = false := not_isLetter_of_isDigit digit
  simp [Token.Guess.move, Token.isWordChar, digit, Token.Guess.atWordChar, noLetter]

theorem number (calm : P .exhausted ∨ s.IsLawful) :
    Runs P Cursor.number s fun _ t => (∃ c ∈ s.ahead.head?, c.isDigit) → s.Spends t := by
  refine look rfl ?_
  refine bind (Q := fun _ t => (∃ c ∈ s.ahead.head?, c.isDigit) → s.Spends t) ?_
    fun result t _ spends => ?_
  case refine_1 =>
    refine loop (I := fun x t => x = (.integer, []) ∧ t = s ∨ s.Spends t) calm (.inl ⟨rfl, rfl⟩) ?_
    rintro ⟨guess, taken⟩ t goes before
    refine look rfl ?_
    split
    case h_1 ended =>
      refine pure fun ⟨c, next, _⟩ => ?_
      rcases before with ⟨_, rfl⟩ | spends
      case inl => simp [ended] at next
      case inr => exact spends
    case h_2 d tail ahead_eq =>
      have pos : t.Spends (t.past 1) := .past Nat.one_pos (by simp [ahead_eq])
      split
      case h_1 => exact pass (pure ⟨.inr (pos.after goes), pos⟩)
      case h_2 stop =>
        refine pure fun ⟨c, next, digit⟩ => ?_
        rcases before with ⟨⟨⟩, rfl⟩ | spends
        case inl =>
          rw [ahead_eq] at next
          cases next
          rw [move_of_isDigit digit] at stop
          cases stop
        case inr => exact spends
      case h_3 => exact pass (pure fun _ => pos.after goes)
      case h_4 => exact rejectHere rfl
  case refine_2 =>
    obtain ⟨guess, taken⟩ := result
    cases guess
    case marked =>
      change Runs P (if _ then _ else _) t _
      split
      · exact rejectHere rfl
      · exact pure spends
    all_goals exact pure spends

-- A string ends with a quote, whatever it begins with.
theorem string : Runs P Cursor.string s fun _ => s.Spends := by
  have quote {t : Session (Recorded α)} {c : Char} {rest : List Char}
      (ahead_eq : t.ahead = c :: rest) : t.Spends (t.past 1) :=
    .past Nat.one_pos (by simp [ahead_eq])
  refine look rfl (advance (fun _ => takeWhile ?_) fun _ _ _ => takeWhile ?_)
  · exact advance (fun _ => reject _ _ rfl) fun _ _ ahead_eq => pure (quote ahead_eq).before
  · exact advance (fun _ => reject _ _ rfl) fun _ _ ahead_eq => pure (quote ahead_eq).before.before

theorem bitwise : Runs P (Cursor.bitwise : Reading α _) s fun _ _ => True := by
  refine look rfl ?_
  split
  case h_1 | h_7 => exact rejectHere rfl
  all_goals exact pass (pure trivial)

theorem mathSymbol (fits : P (.fellThrough .operator) ∨ ∃ c ∈ s.ahead.head?, isMathSymbol c) :
    Runs P (Cursor.mathSymbol place) s fun _ => s.Spends := by
  refine advance (fun ended => ?_) fun c rest ahead_eq => ?_
  case refine_1 =>
    refine fallThrough (fits.elim id ?_)
    simp [ended]
  case refine_2 =>
    have spends : s.Spends (s.past 1) := .past Nat.one_pos (by simp [ahead_eq])
    split
    case h_1 | h_2 => exact eat (fun _ => pure spends) fun _ => pure (spends.further 1)
    case h_7 => exact bitwise.bind fun _ _ goes _ => pure (spends.goes goes)
    case h_8 =>
      refine fallThrough (fits.elim id fun ⟨d, head, symbol⟩ => ?_)
      simp_all [isMathSymbol, Token.isArithmeticSymbol]
    all_goals exact pure spends

theorem relationSymbol
    (fits : P (.fellThrough .relation) ∨ ∃ c ∈ s.ahead.head?, isRelationSymbol c) :
    Runs P (Cursor.relationSymbol place) s fun _ => s.Spends := by
  refine advance (fun ended => ?_) fun c rest ahead_eq => ?_
  case refine_1 =>
    refine eat (fun _ => ?_) fun next => by simp [ended] at next
    refine fallThrough (fits.elim id ?_)
    simp [ended]
  case refine_2 =>
    have spends : s.Spends (s.past 1) := .past Nat.one_pos (by simp [ahead_eq])
    have fits : P (.fellThrough .relation) ∨ (c = '=' ∨ c = '<') ∨ c = '>' := by
      simpa [ahead_eq, isRelationSymbol] using fits
    rcases fits with fits | (rfl | rfl) | rfl
    case inl =>
      refine eat (fun _ => ?_) fun _ => ?_ <;> split
      all_goals first
        | exact fallThrough fits
        | exact pure spends
        | exact pure (spends.further 1)
    all_goals exact eat (fun _ => pure spends) fun _ => pure (spends.further 1)

end

section
variable [LineSupplier α] {P : Event → Prop} {s : Session (Recorded α)} {depth : Nat}
variable {expressions : Budget → Reading α (List Node)}
variable (he : ∀ budget t, t.Enough P depth → Runs P (expressions budget) t (t.Brings budget))
variable (bears : Bears P)

include he in
theorem typing (nodes : List Node) (enough : s.Enough P (depth + 1)) :
    Runs P (Cursor.typing expressions nodes) s (s.Takes nodes) := by
  refine look rfl (takeLeft fun lhs rest nodes_eq => ?_)
  have length_le : rest.length ≤ nodes.length := by simp [nodes_eq]
  refine advance (fun ended => ?_) fun c _ ahead_eq => ?_
  case refine_1 =>
    exact eat (fun _ => rejectHere rfl) fun next => by simp [ended] at next
  case refine_2 =>
    refine eat (fun _ => rejectHere rfl) fun _ => skipBlanks (look rfl ?_)
    have spends : s.Spends ((s.past 1).past 1).skipped :=
      ((Session.Spends.past Nat.one_pos (by simp [ahead_eq])).further 1).further _
    generalize (s.past 1).past 1 = t at spends ⊢
    split
    case h_1 => exact pure ⟨length_le, spends⟩
    case h_2 c next =>
      refine look rfl ?_
      split
      case isTrue => exact pure ⟨length_le, spends⟩
      case isFalse noStop =>
        refine (he _ _ (enough.spends spends)).bind fun targets t goes brings => ?_
        split
        case h_1 =>
          have halts := brings.halts_before rfl (Session.ready_of_skipped next) c next
          exact absurd (Bool.or_inr halts) noStop
        case h_2 =>
          split
          case isTrue  => exact pure ⟨length_le, spends.goes goes⟩
          case isFalse => exact reject _ _ rfl

include bears in
theorem noOperand {Q : Node → Session (Recorded α) → Prop} (op : Operator) (halts : s.Halts) :
    Runs P (Cursor.noOperand op) s Q :=
  note (fun _ => bears.missingOperand halts) (rejectHere rfl)

include he bears

theorem rightOperand (op : Operator) (enough : s.ahead ≠ [] → s.Enough P depth) :
    Runs P (Cursor.rightOperand expressions op) s fun _ => s.Spends := by
  refine skipBlanks (look rfl ?_)
  split
  case h_1 ended => exact noOperand bears op (by simp [Session.Halts, ended])
  case h_2 next =>
    have enough := enough fun ended => by simp [Session.ahead_skipped, ended] at next
    refine (he _ _ (enough.goes (.past s _))).bind fun nodes t _ brings => ?_
    split
    case h_1 => exact noOperand bears op (brings.halts rfl rfl)
    case h_2 =>
      split
      case isTrue  => exact pure (brings.spends (List.cons_ne_nil _ _)).before
      case isFalse => exact reject _ _ rfl

theorem math (nodes : List Node) (enough : s.Enough P (depth + 1))
    (fits : P (.fellThrough .operator) ∨ ∃ c ∈ s.ahead.head?, isMathSymbol c) :
    Runs P (Cursor.math expressions nodes) s (s.Takes nodes) := by
  refine look rfl (takeLeft fun lhs rest nodes_eq => ?_)
  have length_le : rest.length ≤ nodes.length := by simp [nodes_eq]
  refine (mathSymbol fits).bind fun symbol t goes spends => ?_
  cases symbol
  case inr =>
    dsimp only
    split
    case isTrue  => exact reject _ _ rfl
    case isFalse => exact pure ⟨length_le, spends⟩
  case inl =>
    exact (rightOperand he bears _ fun _ => enough.spends spends).bind fun _ _ goes _ =>
      pure ⟨length_le, spends.goes goes⟩

theorem relation (nodes : List Node) (enough : s.Enough P (depth + 1))
    (fits : P (.fellThrough .relation) ∨ ∃ c ∈ s.ahead.head?, isRelationSymbol c) :
    Runs P (Cursor.relation expressions nodes) s (s.Takes nodes) := by
  refine look rfl (takeLeft fun lhs rest nodes_eq => ?_)
  refine (relationSymbol fits).bind fun op t _ spends => ?_
  exact (rightOperand he bears _ fun _ => enough.spends spends).bind fun _ _ goes _ =>
    pure ⟨by simp [nodes_eq], spends.goes goes⟩

theorem negation (nodes : List Node) (enough : s.Enough P (depth + 1)) :
    Runs P (Cursor.negation expressions nodes) s (s.Takes nodes) := by
  refine look rfl (advance (fun ended => ?_) fun c rest ahead_eq => ?_)
  case refine_1 =>
    refine eat (fun _ => ?_) fun next => by simp [ended] at next
    exact (rightOperand he bears _ (absurd ended)).bind fun _ _ goes spends =>
      pure ⟨Nat.le_refl _, spends⟩
  case refine_2 =>
    have spends : s.Spends (s.past 1) := .past Nat.one_pos (by simp [ahead_eq])
    refine eat (fun _ => ?_) fun _ => ?_
    case refine_1 =>
      exact (rightOperand he bears _ fun _ => enough.spends spends).bind fun _ _ goes _ =>
        pure ⟨Nat.le_refl _, spends.goes goes⟩
    case refine_2 =>
      refine look rfl (takeLeft fun lhs rest nodes_eq => ?_)
      have spends := spends.further 1
      exact (rightOperand he bears _ fun _ => enough.spends spends).bind fun _ _ goes _ =>
        pure ⟨by simp [nodes_eq], spends.goes goes⟩

end

section
variable [LineSupplier α] {P : Event → Prop} {s : Session (Recorded α)} {depth : Nat}

theorem separator : Runs P (Cursor.separator : Reading α _) s fun _ _ => True := by
  refine look rfl ?_
  split
  case h_1 => exact pure trivial
  case h_2 =>
    split
    case isTrue  => exact pure trivial
    case isFalse => exact rejectHere rfl

theorem closeEntry (bears : Bears P) (paired : Bool) (place : Location) {entry : List Node}
    (atComma : entry = [] → s.ahead.head? = some ',') :
    Runs P (Cursor.closeEntry paired place entry) s fun _ _ => entry ≠ [] := by
  have eaten {t : Session (Recorded α)} (ne_nil : entry ≠ []) :
      Runs P (Cursor.eat ',' >>= fun _ => Pure.pure ()) t fun _ _ => entry ≠ [] :=
    eat (fun _ => pure ne_nil) fun _ => pure ne_nil
  unfold Cursor.closeEntry
  split
  case isTrue empty =>
    refine note (fun _ => ?_) (rejectHere rfl)
    rw [atComma (List.isEmpty_iff.mp empty)]
    exact bears.emptyEntry
  case isFalse nonempty =>
    have ne_nil : entry ≠ [] := by simpa using nonempty
    split
    case isTrue  => exact reject _ _ rfl
    case isFalse =>
      refine skipBlanks ?_
      split
      case isTrue  => exact separator.bind fun _ _ _ _ => eaten ne_nil
      case isFalse => exact eaten ne_nil

variable {expressions : Budget → Reading α (List Node)}
variable (he : ∀ budget t, t.Enough P depth → Runs P (expressions budget) t (t.Brings budget))
variable (bears : Bears P)
include he

theorem contentTurn (nodes : List Node) (enough : s.Enough P depth)
    (innermost : s.contexts.head? = some .block) :
    Runs P (Cursor.contentTurn expressions nodes) s
      (Taken (fun _ _ => True) (fun _ _ => True) s) := by
  refine (skipToToken .block enough.calm).bind fun _ t goes ready => ?_
  refine eat (fun noBrace => ?_) fun _ => pure trivial
  refine (he _ _ (enough.goes goes)).bind fun more u _ brings => pure ⟨trivial, ?_⟩
  by_cases nil : more = []
  case neg => exact (brings.spends nil).after goes
  case pos =>
    subst nil
    have halts := brings.halts_before rfl ready
    obtain ⟨c, next, _⟩ := ready
    have closes := halts c next
    rw [goes.contexts_eq, innermost, closes_block] at closes
    exact absurd (next.trans (congrArg some closes)) noBrace

include bears in
theorem block (enough : s.Enough P (depth + 1)) :
    Runs P (Cursor.block expressions) s fun _ => s.Spends := by
  refine look rfl (eat (fun _ => reject _ _ rfl) fun brace => ?_)
  have spends : s.Spends (s.past 1) := .past Nat.one_pos fun ended => by simp [ended] at brace
  have enough := enough.spends spends
  refine bind (Q := fun _ _ => True) (inside (bears.enter (by simp)) ?_) fun nodes t goes _ => ?_
  case refine_1 =>
    refine loop (I := fun _ _ => True) enough.calm trivial fun _ t goes _ => ?_
    exact contentTurn he _ (enough.entered.goes goes) (by rw [goes.contexts_eq]; rfl)
  case refine_2 => exact skipBlanks (pure ((spends.goes goes).further _))

include bears in
theorem entriesTurn (paired : Bool) (done : List (List Node)) (enough : s.Enough P depth)
    {innermost : Construct} (innermost_eq : s.contexts.head? = some innermost)
    (closing : innermost = .group ∨ innermost = .declaration) :
    Runs P (Cursor.entriesTurn expressions paired done) s
      (Taken (fun _ _ => True) (fun _ _ => True) s) := by
  refine (skipToToken .group enough.calm).bind fun _ t goes ready => ?_
  refine eat (fun noParen => look rfl ?_) fun _ => pure trivial
  refine (he _ _ (enough.goes goes)).bind fun entry u _ brings => ?_
  have left : (if paired then .limited 2 else .unbounded : Budget).isSpent = false := by
    cases paired <;> rfl
  have atComma (nil : entry = []) : u.ahead.head? = some ',' := by
    subst nil
    have halts := brings.halts_before left ready
    rw [brings.eq_skipped rfl left, ready.ahead_skipped]
    obtain ⟨c, next, _⟩ := ready
    have closes := halts c next
    rw [goes.contexts_eq, innermost_eq, closes_entry closing] at closes
    rcases closes with rfl | rfl
    case inl => exact absurd next noParen
    case inr => exact next
  refine (closeEntry bears paired _ atComma).bind fun _ v further ne_nil => ?_
  exact pure ⟨trivial, ((brings.spends ne_nil).goes further).after goes⟩

include bears in
theorem list (enough : s.Enough P depth) :
    Runs P (Cursor.list expressions) s fun _ _ => True := by
  refine look rfl ?_
  split
  case isTrue declaring =>
    refine loop (I := fun _ _ => True) enough.calm trivial fun _ t goes _ => ?_
    exact entriesTurn he bears true _ (enough.goes goes) (by rw [goes.contexts_eq, declaring])
      (.inr rfl)
  case isFalse =>
    refine inside (bears.enter (by simp)) ?_
    refine loop (I := fun _ _ => True) enough.calm trivial fun _ t goes _ => ?_
    exact entriesTurn he bears false _ (enough.entered.goes goes) (by rw [goes.contexts_eq]; rfl)
      (.inl rfl)

include bears in
theorem group (enough : s.Enough P (depth + 1)) :
    Runs P (Cursor.group expressions) s fun _ => s.Spends := by
  refine look rfl (eat (fun _ => reject _ _ rfl) fun paren => ?_)
  have spends : s.Spends (s.past 1) := .past Nat.one_pos fun ended => by simp [ended] at paren
  exact (list he bears (enough.spends spends)).bind fun _ _ goes _ => pure (spends.goes goes)

include bears in
theorem call (name : String) (place : Location) (enough : s.Enough P (depth + 1)) :
    Runs P (Cursor.call expressions name place) s fun _ => s.Spends :=
  (group he bears enough).bind fun _ _ _ spends => pure spends

theorem name (enough : s.Enough P depth) :
    Runs P (Cursor.name expressions) s fun _ => s.Spends := by
  refine skipBlanks (look rfl ?_)
  refine (he _ _ (enough.goes (.past s _))).bind fun nodes t _ brings => ?_
  split
  case h_1 => exact reject _ _ rfl
  case h_2 =>
    split
    case isTrue  => exact pure (brings.spends (List.cons_ne_nil _ _)).before
    case isFalse => exact reject _ _ rfl

include bears in
theorem function (place : Location) (enough : s.Enough P depth)
    (enters : P (.moved s.contexts) → P (.moved (.declaration :: s.contexts))) :
    Runs P (Cursor.function expressions place) s fun _ => s.Spends := by
  refine inside enters ?_
  have enough : (s.entered .declaration).Enough P depth := enough.entered
  refine (name he enough).bind fun _ t named _ => ?_
  refine (skipToToken .declaration (enough.goes named).calm).bind fun _ u goes _ => ?_
  have atHead := named.trans goes
  refine (group he bears (enough.goes atHead).succ).bind fun _ v goes _ => ?_
  have afterHead := atHead.trans goes
  refine (skipToToken .declaration (enough.goes afterHead).calm).bind fun _ w goes _ => ?_
  have atBody := afterHead.trans goes
  refine (block he bears (enough.goes atBody).succ).bind fun _ x _ spends => ?_
  exact pure (spends.after atBody).leave

theorem programTurn (nodes : List Node) (enough : s.Enough P (depth + 1)) :
    Runs P (Cursor.programTurn expressions nodes) s
      (Taken (fun _ _ => True) (fun _ _ => True) s) := by
  refine pullLine.bind fun more t _ spends => ?_
  split
  case isTrue again =>
    have spends := spends again
    exact (he _ _ (enough.spends spends)).bind fun _ _ goes _ => pure ⟨trivial, spends.goes goes⟩
  case isFalse => exact pure trivial

include bears

theorem word (enough : s.Enough P (depth + 1)) :
    Runs P (Cursor.word expressions) s
      fun _ t => (∃ c ∈ s.ahead.head?, isLetter c) → s.Spends t := by
  have taken (ne_nil : s.ahead.takeWhile isLetter ≠ []) :
      s.Spends (s.past (s.ahead.takeWhile isLetter).length) :=
    .past (List.length_pos_iff.mpr ne_nil) fun ended => ne_nil (by simp [ended])
  have spends (letter : ∃ c ∈ s.ahead.head?, isLetter c) :
      s.Spends (s.past (s.ahead.takeWhile isLetter).length) := by
    obtain ⟨c, next, letter⟩ := letter
    obtain ⟨rest, ahead_eq⟩ := List.head?_eq_some_iff.mp next
    exact taken (by simp [ahead_eq, letter])
  refine look rfl (takeWhile ?_)
  split
  case h_1 run_eq =>
    have spends := taken (by simp [run_eq])
    refine look rfl ?_
    split
    case isTrue => exact reject _ _ rfl
    case isFalse outside =>
      refine (function he bears _ (enough.spends spends) (bears.enter fun _ => ?_)).mono
        fun _ _ goes _ _ => spends.goes goes
      simpa using outside
  case h_5 =>
    refine look rfl (look rfl ?_)
    split
    case isTrue  =>
      exact (call he bears _ _ (enough.goes (.past s _))).mono
        fun _ _ goes _ letter => (spends letter).goes goes
    case isFalse => exact pure spends
  all_goals exact pure spends

-- An expression that begins with the next character takes up at least this one.
theorem item {c : Char} (nodes : List Node) (enough : s.Enough P (depth + 1))
    (next : s.ahead.head? = some c) :
    Runs P (Cursor.item expressions c nodes) s (s.Takes nodes) := by
  have alone {b : Node} {t : Session (Recorded α)} (spends : s.Spends t) :
      Runs P (Pure.pure (b, nodes)) t (s.Takes nodes) := pure ⟨Nat.le_refl _, spends⟩
  have starting {p : Char → Bool} (h : p c) : ∃ c ∈ s.ahead.head?, p c := ⟨c, next, h⟩
  unfold Cursor.item
  split
  case isTrue letter =>
    exact (word he bears enough).bind fun _ _ _ spends => alone (spends (starting letter))
  case isFalse =>
  split
  case isTrue digit =>
    exact (number enough.calm).bind fun _ _ _ spends => alone (spends (starting digit))
  case isFalse =>
  split
  case isTrue => exact string.bind fun _ _ _ => alone
  case isFalse =>
  split
  case h_1 | h_2 | h_3 | h_4 | h_5 | h_6 | h_7 =>
    exact math he bears nodes enough (.inr (starting rfl))
  case h_8 | h_9 | h_10 => exact relation he bears nodes enough (.inr (starting rfl))
  case h_11 => exact negation he bears nodes enough
  case h_12 => exact typing he nodes enough
  case h_13 => exact (block he bears enough).bind fun _ _ _ => alone
  case h_14 => exact (group he bears enough).bind fun _ _ _ => alone
  case h_15 => exact rejectHere rfl

-- Whatever has been produced before, a turn that is not the last one adds one expression to it.
theorem expressionTurn (x : Budget × List Node) {t : Session (Recorded α)}
    (enough : t.Enough P (depth + 1)) :
    Runs P (Cursor.expressionTurn expressions x) t
      (Taken
        (fun y u => ∀ budget (s : Session _), s.Producing budget x t → s.Producing budget y u)
        (fun y u => ∀ budget (s : Session _), s.Producing budget x t → s.Produces budget y u)
        t) := by
  obtain ⟨left, nodes⟩ := x
  change Runs P (if left.isSpent then _ else _) t _
  split
  case isTrue spent =>
    refine pure fun budget s producing => ?_
    refine ⟨⟨producing.length_le, producing.spends, fun nil fresh => ?_, fun nil fresh => ?_⟩,
      .inl spent⟩
    all_goals
      have whole : left = budget := (producing.unmoved nil).2
      rw [whole, fresh] at spent
      cases spent
  case isFalse unspent =>
    refine skipBlanks (look rfl ?_)
    split
    case h_1 ended =>
      exact pure fun _ _ producing => producing.halts (by simp [Session.Halts, ended])
    case h_2 c next =>
      refine look rfl ?_
      split
      case isTrue closes =>
        refine pure fun _ _ producing => producing.halts fun d next' => ?_
        cases next.symm.trans next'
        exact closes
      case isFalse =>
        refine (item he bears nodes (enough.goes (.past t _)) next).bind ?_
        intro result u goes taken
        have spends : t.Spends u := taken.spends.before
        refine pure ⟨fun budget s producing => ?_, spends⟩
        refine ⟨fun {n} limited => ?_, fun nil => absurd nil (List.cons_ne_nil _ _), fun _ => ?_⟩
        case refine_1 =>
          obtain ⟨m, rfl, le⟩ := producing.limited limited
          refine ⟨m - 1, rfl, ?_⟩
          have length_le := taken.length_le
          cases m
          case zero => exact absurd rfl unspent
          case succ =>
            simp only [List.length_cons, Nat.add_sub_cancel] at le ⊢
            omega
        case refine_2 =>
          by_cases nil : nodes = []
          case pos =>
            obtain ⟨rfl, _⟩ := producing.unmoved nil
            exact spends
          case neg => exact (producing.spends nil).goes ((Session.Goes.past t _).trans goes)

theorem sideBySide (budget : Budget) (enough : s.Enough P (depth + 1)) :
    Runs P (Cursor.sideBySide expressions budget) s (s.Produces budget) := by
  have start : s.Producing budget (budget, []) s :=
    ⟨fun limited => ⟨_, limited, by simp⟩, fun _ => ⟨rfl, rfl⟩, nofun⟩
  refine loop enough.calm start fun x t goes producing => ?_
  refine (expressionTurn he bears x (enough.goes goes)).mono fun turn u _ taken => ?_
  cases turn
  case leave => exact taken budget s producing
  case again => exact taken.imp_left fun produces => produces budget s producing

end

section
variable [LineSupplier α] {P : Event → Prop} (bears : Bears P)
include bears

theorem expressions (depth : Nat) (budget : Budget) (s : Session (Recorded α))
    (enough : s.Enough P depth) : Runs P (Cursor.expressions depth budget) s (s.Brings budget) := by
  induction depth generalizing budget s
  case zero =>
    exact exhausted (enough.elim id fun ⟨_, lt⟩ => absurd lt (Nat.not_lt_zero _))
  case succ depth hi =>
    exact (sideBySide hi bears budget enough).bind
      fun _ _ _ produces => pure produces.brings

theorem program {s : Session (Recorded α)} (calm : P .exhausted ∨ s.IsLawful) :
    Runs P Cursor.program s fun _ _ => True := by
  have enough : s.Enough P (s.amount + 1) := calm.imp_right (⟨·, Nat.lt_succ_self _⟩)
  have lines : Runs P (Cursor.loop (Cursor.programTurn (Cursor.expressions s.amount)) []) s
      fun _ _ => True :=
    loop (I := fun _ _ => True) calm trivial fun nodes t goes _ =>
      programTurn (expressions bears s.amount) nodes (enough.goes goes)
  exact ⟨lines.goes, lines.fails, lines.ensures⟩

end
end Runs
end WispSyntax

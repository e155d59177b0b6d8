import WispSyntax.Proofs.Scanning

/-!
The descent without tokens is the descent (`Cursor.program_eq`). As long as the one session is where
the other is, both come to the same, and if that is no failure, the one is again where the other is
(`Agree`).
-/

namespace WispSyntax

open WispSyntax.Parser

variable {α β γ σ : Type}

-- Both come to the same. If that is no failure, the sessions are in the relation.
inductive Agree (Q : β → Session (Recorded α) → Session α → Prop) :
    Except Failure β × Session (Recorded α) → Except Failure β × Session α → Prop
  | ok {b t' t} (h : Q b t' t) : Agree Q (.ok b, t') (.ok b, t)
  | failed {failure t' t} : Agree Q (.error failure, t') (.error failure, t)

namespace Agree

variable {s' t' : Session (Recorded α)} {s t : Session α}
variable {Q : β → Session (Recorded α) → Session α → Prop}
variable {R : γ → Session (Recorded α) → Session α → Prop}
variable {r' : Except Failure γ × Session (Recorded α)} {r : Except Failure γ × Session α}

theorem mono {Q' : β → Session (Recorded α) → Session α → Prop}
    {r' : Except Failure β × Session (Recorded α)} {r : Except Failure β × Session α}
    (h : Agree Q r' r) (imp : ∀ b t' t, Q b t' t → Q' b t' t) : Agree Q' r' r := by
  cases h
  case ok h   => exact .ok (imp _ _ _ h)
  case failed => exact .failed

theorem fst_eq (h : Agree R r' r) : r'.1 = r.1 := by
  cases h <;> rfl

theorem bind {x' : Reading α β} {x : Builder α β} {f' : β → Reading α γ} {f : β → Builder α γ}
    (hx : Agree Q (x' s') (x s)) (hf : ∀ b t' t, Q b t' t → Agree R (f' b t') (f b t)) :
    Agree R ((x' >>= f') s') ((x >>= f) s) := by
  rw [Builder.bind_apply, Builder.bind_apply]
  generalize x' s' = r' at hx
  generalize x s = r at hx
  cases hx
  case ok h   => exact hf _ _ _ h
  case failed => exact .failed

-- One of both goes on by itself.
theorem left {x' : Reading α β} {f' : β → Reading α γ} {b : β} (hx : x' s' = (.ok b, t'))
    (h : Agree R (f' b t') r) : Agree R ((x' >>= f') s') r := by
  rw [Builder.bind_apply, hx]
  exact h

theorem right {x : Builder α β} {f : β → Builder α γ} {b : β} (hx : x s = (.ok b, t))
    (h : Agree R r' (f b t)) : Agree R r' ((x >>= f) s) := by
  rw [Builder.bind_apply, hx]
  exact h

theorem rejectLeft {x' : Reading α β} {f' : β → Reading α γ} {fault : Fault} {place : Location}
    (hx : x' s' = Builder.reject fault place t') (h : Agree R (Builder.reject fault place t') r) :
    Agree R ((x' >>= f') s') r := by
  rw [Builder.bind_apply, hx]
  exact h

theorem assoc {x : Reading α β} {f' : β → Reading α σ} {g' : σ → Reading α γ}
    (h : Agree R ((x >>= fun b => f' b >>= g') s') r) : Agree R ((x >>= f' >>= g') s') r := by
  rwa [Builder.bind_assoc]

theorem skipBlanks {f' : Unit → Reading α γ} (h : Agree R (f' () s'.skipped) r) :
    Agree R ((Cursor.skipBlanks >>= f') s') r :=
  left rfl h

theorem reject {fault : Fault} {place place' : Location} (line_eq : s'.line = s.line)
    (place_eq : place' = place) :
    Agree R (Builder.reject fault place' s') (Builder.reject fault place s) := by
  subst place_eq
  unfold Builder.reject
  rw [line_eq]
  exact .failed

theorem takeLeft {family : Family} {place : Location} {nodes : List Node}
    {f' : Node × List Node → Reading α γ} {f : Node × List Node → Builder α γ}
    (line_eq : s'.line = s.line) (hf : ∀ lhs rest, nodes = lhs :: rest →
      Agree R (f' (lhs, rest) s') (f (lhs, rest) s)) :
    Agree R ((Builder.takeLeft family place nodes >>= f') s')
      ((Builder.takeLeft family place nodes >>= f) s) := by
  have rejected (fault : Fault) (place : Location) :
      Agree (fun _ _ _ => False) (Builder.reject (β := Node × List Node) fault place s')
        (Builder.reject fault place s) :=
    reject line_eq rfl
  unfold Builder.takeLeft
  split
  case h_1 => exact (rejected _ _).bind fun _ _ _ => False.elim
  case h_2 lhs rest =>
    split
    case isTrue  => exact left rfl (right rfl (hf lhs rest rfl))
    case isFalse => exact (rejected _ _).bind fun _ _ _ => False.elim

variable [LineSupplier α] {contexts : List Construct} {m n : Nat}

theorem eat {c : Char} {token : Token} {f' : Bool → Reading α γ} {f : Bool → Builder α γ}
    (mark : Token.IsMark c token) (h : s'.Tracks s contexts m n) (aligned : s'.Aligned)
    (no : s'.ahead.head? ≠ some c → Agree R (f' false s') (f false s))
    (yes : ∀ p q, m = p + 1 → n = q + 1 → s'.ahead.head? = some c →
      (s'.past 1).Tracks (Builder.consume s).2 contexts p q →
      Agree R (f' true (s'.past 1)) (f true (Builder.consume s).2)) :
    Agree R ((Cursor.eat c >>= f') s') ((Builder.eat token >>= f) s) := by
  have eaten := Cursor.eat_apply c s'
  by_cases next : s'.ahead.head? = some c
  case pos =>
    rw [if_pos next] at eaten
    obtain ⟨rest, ahead_eq⟩ := List.head?_eq_some_iff.mp next
    obtain ⟨p, q, rfl, rfl, tracks⟩ := h.consume (u := s'.past 1) ahead_eq aligned (by
      rw [mark.read_eq])
    have head : s.rest.head? = some (s'.lexeme c rest) := by
      rw [← h.rest_eq, Session.rest_of_cons ahead_eq aligned, List.head?_cons]
    refine left eaten (right ?_ (yes p q rfl rfl next tracks))
    rw [Builder.eat_apply, head, if_pos]
    simp [Session.lexeme, mark.read_eq]
  case neg =>
    rw [if_neg next] at eaten
    refine left eaten (right ?_ (no next))
    rw [Builder.eat_apply, if_neg]
    rcases ahead_eq : s'.ahead with _ | ⟨d, rest⟩
    case nil  => simp [← h.rest_eq, Session.rest_of_ended ahead_eq]
    case cons =>
      rw [← h.rest_eq, Session.rest_of_cons ahead_eq aligned, List.head?_cons, Option.any_some,
        decide_eq_true_eq]
      intro same
      cases mark.read_iff.mp same
      exact next (by rw [ahead_eq, List.head?_cons])

end Agree

-- What pulling a line comes to for both.
inductive BothPull [LineSupplier α] (s' : Session (Recorded α)) (s : Session α)
    (contexts : List Construct) : Bool → Session (Recorded α) → Session α → Prop
  | line {t' t} (tracks : t'.Tracks t contexts s'.amount (LineSupplier.feed s.supplier).size) :
      BothPull s' s contexts true t' t
  | ended {t' t} (line_eq' : t'.line = s'.line) (place_eq : t'.place = s'.place)
      (line_eq : t.line = s.line) (rest_eq : t.rest = s.rest)  : BothPull s' s contexts false t' t

namespace Agree

variable [LineSupplier α] [LawfulSupplier α] {s' : Session (Recorded α)} {s : Session α}
variable {contexts : List Construct} {m n : Nat}

theorem pullLine (supplier_eq : s'.supplier.supplier = s.supplier)
    (contexts_eq' : s'.contexts = contexts) (contexts_eq : s.contexts = contexts)
    (isValid : LineSupplier.IsValid s.supplier) :
    Agree (BothPull s' s contexts) (Cursor.pullLine s') (Builder.nextLine s) := by
  suffices pulled : Agree (BothPull s' s contexts) (Builder.nextLine s') (Builder.nextLine s) by
    rw [Cursor.pullLine, Builder.bind_apply]
    generalize Builder.nextLine s' = r' at pulled
    generalize Builder.nextLine s = r at pulled
    rcases pulled with (tracks | ⟨line_eq', place_eq, line_eq, rest_eq⟩) | _
    case ok.line  => exact .ok (.line (tracks.noting _))
    case ok.ended => exact .ok (.ended line_eq' place_eq line_eq rest_eq)
    case failed   => exact .failed
  have pulls := Builder.pulls_nextLine isValid
  rw [Cursor.nextLine_eq]
  unfold Builder.nextLine at pulls ⊢
  have same : s'.plain.supplier = s.supplier := supplier_eq
  rw [same]
  rcases asked : LineSupplier.hasNext s.supplier with ⟨_ | _, supplier⟩
  case false => exact .ok (.ended rfl rfl rfl rfl)
  case true =>
    rcases advanced : LineSupplier.advance supplier with ⟨_ | _ | line, supplier⟩
    case error   => simp only [advanced]; exact .failed
    case ok.none => simp only [advanced]; exact .ok (.ended rfl rfl rfl rfl)
    case ok.some =>
      simp only [asked, advanced] at pulls ⊢
      refine .ok (.line ?_)
      cases pulls with
      | line before after isValid =>
        refine ⟨rfl, rfl, contexts_eq', contexts_eq, rfl, Nat.zero_le _, isValid, ?_, ?_⟩
        case refine_1 =>
          have before : LineSupplier.feed s'.supplier = _ := (congrArg _ supplier_eq).trans before
          change (line.text.toList.drop 0).length +
            (LineSupplier.feed supplier).lines.foldr (fun l n => l.text.length + 1 + n) 0 <
              s'.amount
          simp only [Session.amount, before, after, List.drop_zero, String.length_toList,
            List.foldr_cons]
          omega
        case refine_2 =>
          change line.lexemes.length + (LineSupplier.feed supplier).size < _
          simp only [before, after, Feed.size, List.foldr_cons]
          omega

theorem skipTurns (construct : Construct) {steps k : Nat} (le : n ≤ steps) (enough : m ≤ k)
    (h : s'.Tracks s contexts m n) :
    Agree (fun _ t' t => t'.Tracks t contexts m n ∧ t'.Ready)
      (Cursor.turns (Cursor.skipTurn construct) k () s')
      (Builder.skipToToken construct steps s) := by
  induction steps generalizing s' s m n k
  case zero => exact absurd h.size_lt (by omega)
  case succ steps hi =>
    obtain ⟨k, rfl⟩ := h.exists_succ enough
    have h := h.skipped
    rw [Cursor.turns, Cursor.skipTurn]
    refine assoc (skipBlanks (assoc (left rfl (right rfl ?_))))
    rcases ahead_eq : s'.skipped.ahead with _ | ⟨c, rest⟩
    case nil =>
      rw [← h.rest_eq, Session.rest_of_ended ahead_eq]
      simp only [List.head?_nil, Option.isSome_none, Bool.false_eq_true, if_false]
      refine assoc ((pullLine h.supplier_eq h.contexts_eq' h.contexts_eq h.isValid).bind
        fun more t' t pulled => ?_)
      have amount_lt := h.amount_lt
      have size_lt := (Nat.le_add_left _ _).trans_lt h.size_lt
      cases pulled
      case line tracks =>
        have inner := hi (k := k) (by omega) (by omega) tracks
        exact left rfl (inner.mono fun _ _ _ => And.imp_left (·.mono amount_lt.le size_lt.le))
      case ended line_eq' place_eq line_eq rest_eq =>
        simp only [Bool.false_eq_true, if_false]
        refine assoc (left rfl (right rfl ?_))
        change Agree _ (Builder.reject _ _ t') (Builder.reject _ _ t)
        refine reject (by rw [line_eq', h.line_eq, line_eq]) ?_
        rw [place_eq, ← h.here_eq (Session.aligned_skipped s'), rest_eq, line_eq]
    case cons =>
      rw [← h.rest_eq, Session.rest_of_cons ahead_eq (Session.aligned_skipped s')]
      simp only [List.head?_cons, Option.isSome_some, if_true]
      exact left rfl (.ok ⟨h, Session.ready_of_skipped (c := c) (by simp [ahead_eq])⟩)

theorem skipToToken (construct : Construct) {steps : Nat} (le : n ≤ steps)
    (h : s'.Tracks s contexts m n) :
    Agree (fun _ t' t => t'.Tracks t contexts m n ∧ t'.Ready) (Cursor.skipToToken construct s')
      (Builder.skipToToken construct steps s) := by
  exact (skipTurns construct le (Nat.le_refl _) h.tight).mono fun _ _ _ => And.imp_left h.loosen

end Agree

-- What expressions side by side come to for both, after the nodes that there have been before.
inductive Reaches [LineSupplier α] (budget : Budget) (s' : Session (Recorded α))
    (before : List Node) (contexts : List Construct) (m n : Nat) :
    List Node → Session (Recorded α) → Session α → Prop
  | still {t' t} (tracks : t'.Tracks t contexts m n)
      (eq_skipped : budget.isSpent = false → t' = s'.skipped)
      (halts : budget.isSpent = false → t'.Halts) :
      Reaches budget s' before contexts m n before t' t
  | further {nodes t' t p q} (m_eq : m = p + 1) (n_eq : n = q + 1) (ne_nil : nodes ≠ [])
      (tracks : t'.Tracks t contexts p q) : Reaches budget s' before contexts m n nodes t' t

-- Both have gone past something.
def Further [LineSupplier α] (contexts : List Construct) (m n : Nat) (_ : β)
    (t' : Session (Recorded α)) (t : Session α) : Prop :=
  ∃ p q, m = p + 1 ∧ n = q + 1 ∧ t'.Tracks t contexts p q

theorem Reaches.tracks [LineSupplier α] {budget : Budget} {s' t' : Session (Recorded α)}
    {before nodes : List Node} {t : Session α} {contexts : List Construct} {m n : Nat}
    (h : Reaches budget s' before contexts m n nodes t' t) : t'.Tracks t contexts m n := by
  rcases h with ⟨tracks, _, _⟩ | ⟨rfl, rfl, _, tracks⟩
  case still   => exact tracks
  case further => exact tracks.succ

theorem Reaches.loosen [LineSupplier α] {budget : Budget} {s' t' : Session (Recorded α)}
    {before nodes : List Node} {s t : Session α} {contexts : List Construct} {m n : Nat}
    (h : s'.Tracks s contexts m n)
    (reaches : Reaches budget s' before contexts (s'.amount + 1) n nodes t' t) :
    Reaches budget s' before contexts m n nodes t' t := by
  rcases reaches with ⟨tracks, eq_skipped, halts⟩ | ⟨m_eq, rfl, ne_nil, tracks⟩
  case still   => exact .still (h.loosen tracks) eq_skipped halts
  case further =>
    obtain ⟨p, rfl⟩ := h.exists_succ (Nat.le_refl _)
    have amount_lt := h.amount_lt
    exact .further rfl rfl ne_nil (tracks.mono (by omega) (Nat.le_refl _))

-- If there have been nodes before, something has been gone past in order to get them.
theorem Reaches.after [LineSupplier α] {budget budget' : Budget} {s' t' u' : Session (Recorded α)}
    {before before' nodes : List Node} {u : Session α} {contexts : List Construct} {m n : Nat}
    (reaches : Reaches budget t' before contexts m n nodes u' u) (ne_nil : before ≠ []) :
    Reaches budget' s' before' contexts (m + 1) (n + 1) nodes u' u := by
  rcases reaches with ⟨tracks, _, _⟩ | ⟨rfl, rfl, ne_nil, tracks⟩
  case still   => exact .further rfl rfl ne_nil tracks
  case further => exact .further rfl rfl ne_nil (tracks.succ)

-- Both have expressions that come to the same, up to so much input.
def Meet [LineSupplier α] (expressions' : Budget → Reading α (List Node))
    (expressions : Budget → Builder α (List Node)) (depth steps : Nat) : Prop :=
  ∀ ⦃budget s' s contexts m n⦄, m ≤ depth → n ≤ steps → s'.Tracks s contexts m n →
    Agree (Reaches budget s' [] contexts m n) (expressions' budget s') (expressions budget s)

namespace Agree

section
variable [LineSupplier α] {s' : Session (Recorded α)} {s : Session α}
variable {contexts : List Construct} {m n : Nat}
variable {R : Node → Session (Recorded α) → Session α → Prop}

theorem noOperand (op : Operator) (h : s'.Tracks s contexts m n) (aligned : s'.Aligned) :
    Agree R (Cursor.noOperand op s')
      ((Builder.here >>= Builder.reject (.missingOperand op.family)) s) :=
  left rfl (left rfl (right rfl (reject h.line_eq (h.here_eq aligned).symm)))

variable {expressions' : Budget → Reading α (List Node)}
variable {expressions : Budget → Builder α (List Node)} {depth steps : Nat}
variable (meet : Meet expressions' expressions depth steps)
variable (le_depth : m ≤ depth) (le_steps : n ≤ steps)
include meet le_depth le_steps

theorem rightOperand (op : Operator) (h : s'.Tracks s contexts m n) :
    Agree (fun _ t' t => t'.Tracks t contexts m n) (Cursor.rightOperand expressions' op s')
      (Builder.rightOperand expressions op s) := by
  have h := h.skipped
  have aligned := Session.aligned_skipped s'
  refine skipBlanks (left rfl (right rfl ?_))
  rcases ahead_eq : s'.skipped.ahead with _ | ⟨c, rest⟩
  case nil =>
    rw [← h.rest_eq, Session.rest_of_ended ahead_eq]
    exact noOperand op h aligned
  case cons =>
    rw [← h.rest_eq, Session.rest_of_cons ahead_eq aligned]
    refine (meet le_depth le_steps h).bind fun nodes t' t reaches => ?_
    rcases reaches with ⟨tracks, eq_skipped, _⟩ | ⟨rfl, rfl, ne_nil, tracks⟩
    case still =>
      have aligned : t'.Aligned := eq_skipped rfl ▸ Session.aligned_skipped _
      exact noOperand op tracks aligned
    case further =>
      obtain ⟨node, nodes, rfl⟩ := List.exists_cons_of_ne_nil ne_nil
      dsimp only
      split
      case isTrue  => exact .ok (tracks.succ)
      case isFalse => exact reject tracks.line_eq rfl

end

section
variable [LineSupplier α] {s' : Session (Recorded α)} {s : Session α}
variable {contexts : List Construct} {m n : Nat}
variable {expressions' : Budget → Reading α (List Node)}
variable {expressions : Budget → Builder α (List Node)} {depth steps : Nat}
variable (meet : Meet expressions' expressions depth steps)
variable (le_depth : m ≤ depth + 1) (le_steps : n ≤ steps + 1)
include meet le_depth le_steps

theorem math {c : Char} {rest : List Char} (nodes : List Node) (h : s'.Tracks s contexts m n)
    (ahead_eq : s'.ahead = c :: rest) (aligned : s'.Aligned) (symbol : Cursor.isMathSymbol c) :
    Agree (Further contexts m n) (Cursor.math expressions' nodes s')
      (Builder.item expressions steps (s'.lexeme c rest) nodes s) := by
  have reads := Cursor.readsMath s'.place symbol ahead_eq
  have consume {u} := h.consume (u := u) ahead_eq aligned
  unfold Session.lexeme
  refine left rfl ?_
  generalize result_eq : Cursor.mathSymbol s'.place s' = result at reads
  generalize Token.read c rest = read at reads consume ⊢
  rcases reads with consumed | consumed | line_eq
  case operator op _ _ =>
    refine takeLeft (f := fun _ => _ >>= _) h.line_eq fun lhs nodes _ => left result_eq ?_
    obtain ⟨p, q, rfl, rfl, tracks⟩ := consume consumed
    refine right rfl ?_
    refine (rightOperand meet (by omega) (by omega) (.math op) tracks).bind fun _ _ _ tracks => ?_
    exact .ok ⟨p, q, rfl, rfl, tracks⟩
  case counter =>
    refine takeLeft (f := fun _ => _ >>= _) h.line_eq fun lhs nodes _ => left result_eq ?_
    obtain ⟨p, q, rfl, rfl, tracks⟩ := consume consumed
    refine right rfl ?_
    dsimp only
    split
    case isTrue  => exact reject tracks.line_eq rfl
    case isFalse => exact .ok ⟨p, q, rfl, rfl, tracks⟩
  case dot next _ =>
    refine takeLeft h.line_eq fun lhs nodes _ => ?_
    refine rejectLeft result_eq ?_
    cases next <;> exact reject (line_eq.trans h.line_eq) rfl

theorem relation {c : Char} {rest : List Char} (nodes : List Node) (h : s'.Tracks s contexts m n)
    (ahead_eq : s'.ahead = c :: rest) (aligned : s'.Aligned) (symbol : Cursor.isRelationSymbol c) :
    Agree (Further contexts m n) (Cursor.relation expressions' nodes s')
      (Builder.item expressions steps (s'.lexeme c rest) nodes s) := by
  have reads := Cursor.readsRelation s'.place symbol ahead_eq
  have consume {u} := h.consume (u := u) ahead_eq aligned
  unfold Session.lexeme
  refine left rfl ?_
  generalize result_eq : Cursor.relationSymbol s'.place s' = result at reads
  generalize Token.read c rest = read at reads consume ⊢
  obtain ⟨consumed⟩ := reads
  refine takeLeft (f := fun _ => _ >>= _) h.line_eq fun lhs nodes _ => left result_eq ?_
  obtain ⟨p, q, rfl, rfl, tracks⟩ := consume consumed
  refine right rfl ?_
  refine (rightOperand meet (by omega) (by omega) _ tracks).bind fun _ _ _ tracks => ?_
  exact .ok ⟨p, q, rfl, rfl, tracks⟩

theorem negation {rest : List Char} (nodes : List Node) (h : s'.Tracks s contexts m n)
    (ahead_eq : s'.ahead = '!' :: rest) (aligned : s'.Aligned) :
    Agree (Further contexts m n) (Cursor.negation expressions' nodes s')
      (Builder.item expressions steps (s'.lexeme '!' rest) nodes s) := by
  have read_eq := Token.read_grows (c := '!') rfl rest
  have eaten := Cursor.eat_apply '=' (s'.past 1)
  have consume {u} := h.consume (u := u) ahead_eq aligned
  rw [Cursor.ahead_past_one ahead_eq] at eaten
  unfold Session.lexeme
  refine left rfl (left (Cursor.advance_of_cons ahead_eq) ?_)
  split at eaten
  case isTrue next =>
    rw [if_pos next] at read_eq
    rw [read_eq] at consume ⊢
    refine left eaten (left rfl (takeLeft (f := fun _ => _ >>= _) h.line_eq fun lhs nodes _ => ?_))
    obtain ⟨p, q, rfl, rfl, tracks⟩ := consume (u := (s'.past 1).past 1) rfl
    refine right rfl ?_
    refine (rightOperand meet (by omega) (by omega) .notEqual tracks).bind fun _ _ _ tracks => ?_
    exact .ok ⟨p, q, rfl, rfl, tracks⟩
  case isFalse next =>
    rw [if_neg next] at read_eq
    rw [read_eq] at consume ⊢
    obtain ⟨p, q, rfl, rfl, tracks⟩ := consume rfl
    refine left eaten (right rfl ?_)
    refine (rightOperand meet (by omega) (by omega) .not tracks).bind fun _ _ _ tracks => ?_
    exact .ok ⟨p, q, rfl, rfl, tracks⟩

theorem typing {rest : List Char} (nodes : List Node) (h : s'.Tracks s contexts m n)
    (ahead_eq : s'.ahead = ':' :: rest) (aligned : s'.Aligned) :
    Agree (Further contexts m n) (Cursor.typing expressions' nodes s')
      (Builder.item expressions steps (s'.lexeme ':' rest) nodes s) := by
  have read_eq := Token.read_grows (c := ':') rfl rest
  have eaten := Cursor.eat_apply ':' (s'.past 1)
  have consume {u} := h.consume (u := u) ahead_eq aligned
  rw [Cursor.ahead_past_one ahead_eq] at eaten
  unfold Session.lexeme
  refine left rfl ?_
  split at eaten
  case isFalse next =>
    rw [if_neg next] at read_eq
    rw [read_eq]
    refine takeLeft h.line_eq fun lhs nodes _ => ?_
    refine left (Cursor.advance_of_cons ahead_eq) (left eaten (left rfl ?_))
    exact reject h.line_eq rfl
  case isTrue next =>
    rw [if_pos next] at read_eq
    rw [read_eq] at consume ⊢
    refine takeLeft (f := fun _ => _ >>= _) h.line_eq fun lhs nodes _ => ?_
    obtain ⟨p, q, rfl, rfl, tracks⟩ := consume (u := (s'.past 1).past 1) rfl
    refine left (Cursor.advance_of_cons ahead_eq) (left eaten (skipBlanks (left rfl ?_)))
    refine right (t := (Builder.consume s).2) rfl (right rfl ?_)
    have tracks := tracks.skipped
    have aligned := Session.aligned_skipped ((s'.past 1).past 1)
    generalize ((s'.past 1).past 1).skipped = t' at tracks aligned ⊢
    generalize (Builder.consume s).2 = t at tracks ⊢
    rcases next_eq : t'.ahead with _ | ⟨c, rest⟩
    case nil =>
      rw [← tracks.rest_eq, Session.rest_of_ended next_eq]
      exact .ok ⟨p, q, rfl, rfl, tracks⟩
    case cons =>
      rw [← tracks.rest_eq, Session.rest_of_cons next_eq aligned]
      refine left rfl (right rfl ?_)
      have ends : (Cursor.isRelationSymbol c || Cursor.closes t'.contexts.head? c) =
          ((t'.lexeme c rest).token.isRelation ||
            Builder.closesIn t.contexts.head? (t'.lexeme c rest).token) := by
        rw [Session.lexeme, Cursor.isRelation_read, Cursor.closesIn_read, tracks.contexts_eq,
          tracks.contexts_eq']
      rw [ends]
      split
      case isTrue  => exact .ok ⟨p, q, rfl, rfl, tracks⟩
      case isFalse =>
        refine (meet (by omega) (by omega) tracks).bind fun targets u' u reaches => ?_
        have tracks := reaches.tracks
        rcases targets with _ | ⟨target, _⟩
        case nil  => exact left rfl (.ok ⟨p, q, rfl, rfl, tracks.noting _⟩)
        case cons =>
          dsimp only
          split
          case isTrue  => exact .ok ⟨p, q, rfl, rfl, tracks⟩
          case isFalse => exact reject tracks.line_eq rfl

end

section
variable [LineSupplier α] {s' : Session (Recorded α)} {s : Session α}
variable {contexts : List Construct} {m n : Nat}

theorem separator (h : s'.Tracks s contexts m n) (aligned : s'.Aligned) :
    Agree (fun _ t' t => t'.Tracks t contexts m n ∧ t'.Aligned) (Cursor.separator s')
      (Builder.separator s) := by
  refine left rfl (right rfl ?_)
  rcases ahead_eq : s'.ahead with _ | ⟨c, rest⟩
  case nil =>
    rw [← h.rest_eq, Session.rest_of_ended ahead_eq]
    exact .ok ⟨h, aligned⟩
  case cons =>
    have ends : ((s'.lexeme c rest).token = .comma ∨ (s'.lexeme c rest).token = .closeParen) ↔
        (c = ',' ∨ c = ')') :=
      or_congr Token.isMark_comma.read_iff Token.isMark_closeParen.read_iff
    rw [← h.rest_eq, Session.rest_of_cons ahead_eq aligned]
    simp only [List.head?_cons, Bool.or_eq_true, decide_eq_true_eq, ends]
    split
    case isTrue  => exact .ok ⟨h, aligned⟩
    case isFalse => exact left rfl (reject h.line_eq rfl)

theorem closeEntry (paired : Bool) (place : Location) (entry : List Node)
    (h : s'.Tracks s contexts m n) (aligned : entry = [] → s'.Aligned) :
    Agree (fun _ t' t => t'.Tracks t contexts m n ∧ entry ≠ [])
      (Cursor.closeEntry paired place entry s') (Builder.closeEntry paired place entry s) := by
  have eaten {t' : Session (Recorded α)} {t : Session α} (tracks : t'.Tracks t contexts m n)
      (aligned : t'.Aligned) (ne_nil : entry ≠ []) :
      Agree (fun _ t' t => t'.Tracks t contexts m n ∧ entry ≠ [])
        ((Cursor.eat ',' >>= fun _ => pure ()) t')
        ((Builder.eat .comma >>= fun _ => pure ()) t) := by
    refine eat Token.isMark_comma tracks aligned (fun _ => .ok ⟨tracks, ne_nil⟩) ?_
    rintro p q rfl rfl _ tracks
    exact .ok ⟨tracks.succ, ne_nil⟩
  unfold Cursor.closeEntry Builder.closeEntry
  split
  case isTrue empty =>
    refine left rfl (left rfl (right rfl (reject h.line_eq ?_)))
    exact (h.here_eq (aligned (List.isEmpty_iff.mp empty))).symm
  case isFalse nonempty =>
    have ne_nil : entry ≠ [] := by simpa using nonempty
    have h := h.skipped
    have aligned := Session.aligned_skipped s'
    split
    case isTrue  => exact reject h.line_eq rfl
    case isFalse =>
      refine skipBlanks ?_
      split
      case isTrue  =>
        exact (separator h aligned).bind fun _ _ _ ⟨h, aligned⟩ => eaten h aligned ne_nil
      case isFalse => exact eaten h aligned ne_nil

end

theorem inside [LineSupplier α] {construct : Construct} {s' : Session (Recorded α)} {s : Session α}
    {contexts : List Construct} {m n : Nat} {x' : Reading α β} {x : Builder α β}
    (h : s'.Tracks s contexts m n)
    (hx : ∀ t' t, t'.Tracks t (construct :: contexts) m n →
      Agree (fun _ u' u => u'.Tracks u (construct :: contexts) m n) (x' t') (x t)) :
    Agree (fun _ t' t => t'.Tracks t contexts m n) (Cursor.inside construct x' s')
      (Builder.within construct x s) := by
  have entered := hx _ _ (h.enter construct)
  have eq' : Cursor.inside construct x' s' =
      ((x' (s'.entered construct)).1, (x' (s'.entered construct)).2.exited) :=
    rfl
  rw [eq', Builder.within]
  generalize x' (s'.entered construct) = r' at entered
  generalize x { s with contexts := construct :: s.contexts } = r at entered
  cases entered
  case ok tracks => exact .ok tracks.leave
  case failed    => exact .failed

section
variable [LineSupplier α] [LawfulSupplier α] {s' : Session (Recorded α)} {s : Session α}
variable {contexts : List Construct} {m n : Nat}
variable {expressions' : Budget → Reading α (List Node)}
variable {expressions : Budget → Builder α (List Node)} {depth steps : Nat}
variable (meet : Meet expressions' expressions depth steps)
include meet

theorem contentTurns {k j : Nat} (nodes : List Node) (le_depth : m ≤ depth) (le_steps : n ≤ steps)
    (enough' : m ≤ k) (enough : n ≤ j) (h : s'.Tracks s (.block :: contexts) m n) :
    Agree (fun _ t' t => t'.Tracks t (.block :: contexts) m n)
      (Cursor.turns (Cursor.contentTurn expressions') k nodes s')
      (Builder.content expressions steps j nodes s) := by
  induction j generalizing s' s m n k nodes
  case zero => exact absurd h.size_lt (by omega)
  case succ j hi =>
    obtain ⟨k, rfl⟩ := h.exists_succ enough'
    rw [Cursor.turns, Cursor.contentTurn]
    refine assoc ((skipToToken .block le_steps h).bind ?_)
    rintro _ t' t ⟨h, ready⟩
    refine assoc (eat Token.isMark_closeBrace h ready.aligned (fun noBrace => ?_) ?_)
    case refine_1 =>
      refine assoc ((meet le_depth le_steps h).bind fun more u' u reaches => ?_)
      rcases reaches with ⟨tracks, eq_skipped, halts⟩ | ⟨rfl, rfl, _, tracks⟩
      case still =>
        have halts := ready.halts (eq_skipped rfl ▸ halts rfl)
        obtain ⟨c, next, _⟩ := ready
        have closes := halts c next
        rw [h.contexts_eq', List.head?_cons, Cursor.closes_block] at closes
        exact absurd (next.trans (congrArg some closes)) noBrace
      case further =>
        refine left rfl ((hi _ (by omega) (by omega) (by omega) (by omega) tracks).mono ?_)
        exact fun _ _ _ tracks => tracks.succ
    case refine_2 =>
      rintro p q rfl rfl _ tracks
      exact left rfl (.ok tracks.succ)

theorem contentLoop (le_depth : m ≤ depth) (le_steps : n ≤ steps)
    (h : s'.Tracks s (.block :: contexts) m n) :
    Agree (fun _ t' t => t'.Tracks t (.block :: contexts) m n)
      (Cursor.loop (Cursor.contentTurn expressions') [] s')
      (Builder.content expressions steps steps [] s) :=
  (contentTurns meet [] (h.amount_lt.trans_le le_depth) le_steps (Nat.le_refl _) le_steps
    h.tight).mono fun _ _ _ => h.loosen

theorem block (le_depth : m ≤ depth + 1) (le_steps : n ≤ steps + 1) (h : s'.Tracks s contexts m n)
    (aligned : s'.Aligned) :
    Agree (Further contexts m n) (Cursor.block expressions' s')
      (Builder.block expressions steps s) := by
  refine left rfl (right rfl ?_)
  rw [h.here_eq aligned]
  refine eat Token.isMark_openBrace h aligned (fun _ => reject h.line_eq rfl) ?_
  rintro p q rfl rfl _ tracks
  refine (inside tracks fun t' t => ?_).bind fun _ _ _ tracks => ?_
  case refine_1 => exact contentLoop meet (by omega) (by omega)
  case refine_2 => exact skipBlanks (.ok ⟨p, q, rfl, rfl, tracks.skipped⟩)

theorem entriesTurns {k j : Nat} (paired : Bool) (done : List (List Node)) (le_depth : m ≤ depth)
    (le_steps : n ≤ steps) (enough' : m ≤ k) (enough : n ≤ j) (h : s'.Tracks s contexts m n) :
    Agree (fun _ t' t => t'.Tracks t contexts m n)
      (Cursor.turns (Cursor.entriesTurn expressions' paired) k done s')
      (Builder.entries expressions steps paired j done s) := by
  induction j generalizing s' s m n k done
  case zero => exact absurd h.size_lt (by omega)
  case succ j hi =>
    obtain ⟨k, rfl⟩ := h.exists_succ enough'
    rw [Cursor.turns, Cursor.entriesTurn]
    refine assoc ((skipToToken .group le_steps h).bind ?_)
    rintro _ t' t ⟨h, ready⟩
    refine assoc (eat Token.isMark_closeParen h ready.aligned (fun noParen => ?_) ?_)
    case refine_1 =>
      refine assoc (left rfl (right rfl ?_))
      rw [h.here_eq ready.aligned]
      refine assoc ((meet le_depth le_steps h).bind fun entry u' u reaches => ?_)
      have unspent : (if paired then .limited 2 else .unbounded : Budget).isSpent = false := by
        cases paired <;> rfl
      have aligned (nil : entry = []) : u'.Aligned := by
        rcases reaches with ⟨_, eq_skipped, _⟩ | ⟨_, _, ne_nil, _⟩
        case still   => exact eq_skipped unspent ▸ Session.aligned_skipped t'
        case further => exact absurd nil ne_nil
      rcases reaches with ⟨tracks, _, _⟩ | ⟨rfl, rfl, _, tracks⟩
      case still =>
        refine assoc ((closeEntry paired _ [] tracks aligned).bind ?_)
        rintro _ _ _ ⟨_, ne_nil⟩
        exact absurd rfl ne_nil
      case further =>
        refine assoc ((closeEntry paired _ entry tracks aligned).bind ?_)
        rintro _ _ _ ⟨tracks, _⟩
        refine left rfl ((hi _ (by omega) (by omega) (by omega) (by omega) tracks).mono ?_)
        exact fun _ _ _ tracks => tracks.succ
    case refine_2 =>
      rintro p q rfl rfl _ tracks
      exact left rfl (.ok tracks.succ)

theorem entriesLoop (paired : Bool) (le_depth : m ≤ depth) (le_steps : n ≤ steps)
    (h : s'.Tracks s contexts m n) :
    Agree (fun _ t' t => t'.Tracks t contexts m n)
      (Cursor.loop (Cursor.entriesTurn expressions' paired) [] s')
      (Builder.entries expressions steps paired steps [] s) :=
  (entriesTurns meet paired [] (h.amount_lt.trans_le le_depth) le_steps (Nat.le_refl _) le_steps
    h.tight).mono fun _ _ _ => h.loosen

theorem list (le_depth : m ≤ depth) (le_steps : n ≤ steps) (h : s'.Tracks s contexts m n) :
    Agree (fun _ t' t => t'.Tracks t contexts m n) (Cursor.list expressions' s')
      (Builder.list expressions steps s) := by
  refine left rfl (right rfl ?_)
  rw [h.contexts_eq', h.contexts_eq]
  split
  case isTrue  => exact entriesLoop meet true le_depth le_steps h
  case isFalse => exact inside h fun _ _ => entriesLoop meet false le_depth le_steps

theorem group (le_depth : m ≤ depth + 1) (le_steps : n ≤ steps + 1) (h : s'.Tracks s contexts m n)
    (aligned : s'.Aligned) :
    Agree (Further contexts m n) (Cursor.group expressions' s')
      (Builder.group expressions steps s) := by
  refine left rfl (right rfl ?_)
  rw [h.here_eq aligned]
  refine eat Token.isMark_openParen h aligned (fun _ => reject h.line_eq rfl) ?_
  rintro p q rfl rfl _ tracks
  refine (list meet (by omega) (by omega) tracks).bind fun _ _ _ tracks => ?_
  exact .ok ⟨p, q, rfl, rfl, tracks⟩

omit [LawfulSupplier α] in
theorem name (le_depth : m ≤ depth) (le_steps : n ≤ steps) (h : s'.Tracks s contexts m n) :
    Agree (fun _ t' t => t'.Tracks t contexts m n) (Cursor.name expressions' s')
      (Builder.name expressions s) := by
  have h := h.skipped
  refine skipBlanks (left rfl ((meet le_depth le_steps h).bind fun nodes t' t reaches => ?_))
  rcases reaches with ⟨tracks, eq_skipped, _⟩ | ⟨rfl, rfl, ne_nil, tracks⟩
  case still =>
    have aligned := Session.aligned_skipped s'
    have place_eq : t'.place = s'.skipped.place := by
      rw [eq_skipped rfl, Session.place_skipped aligned]
    have aligned : t'.Aligned := eq_skipped rfl ▸ Session.aligned_skipped _
    exact right rfl (reject tracks.line_eq (by rw [tracks.here_eq aligned, place_eq]))
  case further =>
    obtain ⟨node, nodes, rfl⟩ := List.exists_cons_of_ne_nil ne_nil
    dsimp only
    split
    case isTrue  => exact .ok (tracks.succ)
    case isFalse => exact reject tracks.line_eq rfl

theorem function (place : Location) (le_depth : m ≤ depth) (le_steps : n ≤ steps)
    (h : s'.Tracks s contexts m n) :
    Agree (fun _ t' t => t'.Tracks t contexts m n) (Cursor.function expressions' place s')
      (Builder.function expressions steps place s) := by
  refine inside h fun t' t h => ?_
  refine (name meet le_depth le_steps h).bind fun _ _ _ h => ?_
  refine (skipToToken .declaration le_steps h).bind fun _ _ _ ⟨h, ready⟩ => ?_
  refine (group meet (by omega) (by omega) h ready.aligned).bind fun _ _ _ ⟨_, _, _, _, h⟩ => ?_
  refine (skipToToken .declaration (by omega) h).bind fun _ _ _ ⟨h, ready⟩ => ?_
  refine (block meet (by omega) (by omega) h ready.aligned).bind fun _ _ _ ⟨_, _, _, _, h⟩ => ?_
  exact .ok (h.mono (by omega) (by omega))

omit [LawfulSupplier α] meet in
-- A word is a token.
theorem takeLetters {c : Char} {rest : List Char} (h : s'.Tracks s contexts m n)
    (ahead_eq : s'.ahead = c :: rest) (aligned : s'.Aligned) (letter : isLetter c) :
    ∃ letters p q t', m = p + 1 ∧ n = q + 1 ∧
      Cursor.takeWhile isLetter s' = (.ok letters, t') ∧
      t'.Tracks (Builder.consume s).2 contexts p q ∧
      (Token.read c rest).1 = Token.ofWord letters t'.ahead := by
  have run : s'.ahead.takeWhile isLetter = c :: rest.takeWhile isLetter := by
    rw [ahead_eq, List.takeWhile_cons_of_pos letter]
  have read_eq : Token.read c rest = (Token.ofWord (c :: rest.takeWhile isLetter)
      (rest.dropWhile isLetter), (rest.takeWhile isLetter).length) := by
    rw [Token.read, if_pos letter]
    rfl
  obtain ⟨p, q, rfl, rfl, tracks⟩ := h.consume (u := s'.past (s'.ahead.takeWhile isLetter).length)
    ahead_eq aligned (by rw [read_eq, run, List.length_cons])
  refine ⟨_, p, q, _, rfl, rfl, rfl, tracks, ?_⟩
  rw [Session.ahead_past, drop_length_takeWhile, run, ahead_eq, List.dropWhile_cons_of_pos letter,
    read_eq]

theorem word {c : Char} {rest : List Char} (nodes : List Node) (le_depth : m ≤ depth + 1)
    (le_steps : n ≤ steps + 1) (h : s'.Tracks s contexts m n) (ahead_eq : s'.ahead = c :: rest)
    (aligned : s'.Aligned) (letter : isLetter c) :
    Agree (Further contexts m n) ((Cursor.word expressions' >>= fun node => pure (node, nodes)) s')
      (Builder.item expressions steps (s'.lexeme c rest) nodes s) := by
  obtain ⟨letters, p, q, t', rfl, rfl, taken, tracks, token_eq⟩ :=
    takeLetters h ahead_eq aligned letter
  rw [Session.lexeme, token_eq]
  refine assoc (left rfl (assoc (left taken ?_)))
  split
  case h_1 =>
    refine assoc (left rfl (right rfl ?_))
    rw [tracks.contexts_eq', h.contexts_eq]
    split
    case isTrue  => exact rejectLeft rfl (reject tracks.line_eq rfl)
    case isFalse =>
      refine right rfl ((function meet _ (by omega) (by omega) tracks).bind fun _ _ _ tracks => ?_)
      exact .ok ⟨p, q, rfl, rfl, tracks⟩
  case h_5 =>
    have name : Token.ofWord letters t'.ahead =
        .name (String.ofList letters) (t'.ahead.head? = some '(') := by
      unfold Token.ofWord
      split <;> first | contradiction | rfl
    rw [name]
    refine assoc (left rfl (assoc (left rfl ?_)))
    refine right (t := (Builder.consume s).2) rfl (right rfl ?_)
    rw [tracks.contexts_eq', tracks.contexts_eq]
    split
    case isTrue called =>
      have aligned : t'.Aligned := by
        intro d next
        have paren := of_decide_eq_true (Bool.and_elim_left called)
        cases paren.symm.trans next
        rfl
      refine assoc ((group meet (by omega) (by omega) tracks aligned).bind fun _ _ _ further => ?_)
      obtain ⟨_, _, rfl, rfl, closed⟩ := further
      exact .ok ⟨_, _, rfl, rfl, closed.succ⟩
    case isFalse => exact .ok ⟨p, q, rfl, rfl, tracks⟩
  all_goals exact right rfl (.ok ⟨p, q, rfl, rfl, tracks⟩)

omit [LawfulSupplier α] meet in
theorem number {c : Char} {rest : List Char} (nodes : List Node) (h : s'.Tracks s contexts m n)
    (ahead_eq : s'.ahead = c :: rest) (aligned : s'.Aligned) (digit : c.isDigit) :
    Agree (Further contexts m n) ((Cursor.number >>= fun node => pure (node, nodes)) s')
      (Builder.item expressions steps (s'.lexeme c rest) nodes s) := by
  have reads := Cursor.readsNumber digit ahead_eq
  have consume {u} := h.consume (u := u) ahead_eq aligned
  unfold Session.lexeme
  generalize result_eq : Cursor.number s' = result at reads
  generalize Token.read c rest = read at reads consume ⊢
  rcases reads with consumed | consumed | line_eq
  case number | name =>
    obtain ⟨p, q, rfl, rfl, tracks⟩ := consume consumed
    exact left result_eq (right rfl (.ok ⟨p, q, rfl, rfl, tracks⟩))
  case bad => exact rejectLeft result_eq (reject (line_eq.trans h.line_eq) rfl)

omit [LawfulSupplier α] meet in
theorem string {c : Char} {rest : List Char} (nodes : List Node) (h : s'.Tracks s contexts m n)
    (ahead_eq : s'.ahead = c :: rest) (aligned : s'.Aligned) (quote : Token.isQuote c) :
    Agree (Further contexts m n) ((Cursor.string >>= fun node => pure (node, nodes)) s')
      (Builder.item expressions steps (s'.lexeme c rest) nodes s) := by
  have reads := Cursor.readsString quote ahead_eq
  have consume {u} := h.consume (u := u) ahead_eq aligned
  unfold Session.lexeme
  generalize result_eq : Cursor.string s' = result at reads
  generalize Token.read c rest = read at reads consume ⊢
  rcases reads with consumed | line_eq
  case closed =>
    obtain ⟨p, q, rfl, rfl, tracks⟩ := consume consumed
    exact left result_eq (right rfl (.ok ⟨p, q, rfl, rfl, tracks⟩))
  case unclosed => exact rejectLeft result_eq (reject (line_eq.trans h.line_eq) rfl)

omit [LawfulSupplier α] meet in
-- A character that no expression begins with.
theorem stray {c : Char} {rest : List Char} (nodes : List Node) (h : s'.Tracks s contexts m n)
    (read_eq : (Token.read c rest).1 = .closeBrace ∧ c = '}' ∨
      (Token.read c rest).1 = .closeParen ∧ c = ')' ∨ (Token.read c rest).1 = .comma ∧ c = ',' ∨
      (Token.read c rest).1 = .stray c) :
    Agree (Further contexts m n) ((Cursor.here >>= Builder.reject (.strayCharacter c)) s')
      (Builder.item expressions steps (s'.lexeme c rest) nodes s) := by
  unfold Session.lexeme
  refine left rfl ?_
  rcases read_eq with ⟨eq, rfl⟩ | ⟨eq, rfl⟩ | ⟨eq, rfl⟩ | eq
  all_goals
    rw [eq]
    exact reject h.line_eq rfl

theorem item {c : Char} {rest : List Char} (nodes : List Node) (le_depth : m ≤ depth + 1)
    (le_steps : n ≤ steps + 1) (h : s'.Tracks s contexts m n) (ahead_eq : s'.ahead = c :: rest)
    (aligned : s'.Aligned) :
    Agree (Further contexts m n) (Cursor.item expressions' c nodes s')
      (Builder.item expressions steps (s'.lexeme c rest) nodes s) := by
  unfold Cursor.item
  split_ifs with letter digit quote
  case pos => exact word meet nodes le_depth le_steps h ahead_eq aligned letter
  case pos => exact number nodes h ahead_eq aligned digit
  case pos => exact string nodes h ahead_eq aligned quote
  case neg =>
    split
    case h_1 | h_2 | h_3 | h_4 | h_5 | h_6 | h_7 =>
      exact math meet le_depth le_steps nodes h ahead_eq aligned rfl
    case h_8 | h_9 | h_10 => exact relation meet le_depth le_steps nodes h ahead_eq aligned rfl
    case h_11 => exact negation meet le_depth le_steps nodes h ahead_eq aligned
    case h_12 => exact typing meet le_depth le_steps nodes h ahead_eq aligned
    case h_13 =>
      refine (block meet le_depth le_steps h aligned).bind fun _ _ _ further => ?_
      exact .ok further
    case h_14 =>
      refine (group meet le_depth le_steps h aligned).bind fun _ _ _ further => ?_
      exact .ok further
    case h_15 =>
      refine stray nodes h ?_
      rw [Token.read, if_neg letter, if_neg digit, if_neg quote]
      unfold Token.readSymbol
      split
      all_goals first | contradiction | simp

end

section
variable [LineSupplier α] [LawfulSupplier α] {s' : Session (Recorded α)} {s : Session α}
variable {contexts : List Construct} {m n depth steps k : Nat}

-- The induction is on the steps of the one descent. The other one has turns instead, and spends a
-- level of depth only where it goes into an expression.
theorem expressionTurns (budget : Budget) (nodes : List Node) (le_depth : m ≤ depth + 1)
    (le_steps : n ≤ steps) (enough : m ≤ k) (h : s'.Tracks s contexts m n) :
    Agree (Reaches budget s' nodes contexts m n)
      ((Cursor.turns (Cursor.expressionTurn (Cursor.expressions depth)) k (budget, nodes) >>=
        fun (_, nodes) => pure nodes) s')
      (Builder.dispatch steps budget nodes s) := by
  induction steps generalizing depth k budget nodes s' s contexts m n
  case zero => exact absurd h.size_lt (by omega)
  case succ steps hi =>
    have meet : Meet (Cursor.expressions (α := α) depth) (Builder.dispatch steps · []) depth
        steps := by
      intro budget t' t contexts m n le_depth le_steps h
      obtain ⟨depth, rfl⟩ := h.exists_succ le_depth
      have inner := hi budget [] (h.amount_lt.trans_le le_depth) le_steps (Nat.le_refl _) h.tight
      exact inner.mono fun _ _ _ => .loosen h
    obtain ⟨k, rfl⟩ := h.exists_succ enough
    rw [Cursor.turns, Cursor.expressionTurn, Builder.dispatch]
    split
    case isTrue spent => exact .ok (.still h (by simp [spent]) (by simp [spent]))
    case isFalse =>
      have h := h.skipped
      have aligned := Session.aligned_skipped s'
      refine assoc (assoc (skipBlanks (assoc (left rfl (right rfl ?_)))))
      rcases ahead_eq : s'.skipped.ahead with _ | ⟨c, rest⟩
      case nil =>
        rw [← h.rest_eq, Session.rest_of_ended ahead_eq]
        exact .ok (.still h (fun _ => rfl) fun _ _ next => by simp [ahead_eq] at next)
      case cons =>
        rw [← h.rest_eq, Session.rest_of_cons ahead_eq aligned]
        refine assoc (left rfl (right rfl ?_))
        have ends : Cursor.closes s'.skipped.contexts.head? c =
            Builder.closesIn s.contexts.head? (s'.skipped.lexeme c rest).token := by
          rw [Session.lexeme, Cursor.closesIn_read, h.contexts_eq, h.contexts_eq']
        rw [ends]
        split
        case isTrue closes =>
          refine .ok (.still h (fun _ => rfl) fun _ d next => ?_)
          rw [ahead_eq, List.head?_cons, Option.mem_some] at next
          rw [← next, ends, closes]
        case isFalse =>
          refine assoc ((item meet nodes le_depth le_steps h ahead_eq aligned).bind ?_)
          rintro ⟨node, nodes⟩ t' t ⟨p, q, rfl, rfl, tracks⟩
          refine left rfl ((hi budget.spend (node :: nodes) (by omega) (by omega) (by omega)
            tracks).mono ?_)
          exact fun _ _ _ reaches => reaches.after (List.cons_ne_nil node nodes)

theorem expressions : Meet (Cursor.expressions (α := α) depth) (Builder.dispatch steps · []) depth
    steps := by
  intro budget s' s contexts m n le_depth le_steps h
  obtain ⟨depth, rfl⟩ := h.exists_succ le_depth
  have turns :=
    expressionTurns budget [] (h.amount_lt.trans_le le_depth) le_steps (Nat.le_refl _) h.tight
  exact turns.mono fun _ _ _ => .loosen h

theorem programTurns (nodes : List Node) (supplier_eq : s'.supplier.supplier = s.supplier)
    (contexts_eq' : s'.contexts = contexts) (contexts_eq : s.contexts = contexts)
    (isValid : LineSupplier.IsValid s.supplier) (amount_le : s'.amount ≤ depth)
    (enough : s'.amount < k) (size_lt : (LineSupplier.feed s.supplier).size < steps) :
    Agree (fun _ _ _ => True)
      (Cursor.turns (Cursor.programTurn (Cursor.expressions depth)) k nodes s')
      (Builder.lines steps nodes s) := by
  induction steps generalizing k nodes s' s
  case zero => exact absurd size_lt (Nat.not_lt_zero _)
  case succ steps hi =>
    obtain ⟨k, rfl⟩ := Nat.exists_eq_succ_of_ne_zero (Nat.ne_zero_of_lt enough)
    rw [Cursor.turns, Cursor.programTurn, Builder.lines]
    refine assoc ((pullLine supplier_eq contexts_eq' contexts_eq isValid).bind ?_)
    intro more t' t pulled
    cases pulled
    case ended => exact .ok trivial
    case line tracks =>
      refine assoc ((expressions amount_le (Nat.le_of_lt_succ size_lt) tracks).bind ?_)
      intro more u' u reaches
      have tracks := reaches.tracks
      refine left rfl (hi _ tracks.supplier_eq tracks.contexts_eq' tracks.contexts_eq
        tracks.isValid (tracks.amount_lt.le.trans amount_le) ?_ ?_)
      case refine_1 => exact tracks.amount_lt.trans_le (Nat.le_of_lt_succ enough)
      case refine_2 =>
        have feed_le : (LineSupplier.feed u.supplier).size ≤ u.size := Nat.le_add_left _ _
        exact feed_le.trans_lt (tracks.size_lt.trans_le (Nat.le_of_lt_succ size_lt))

end
end Agree

namespace Cursor

variable [LineSupplier α] [LawfulSupplier α] {s : Session α}
variable (isValid : LineSupplier.IsValid s.supplier) (events : List Event)
include isValid

-- Without tokens, expressions come to what they come to with them.
theorem expressions_eq {depth steps : Nat} (budget : Budget)
    (position_le : s.position ≤ s.line.text.length) (enough' : s.amount < depth)
    (enough : s.size < steps) :
    (expressions depth budget (s.recorded events)).1 = (Builder.dispatch steps budget [] s).1 := by
  have tracks : (s.recorded events).Tracks s s.contexts depth steps :=
    ⟨rfl, rfl, rfl, rfl, rfl, position_le, isValid, enough', enough⟩
  exact (Agree.expressions (Nat.le_refl _) (Nat.le_refl _) tracks).fst_eq

theorem program_eq : (program (s.recorded events)).1 = (Session.parseProgram s).1 :=
  Agree.fst_eq (Agree.programTurns [] rfl rfl rfl isValid (Nat.le_refl _) (Nat.lt_succ_self _)
    (Nat.lt_succ_self _))

end Cursor
end WispSyntax

import WispSyntax.Proofs.FaultPlaces
import WispSyntax.Proofs.Punctuation
import WispSyntax.Proofs.Runs

/-!
What a descent without tokens finds in a line is what the lexer finds there: the marks that it goes
past (`Token.IsMark`), the operators, numbers and strings that it reads (`Cursor.readsMath` and so
on), and where it is afterwards. A session without tokens may be somewhat behind one with tokens,
because blanks may be left in front of it (`Session.Tracks`).
-/

namespace WispSyntax

open WispSyntax.Parser

variable {α β γ σ : Type}

theorem Lexeme.ofChars_skipBlanks (place : Location) (chars : List Char) :
    ofChars place 0 chars =
      ofChars (place.right (chars.takeWhile isBlank).length) 0 (chars.dropWhile isBlank) := by
  induction chars generalizing place
  case nil => rfl
  case cons c chars hi =>
    rw [List.takeWhile_cons, List.dropWhile_cons]
    split
    case isTrue blank =>
      rw [ofChars, if_pos blank, hi, Location.right_right, List.length_cons, Nat.add_comm]
    case isFalse => rfl

namespace Token

-- The character is a token by itself.
structure IsMark (c : Char) (token : Token) : Prop where
  read_eq (rest : List Char) : read c rest = (token, 0)
  marks_eq : token.marks = [c]

theorem isMark_openBrace : IsMark '{' openBrace := ⟨fun _ => rfl, rfl⟩
theorem isMark_closeBrace : IsMark '}' closeBrace := ⟨fun _ => rfl, rfl⟩
theorem isMark_openParen : IsMark '(' openParen := ⟨fun _ => rfl, rfl⟩
theorem isMark_closeParen : IsMark ')' closeParen := ⟨fun _ => rfl, rfl⟩
theorem isMark_comma : IsMark ',' comma := ⟨fun _ => rfl, rfl⟩

theorem marks_read (c : Char) (rest : List Char) :
    (read c rest).1.marks = [c].filter isPunctuation := by
  cases quote : isQuote c
  case false => exact marks_of_read quote rfl
  case true  =>
    obtain ⟨letter, digit, _⟩ := ordinary_of_isQuote quote
    rw [read, letter, digit, quote]
    rcases isQuote_iff.mp quote with rfl | rfl | rfl
    all_goals rcases readString_eq rest with ⟨_, eq⟩ | ⟨_, _, _, _, _, _, eq⟩ <;> simp [eq] <;> rfl

theorem IsMark.read_iff {c d : Char} {token : Token} {rest : List Char} (h : IsMark c token) :
    (read d rest).1 = token ↔ d = c := by
  constructor
  case mp =>
    intro read_eq
    have marks := marks_read d rest
    rw [read_eq, h.marks_eq] at marks
    have mem : c ∈ [d].filter isPunctuation := marks ▸ List.mem_singleton_self c
    exact (List.mem_singleton.mp (List.mem_of_mem_filter mem)).symm
  case mpr =>
    rintro rfl
    rw [h.read_eq]

-- A symbol may become another one together with the character after it: this character, the longer
-- symbol and the shorter one.
def grows : Char → Option (Char × Token × Token)
  | '+' => some ('+', counter .increment, operator (.math .add))
  | '-' => some ('-', counter .decrement, operator (.math .subtract))
  | '=' => some ('=', operator (.relation .equal), operator (.relation .assign))
  | '<' => some ('=', operator (.relation .lessEq), operator (.relation .less))
  | '>' => some ('=', operator (.relation .greaterEq), operator (.relation .greater))
  | '!' => some ('=', operator .notEqual, operator .not)
  | ':' => some (':', operator .cast, colon)
  | _   => none

theorem read_grows {c d : Char} {longer shorter : Token}
    (h : grows c = some (d, longer, shorter)) (rest : List Char) :
    read c rest = if rest.head? = some d then (longer, 1) else (shorter, 0) := by
  unfold grows at h
  split at h <;> cases h
  all_goals
    rcases rest with _ | ⟨e, rest⟩
    case nil => rfl
    case cons =>
      simp only [List.head?_cons, Option.some.injEq]
      split
      case isTrue next =>
        subst next
        rfl
      case isFalse next =>
        change readSymbol _ (e :: rest) = _
        simp [readSymbol, next]

end Token

namespace Cursor

theorem closesIn_read (innermost : Option Construct) (c : Char) (rest : List Char) :
    Builder.closesIn innermost (Token.read c rest).1 = closes innermost c := by
  unfold closes
  split
  case h_1 | h_2 | h_3 => rfl
  case h_4 noBrace noParen noComma =>
    unfold Builder.closesIn
    split
    case h_1 eq => exact absurd (Token.isMark_closeBrace.read_iff.mp eq) noBrace
    case h_2 eq => exact absurd (Token.isMark_closeParen.read_iff.mp eq) noParen
    case h_3 eq => exact absurd (Token.isMark_comma.read_iff.mp eq) noComma
    case h_4    => rfl

theorem isRelation_readSymbol (c : Char) (rest : List Char) :
    (Token.readSymbol c rest).1.isRelation = isRelationSymbol c := by
  unfold Token.readSymbol
  split
  case h_30 => simp_all [isRelationSymbol, Token.isRelation]
  all_goals rfl

theorem isRelation_read (c : Char) (rest : List Char) :
    (Token.read c rest).1.isRelation = isRelationSymbol c := by
  have ordinary (h : isLetter c ∨ c.isDigit ∨ Token.isQuote c) : isRelationSymbol c = false := by
    refine Bool.eq_false_iff.mpr fun relation => ?_
    simp only [isRelationSymbol, Bool.or_eq_true, decide_eq_true_eq] at relation
    rcases relation with (rfl | rfl) | rfl <;> revert h <;> decide +kernel
  rcases read_eq : Token.read c rest with ⟨t, n⟩
  cases Token.reads_of_read read_eq
  case word letter =>
    rw [ordinary (.inl letter)]
    unfold Token.ofWord
    split <;> rfl
  case numeral digit numeral =>
    rw [ordinary (.inr (.inl digit))]
    rcases numeral.form with ⟨_, _, rfl⟩ | ⟨_, rfl⟩ | ⟨_, rfl⟩ <;> rfl
  case string quote h =>
    rw [ordinary (.inr (.inr quote))]
    rcases Token.readString_eq rest with ⟨_, eq⟩ | ⟨_, _, _, _, _, _, eq⟩
    all_goals
      obtain ⟨rfl, _⟩ := Prod.mk.inj (eq.symm.trans h)
      rfl
  case symbol h =>
    rw [← isRelation_readSymbol c rest, h]

end Cursor

namespace Session

-- The token at the front of what is left of the line, if it begins with this character.
def lexeme (s : Session α) (c : Char) (rest : List Char) : Lexeme where
  token := (Token.read c rest).1
  start := s.place
  stop  := s.place.right ((Token.read c rest).2 + 1)

-- There are no blanks to go past.
def Aligned (s : Session α) : Prop :=
  ∀ c ∈ s.ahead.head?, isBlank c = false

theorem rest_past (s : Session (Recorded α)) (n : Nat) :
    (s.past n).rest = Lexeme.ofChars (s.place.right n) 0 (s.ahead.drop n) := by
  change Lexeme.ofChars (s.past n).place 0 (s.past n).ahead = _
  rw [ahead_past, place, place, Location.right_right]
  rfl

theorem rest_skipped (s : Session (Recorded α)) : s.skipped.rest = s.rest := by
  have skips := Lexeme.ofChars_skipBlanks s.place s.ahead
  rw [← ahead_skipped, skipped, ahead_past, ← rest_past] at skips
  exact skips.symm

theorem aligned_skipped (s : Session (Recorded α)) : s.skipped.Aligned := by
  intro c next
  obtain ⟨d, next', notBlank⟩ := ready_of_skipped next
  cases next.symm.trans next'
  exact notBlank

theorem place_skipped {s : Session (Recorded α)} (aligned : s.Aligned) :
    s.skipped.place = s.place := by
  have none : s.ahead.takeWhile isBlank = [] := by
    rcases ahead_eq : s.ahead with _ | ⟨c, rest⟩
    case nil  => rfl
    case cons => simp [aligned c (by simp [ahead_eq])]
  rw [skipped, none]
  rfl

theorem Ready.aligned {s : Session α} (h : s.Ready) : s.Aligned := by
  intro c next
  obtain ⟨d, next', notBlank⟩ := h
  cases next.symm.trans next'
  exact notBlank

theorem rest_of_ended {s : Session α} (h : s.ahead = []) : s.rest = [] := by
  change Lexeme.ofChars s.place 0 s.ahead = []
  rw [h, Lexeme.ofChars]

theorem rest_of_cons {s : Session (Recorded α)} {c : Char} {rest : List Char}
    (ahead_eq : s.ahead = c :: rest) (aligned : s.Aligned) :
    s.rest = s.lexeme c rest :: (s.past ((Token.read c rest).2 + 1)).rest := by
  have notBlank : isBlank c = false := aligned c (by simp [ahead_eq])
  rw [rest_past]
  change Lexeme.ofChars s.place 0 s.ahead = _
  rw [ahead_eq, Lexeme.ofChars, if_neg (by simp [notBlank])]
  simp only [Lexeme.ofChars_drop _ (Token.read c rest).2, Location.right_right, Nat.add_comm 1,
    List.drop_succ_cons]
  rfl

section
variable [LineSupplier α]

-- The one session is where the other is, up to blanks, both are inside of these constructs, and
-- there are less than so many characters and less than so many tokens left.
structure Tracks (s' : Session (Recorded α)) (s : Session α) (contexts : List Construct)
    (m n : Nat) : Prop where
  supplier_eq  : s'.supplier.supplier = s.supplier
  line_eq      : s'.line = s.line
  contexts_eq' : s'.contexts = contexts
  contexts_eq  : s.contexts = contexts
  rest_eq      : s'.rest = s.rest
  position_le  : s'.position ≤ s'.line.text.length
  isValid      : LineSupplier.IsValid s.supplier
  amount_lt    : s'.amount < m
  size_lt      : s.size < n

namespace Tracks

variable {s' u : Session (Recorded α)} {s : Session α} {contexts : List Construct} {m n : Nat}

theorem mono {p q : Nat} (h : s'.Tracks s contexts m n) (amount_le : m ≤ p) (size_le : n ≤ q) :
    s'.Tracks s contexts p q :=
  { h with
    amount_lt := h.amount_lt.trans_le amount_le
    size_lt   := h.size_lt.trans_le size_le }

theorem succ (h : s'.Tracks s contexts m n) : s'.Tracks s contexts (m + 1) (n + 1) :=
  h.mono (Nat.le_succ m) (Nat.le_succ n)

theorem exists_succ (h : s'.Tracks s contexts m n) {k : Nat} (le : m ≤ k) : ∃ j, k = j + 1 :=
  Nat.exists_eq_succ_of_ne_zero (Nat.ne_zero_of_lt (h.amount_lt.trans_le le))

-- As many turns as a loop has are enough for what is left.
theorem tight (h : s'.Tracks s contexts m n) : s'.Tracks s contexts (s'.amount + 1) n :=
  { h with amount_lt := Nat.lt_succ_self _ }

theorem loosen {t : Session α} (h : s'.Tracks s contexts m n)
    (h' : u.Tracks t contexts (s'.amount + 1) n) : u.Tracks t contexts m n :=
  h'.mono h.amount_lt (Nat.le_refl n)

-- What has been recorded makes no difference.
theorem congr (h : s'.Tracks s contexts m n) (plain_eq : u.plain = s'.plain) :
    u.Tracks s contexts m n := by
  obtain ⟨⟨supplier', events'⟩, line', position', contexts'⟩ := u
  obtain ⟨⟨supplier, events⟩, line, position, contexts⟩ := s'
  cases plain_eq
  exact ⟨h.supplier_eq, h.line_eq, h.contexts_eq', h.contexts_eq, h.rest_eq, h.position_le,
    h.isValid, h.amount_lt, h.size_lt⟩

theorem position_past (h : s'.Tracks s contexts m n) {k : Nat} (le : k ≤ s'.ahead.length) :
    (s'.past k).position ≤ (s'.past k).line.text.length := by
  have position_le := h.position_le
  rw [ahead, List.length_drop, String.length_toList] at le
  change s'.position + k ≤ s'.line.text.length
  omega

theorem skipped (h : s'.Tracks s contexts m n) : s'.skipped.Tracks s contexts m n :=
  { h with
    rest_eq     := (rest_skipped s').trans h.rest_eq
    position_le := h.position_past (List.takeWhile_sublist _).length_le
    amount_lt   := by
      refine (Nat.add_le_add_right ?_ _).trans_lt h.amount_lt
      rw [ahead_skipped]
      exact (List.dropWhile_sublist _).length_le }

-- To go past a token is to go past its characters.
theorem consume (h : s'.Tracks s contexts m n) {c : Char} {rest : List Char}
    (ahead_eq : s'.ahead = c :: rest) (aligned : s'.Aligned)
    (plain_eq : u.plain = (s'.past ((Token.read c rest).2 + 1)).plain) :
    ∃ m' n', m = m' + 1 ∧ n = n' + 1 ∧ u.Tracks (Builder.consume s).2 contexts m' n' := by
  have rest_eq := rest_of_cons ahead_eq aligned
  have length_le : (Token.read c rest).2 + 1 ≤ s'.ahead.length := by
    rw [ahead_eq]
    exact Nat.succ_le_succ (Token.length_le_of_read rfl)
  have pos : 0 < (Token.read c rest).2 + 1 := Nat.succ_pos _
  generalize (Token.read c rest).2 + 1 = k at plain_eq length_le rest_eq pos
  have shorter : (s'.past k).amount < s'.amount := by
    refine Nat.add_lt_add_right ?_ _
    rw [ahead_past, List.length_drop]
    exact Nat.sub_lt (pos.trans_le length_le) pos
  have fewer : (Builder.consume s).2.size < s.size := by
    refine Nat.add_lt_add_right ?_ _
    rw [rest_consume, ← h.rest_eq, rest_eq]
    exact Nat.lt_succ_self _
  have amount_lt := h.amount_lt
  have size_lt := h.size_lt
  cases m
  case zero => exact absurd amount_lt (Nat.not_lt_zero _)
  case succ m =>
  cases n
  case zero => exact absurd size_lt (Nat.not_lt_zero _)
  case succ n =>
  have past : (s'.past k).Tracks (Builder.consume s).2 contexts m n :=
    { h with
      rest_eq     := by rw [rest_consume, ← h.rest_eq, rest_eq, List.tail_cons]
      position_le := h.position_past length_le
      amount_lt   := shorter.trans_le (Nat.le_of_lt_succ amount_lt)
      size_lt     := fewer.trans_le (Nat.le_of_lt_succ size_lt) }
  exact ⟨m, n, rfl, rfl, past.congr plain_eq⟩

theorem enter (h : s'.Tracks s contexts m n) (construct : Construct) :
    (s'.entered construct).Tracks { s with contexts := construct :: s.contexts }
      (construct :: contexts) m n :=
  { h with
    contexts_eq' := congrArg (construct :: ·) h.contexts_eq'
    contexts_eq  := congrArg (construct :: ·) h.contexts_eq }

theorem leave {construct : Construct} (h : s'.Tracks s (construct :: contexts) m n) :
    s'.exited.Tracks { s with contexts := s.contexts.tail } contexts m n :=
  { h with
    contexts_eq' := congrArg List.tail h.contexts_eq'
    contexts_eq  := congrArg List.tail h.contexts_eq }

theorem noting (h : s'.Tracks s contexts m n) (e : Event) : (s'.noting e).Tracks s contexts m n :=
  h.congr rfl

-- What the one session takes for its place is the place of the other's next token.
theorem here_eq (h : s'.Tracks s contexts m n) (aligned : s'.Aligned) :
    s.rest.head?.elim s.line.stop (·.start) = s'.place := by
  rw [← h.rest_eq, ← h.line_eq]
  rcases ahead_eq : s'.ahead with _ | ⟨c, rest⟩
  case nil =>
    have le := h.position_le
    have ge := List.drop_eq_nil_iff.mp ahead_eq
    rw [String.length_toList] at ge
    rw [rest_of_ended ahead_eq, List.head?_nil, Option.elim_none, place, SourceLine.stop,
      Nat.le_antisymm le ge]
  case cons =>
    rw [rest_of_cons ahead_eq aligned]
    rfl

end Tracks
end
end Session

theorem Builder.eat_apply (token : Token) (s : Session α) :
    eat token s =
      if s.rest.head?.any (·.token = token) then (.ok true, (consume s).2) else (.ok false, s) := by
  rcases head : s.rest.head? with _ | l
  case none =>
    rw [eat, bind_apply, peek, head]
    rfl
  case some =>
    rw [eat, bind_apply, peek, head, Option.any_some]
    by_cases same : l.token = token
    case pos => simp only [same, if_true]; rfl
    case neg => simp only [same, if_false]; rfl

theorem Builder.bind_assoc (x : Builder α β) (f : β → Builder α γ) (g : γ → Builder α σ) :
    (x >>= f) >>= g = x >>= fun b => f b >>= g := by
  funext s
  simp only [bind_apply]
  rcases x s with ⟨_ | _, _⟩ <;> rfl

namespace Cursor

variable {s : Session (Recorded α)} {c : Char} {rest : List Char}

-- The session has gone past a token, whatever has been recorded.
def Consumed (s : Session (Recorded α)) (n : Nat) (t : Session (Recorded α)) : Prop :=
  t.plain = (s.past (n + 1)).plain

theorem ahead_past_one (ahead_eq : s.ahead = c :: rest) : (s.past 1).ahead = rest := by
  rw [Session.ahead_past, ahead_eq, List.drop_one, List.tail_cons]

-- What the symbol of an operator on numbers comes to.
inductive ReadsMath (s : Session (Recorded α)) :
    Token × Nat → Except Failure (MathOperator ⊕ Counter) × Session (Recorded α) → Prop
  | operator {op n t} (consumed : Consumed s n t) :
      ReadsMath s (.operator (.math op), n) (.ok (.inl op), t)
  | counter {c n t} (consumed : Consumed s n t) :
      ReadsMath s (.counter c, n) (.ok (.inr c), t)
  | dot {next t} (line_eq : t.line = s.line) :
      ReadsMath s (.dot next, 0)
        (Builder.reject (next.elim .endsAfterDot .notBitwise) (s.place.right 1) t)

theorem readsMath (place : Location) (symbol : isMathSymbol c) (ahead_eq : s.ahead = c :: rest) :
    ReadsMath s (Token.read c rest) (mathSymbol place s) := by
  have rest_eq := ahead_past_one ahead_eq
  rw [mathSymbol, Builder.bind_apply, advance_of_cons ahead_eq]
  simp only [isMathSymbol, Token.isArithmeticSymbol, Bool.or_eq_true, decide_eq_true_eq] at symbol
  rcases symbol with (((((rfl | rfl) | rfl) | rfl) | rfl) | rfl) | rfl
  case inl.inl.inl.inl.inl.inl | inl.inl.inl.inl.inl.inr =>
    rw [Token.read_grows rfl]
    simp only [Builder.bind_apply, eat_apply, rest_eq]
    split
    case isTrue  => exact .counter rfl
    case isFalse => exact .operator rfl
  case inr =>
    simp only [Builder.bind_apply, bitwise, peek, rest_eq]
    rcases rest with _ | ⟨d, rest⟩
    case nil => exact .dot rfl
    case cons =>
    by_cases suffix : Token.isBitwiseSuffix d
    case pos =>
      simp only [Token.isBitwiseSuffix, Bool.or_eq_true, decide_eq_true_eq] at suffix
      rcases suffix with (((rfl | rfl) | rfl) | rfl) | rfl <;> exact .operator rfl
    case neg =>
      simp only [Token.isBitwiseSuffix, Bool.or_eq_true, decide_eq_true_eq, not_or] at suffix
      have read_eq : Token.read '.' (d :: rest) = (.dot (some d), 0) := by
        change Token.readSymbol '.' (d :: rest) = _
        simp [Token.readSymbol, suffix]
      rw [read_eq]
      simp only [List.head?_cons, suffix, imp_self]
      exact .dot rfl
  all_goals exact .operator rfl

-- What the symbol of a comparison or an assignment comes to.
inductive ReadsRelation (s : Session (Recorded α)) :
    Token × Nat → Except Failure Relation × Session (Recorded α) → Prop
  | intro {op n t} (consumed : Consumed s n t) :
      ReadsRelation s (.operator (.relation op), n) (.ok op, t)

theorem readsRelation (place : Location) (symbol : isRelationSymbol c)
    (ahead_eq : s.ahead = c :: rest) :
    ReadsRelation s (Token.read c rest) (relationSymbol place s) := by
  have rest_eq := ahead_past_one ahead_eq
  rw [relationSymbol, Builder.bind_apply, advance_of_cons ahead_eq]
  simp only [isRelationSymbol, Bool.or_eq_true, decide_eq_true_eq] at symbol
  rcases symbol with (rfl | rfl) | rfl
  all_goals
    rw [Token.read_grows rfl]
    simp only [Builder.bind_apply, eat_apply, rest_eq]
    split <;> exact .intro rfl

-- What the characters of a number come to after so many of them have been passed.
inductive ReadsDigits (s : Session (Recorded α)) (passed : Nat) :
    Token → Except Failure (Token.Guess × List Char) × Session (Recorded α) → Prop
  | leave {guess taken t} (plain_eq : t.plain = (s.past passed).plain) :
      ReadsDigits s passed (guess.token taken) (.ok (guess, taken), t)
  | fail {fault t} (plain_eq : t.plain = (s.past passed).plain) :
      ReadsDigits s passed (.badNumber fault) (Builder.reject (.number fault) t.place t)

theorem ReadsDigits.of_past {passed : Nat} {token : Token}
    {result : Except Failure (Token.Guess × List Char) × Session (Recorded α)}
    (h : ReadsDigits (s.past 1) passed token result) : ReadsDigits s (passed + 1) token result := by
  have plain_eq : ((s.past 1).past passed).plain = (s.past (passed + 1)).plain := by
    simp only [Session.past, Session.noting, Session.plain, Nat.add_assoc, Nat.add_comm 1]
  cases h
  case leave h => exact .leave (h.trans plain_eq)
  case fail h  => exact .fail (h.trans plain_eq)

theorem digitTurn_apply (guess : Token.Guess) (taken : List Char) (s : Session (Recorded α)) :
    digitTurn (guess, taken) s = match s.ahead with
      | []        => (.ok (.leave (guess, taken)), s)
      | c :: rest =>
        match guess.move taken c rest.head? with
        | .take guess => (.ok (.again (guess, taken ++ [c])), s.past 1)
        | .stop       => (.ok (.leave (guess, taken)), s)
        | .stopAfter  => (.ok (.leave (guess, taken)), s.past 1)
        | .fail fault => Builder.reject (.number fault) s.place s := by
  rw [digitTurn, Builder.bind_apply]
  simp only [ahead]
  rcases s.ahead with _ | ⟨c, rest⟩
  case nil  => rfl
  case cons => dsimp only; cases guess.move taken c rest.head? <;> rfl

theorem readsDigits {k : Nat} (guess : Token.Guess) (taken : List Char)
    (enough : s.ahead.length < k) :
    ∃ passed, (Token.scan guess taken s.ahead).2 = taken.length + passed ∧
      ReadsDigits s passed (Token.scan guess taken s.ahead).1
        (turns digitTurn k (guess, taken) s) := by
  induction k generalizing s guess taken
  case zero => exact absurd enough (Nat.not_lt_zero _)
  case succ k hi =>
    rw [turns, Builder.bind_apply, digitTurn_apply]
    rcases ahead_eq : s.ahead with _ | ⟨c, rest⟩
    case nil  => exact ⟨0, rfl, .leave rfl⟩
    case cons =>
      rw [Token.scan]
      dsimp only
      generalize guess.move taken c rest.head? = move
      cases move
      case take next =>
        have rest_eq := ahead_past_one ahead_eq
        obtain ⟨passed, length_eq, reads⟩ := hi (s := s.past 1) next (taken ++ [c]) (by
          rw [ahead_eq] at enough
          rw [rest_eq]
          exact Nat.lt_of_succ_lt_succ enough)
        rw [rest_eq] at length_eq reads
        refine ⟨passed + 1, ?_, reads.of_past⟩
        rw [length_eq, List.length_append, List.length_singleton, Nat.add_assoc, Nat.add_comm 1]
      case stop      => exact ⟨0, rfl, .leave rfl⟩
      case stopAfter => exact ⟨1, rfl, .leave rfl⟩
      case fail      => exact ⟨0, rfl, .fail rfl⟩

-- What a number or a name that begins with a digit comes to.
inductive ReadsNumber (s : Session (Recorded α)) :
    Token × Nat → Except Failure Node × Session (Recorded α) → Prop
  | number {form value n t} (consumed : Consumed s n t) :
      ReadsNumber s (.number form value, n) (.ok (.leaf form.kind value s.place), t)
  | name {value n t} (consumed : Consumed s n t) :
      ReadsNumber s (.name value false, n) (.ok (.leaf .identifier value s.place), t)
  | bad {fault n t} (line_eq : t.line = s.line) :
      ReadsNumber s (.badNumber fault, n)
        (Builder.reject (.number fault) (s.place.right (n + 1)) t)

theorem readsNumber [LineSupplier α] (digit : c.isDigit) (ahead_eq : s.ahead = c :: rest) :
    ReadsNumber s (Token.read c rest) (number s) := by
  obtain ⟨passed, length_eq, reads⟩ :=
    readsDigits (s := s) (k := s.amount + 1) .integer [] (Nat.lt_succ_of_le (Nat.le_add_right ..))
  have read_eq : Token.read c rest =
      ((Token.scan .integer [] s.ahead).1, (Token.scan .integer [] s.ahead).2 - 1) := by
    rw [Token.read, if_neg (by simp [not_isLetter_of_isDigit digit]), if_pos digit,
      Token.readNumber_eq_scan digit, ← ahead_eq]
  have pos := (Token.numeral_of_readNumber digit rest).length_pos
  rw [Token.readNumber_eq_scan digit, ← ahead_eq, length_eq, List.length_nil, Nat.zero_add] at pos
  rw [read_eq, length_eq, List.length_nil, Nat.zero_add]
  obtain ⟨n, rfl⟩ := Nat.exists_eq_succ_of_ne_zero pos.ne'
  have place_eq {t : Session (Recorded α)} (plain_eq : t.plain = (s.past (n + 1)).plain) :
      t.place = s.place.right (n + 1) := by
    refine (congrArg Session.place plain_eq).trans ?_
    rw [Session.place, Session.place, Location.right_right]
    rfl
  have line_eq {t : Session (Recorded α)} (plain_eq : t.plain = (s.past (n + 1)).plain) :
      t.line = s.line :=
    congrArg (·.line) plain_eq
  rw [number, Builder.bind_apply]
  simp only [here, Builder.bind_apply, loop]
  generalize Token.scan .integer [] s.ahead = scanned at reads ⊢
  generalize turns digitTurn (s.amount + 1) (.integer, []) s = result at reads ⊢
  generalize scanned.1 = token at reads ⊢
  cases reads
  case leave guess taken t plain_eq =>
    cases guess
    case integer | float => exact .number plain_eq
    case name            => exact .name plain_eq
    case marked radix    =>
      simp only [Token.Guess.token]
      split
      case isTrue  =>
        simp only [Builder.bind_apply, here, place_eq plain_eq]
        exact .bad (line_eq plain_eq)
      case isFalse => exact .number plain_eq
  case fail t plain_eq =>
    rw [place_eq plain_eq]
    exact .bad (line_eq plain_eq)

-- What a quote and the characters after it come to.
inductive ReadsString (s : Session (Recorded α)) :
    Token × Nat → Except Failure Node × Session (Recorded α) → Prop
  | closed {value n t} (consumed : Consumed s n t) :
      ReadsString s (.string value, n) (.ok (.leaf .string value s.place), t)
  | unclosed {n t} (line_eq : t.line = s.line) :
      ReadsString s (.openString, n) (Builder.reject .openString s.place t)

theorem readsString (quote : Token.isQuote c) (ahead_eq : s.ahead = c :: rest) :
    ReadsString s (Token.read c rest) (string s) := by
  have rest_eq := ahead_past_one ahead_eq
  have read_eq : Token.read c rest = Token.readString rest := by
    obtain ⟨letter, digit, _⟩ := ordinary_of_isQuote quote
    rw [Token.read, letter, digit, quote]
    rfl
  have taken : takeWhile (!Token.isQuote ·) (s.past 1) = (.ok (rest.takeWhile (!Token.isQuote ·)),
      (s.past 1).past (rest.takeWhile (!Token.isQuote ·)).length) := by
    rw [← rest_eq]
    rfl
  have after_eq := Session.ahead_past (s.past 1) (rest.takeWhile (!Token.isQuote ·)).length
  rw [rest_eq, drop_length_takeWhile] at after_eq
  rw [read_eq, string]
  simp only [Builder.bind_apply, here, advance_of_cons ahead_eq, taken]
  rcases Token.readString_eq rest with ⟨plain, eq⟩ | ⟨content, d, after, rfl, plain, closes, eq⟩
  case inl =>
    have ended : rest.dropWhile (!Token.isQuote ·) = [] :=
      List.dropWhile_eq_nil_iff.mpr (by simpa using plain)
    rw [eq, advance_of_nil (after_eq.trans ended)]
    exact .unclosed rfl
  case inr =>
    have all : ∀ c ∈ content, !Token.isQuote c := by simpa using plain
    have stop : (d :: after).head?.any (!Token.isQuote ·) = false := by simp [closes]
    rw [dropWhile_append_of_stop all stop] at after_eq
    rw [eq, advance_of_cons after_eq, takeWhile_append_of_stop all stop]
    refine .closed ?_
    simp only [Consumed, Session.past, Session.noting, Session.plain]
    congr 1
    omega

end Cursor

end WispSyntax

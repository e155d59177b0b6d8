import WispSyntax.Proofs.Quotation
import WispSyntax.Proofs.Rereading
import WispSyntax.Proofs.Words

/-!
Words that stand apart. Where a token begins that is a word, the highlighting begins a span, although
it counts more characters to a word than the lexer does (`exists_front_of_mem_ofChars`,
`exists_mem_placed`).
-/

namespace WispSyntax

-- The text ends every string that it begins.
inductive EndsStrings : List Char → Prop
  | nil : EndsStrings []
  | char {c rest} (quote : Token.isQuote c = false) (next : EndsStrings rest) :
      EndsStrings (c :: rest)
  | string {opening content closing rest} (opens : Token.isQuote opening)
      (plain : ∀ c ∈ content, Token.isQuote c = false) (closes : Token.isQuote closing)
      (next : EndsStrings rest) : EndsStrings (opening :: (content ++ closing :: rest))

-- Neither a letter nor a numeral stands at the end of the text.
def EndsApart (text : List Char) : Prop :=
  ∀ c ∈ text.getLast?, isAlphanumeric c = false

theorem EndsStrings.append {front rest : List Char}
    (quote : ∀ c ∈ front, Token.isQuote c = false) (h : EndsStrings rest) :
    EndsStrings (front ++ rest) := by
  induction front
  case nil => exact h
  case cons c front hi =>
    obtain ⟨here, quote⟩ := List.forall_mem_cons.mp quote
    exact .char here (hi quote)

namespace Token

section
variable {front rest text : List Char} {t : Token} {n : Nat}

-- A number is followed by no letter and no digit, unless a dot comes first.
def Stops (n : Nat) (text : List Char) : Prop :=
  (text.take n).getLast? = some '.' ∨ ∀ c ∈ (text.drop n).head?, isWordChar c = false

theorem stops_append (after : rest.head?.any isWordChar = false) :
    Stops front.length (front ++ rest) := by
  refine .inr fun c hc => ?_
  rw [List.drop_left] at hc
  simpa [Option.mem_def.mp hc] using after

theorem stops_of_ends {skip : Nat} (h : Ends rest skip) :
    Stops (front.length + skip) (front ++ rest) := by
  cases h
  case plain stop _ => exact stops_append stop
  case bitwise      => exact stops_append not_isWordChar_dot
  case arithmetic   =>
    refine .inl ?_
    rw [List.take_length_add_append]
    simp

theorem stops_of_numeral (h : Numeral text t n) (ok : ¬t.isMistake) : Stops n text := by
  cases h
  case number h ends => exact stops_of_ends ends
  case name h ends   => exact stops_of_ends ends
  case nameDot h _   => exact stops_append not_isWordChar_dot
  all_goals exact absurd rfl ok

end

section
variable {c : Char} {rest front : List Char} {t : Token} {n : Nat}

theorem endsStrings_of_read (h : read c rest = (t, n)) (ends : t ≠ .openString)
    (next : EndsStrings front) : EndsStrings (c :: (rest.take n ++ front)) := by
  cases quote : isQuote c
  case false =>
    exact .char quote (next.append (reaches_of_read quote h).isQuote_take)
  case true =>
    rw [read_quote quote] at h
    rcases readString_eq rest with ⟨_, eq⟩ | ⟨content, closing, after, rfl, plain, closes, eq⟩
    case inl =>
      obtain ⟨rfl, -⟩ := Prod.mk.inj (eq.symm.trans h)
      exact absurd rfl ends
    case inr =>
      obtain ⟨-, rfl⟩ := Prod.mk.inj (eq.symm.trans h)
      rw [List.take_length_add_append, List.append_assoc]
      exact .string quote plain closes next

theorem endsApart_of_readSymbol (h : readSymbol c rest = (t, n)) (ok : ¬t.isMistake) :
    EndsApart (c :: rest.take n) := by
  unfold readSymbol at h
  split at h <;> obtain ⟨rfl, rfl⟩ := Prod.mk.inj h
  all_goals first
    | exact absurd rfl ok
    | simp [EndsApart]; decide +kernel

-- No token ends in a letter or a numeral if a letter comes next.
theorem endsApart_of_read (h : read c rest = (t, n)) (ok : ¬t.isMistake) {d : Char}
    (next : d ∈ (rest.drop n).head?) (letter : isLetter d) : EndsApart (c :: rest.take n) := by
  cases reads_of_read h
  case word =>
    rw [drop_length_takeWhile] at next
    have stops := List.head?_dropWhile_not isLetter rest
    rw [next] at stops
    simp [letter] at stops
  case numeral numeral =>
    rcases stops_of_numeral numeral ok with dot | stops
    case inl =>
      intro e he
      obtain rfl : '.' = e := Option.some.inj (dot.symm.trans he)
      decide +kernel
    case inr =>
      have word := stops d next
      simp [isWordChar, letter] at word
  case string h =>
    rcases readString_eq rest with ⟨_, eq⟩ | ⟨content, closing, after, rfl, _, closes, eq⟩
    case inl =>
      obtain ⟨rfl, -⟩ := Prod.mk.inj (eq.symm.trans h)
      exact absurd rfl ok
    case inr =>
      obtain ⟨-, rfl⟩ := Prod.mk.inj (eq.symm.trans h)
      intro e he
      rw [List.take_length_add_append, ← List.cons_append, List.take_succ_cons, List.take_zero,
        List.getLast?_concat] at he
      obtain rfl := Option.some.inj he
      exact Bool.eq_false_iff.mpr fun word => by
        simp [Highlight.not_isQuote_of_isAlphanumeric word] at closes
  case symbol h => exact endsApart_of_readSymbol h ok

end
end Token

theorem EndsApart.of_append (front : List Char) {rest : List Char} (h : EndsApart (front ++ rest)) :
    EndsApart rest := by
  by_cases ne : rest = []
  case pos => simp [EndsApart, ne]
  case neg => rwa [EndsApart, List.getLast?_append_of_ne_nil _ ne] at h

-- A run of letters and numerals stops before the end of such a text.
theorem EndsApart.length_run_lt {front : List Char} (h : EndsApart front) (ne : front ≠ [])
    (rest : List Char) : ((front ++ rest).takeWhile isAlphanumeric).length < front.length := by
  have last := List.getLast?_eq_getLast_of_ne_nil ne
  have stops := h _ last
  have shorter : (front.takeWhile isAlphanumeric).length < front.length := by
    refine Nat.lt_of_le_of_ne (List.takeWhile_sublist _).length_le fun eq => ?_
    have whole := (List.takeWhile_sublist isAlphanumeric).eq_of_length eq
    have inside := List.takeWhile_eq_self_iff.mp whole _ (List.getLast_mem ne)
    simp [stops] at inside
  rwa [List.takeWhile_append, if_neg shorter.ne]

theorem EndsApart.append (front : List Char) {rest : List Char} (h : EndsApart rest)
    (last : rest = [] → EndsApart front) : EndsApart (front ++ rest) := by
  by_cases ne : rest = []
  case pos => simpa [ne] using last ne
  case neg => rwa [EndsApart, List.getLast?_append_of_ne_nil _ ne]

theorem not_isAlphanumeric_of_isBlank {c : Char} (h : isBlank c) : isAlphanumeric c = false := by
  have numeral : isNumeral c = false :=
    CodeRanges.not_contains_of_isDisjoint blankRanges_isAscending numeralRanges_isAscending
      (by decide +kernel) h
  have letter : isLetter c = false :=
    Bool.eq_false_iff.mpr fun letter => by simp [not_isBlank_of_isLetter letter] at h
  rw [isAlphanumeric, letter, numeral, Bool.or_false]

-- Where a word begins that is a token, strings have ended and no other word goes on.
theorem exists_front_of_mem_ofChars {place : Location} {skip : Nat} {text : List Char} {l : Lexeme}
    (legible : ∀ x ∈ Lexeme.ofChars place skip text, ¬x.token.isMistake)
    (h : l ∈ Lexeme.ofChars place skip text) :
    ∃ front c rest n, text.drop skip = front ++ c :: rest ∧
      l.start = place.right (skip + front.length) ∧ Token.read c rest = (l.token, n) ∧
      EndsStrings front ∧ (isLetter c → EndsApart front) := by
  fun_induction Lexeme.ofChars place skip text
  case case1 => cases h
  case case2 place skip c rest hi =>
    obtain ⟨front, d, after, n, text_eq, start_eq, hr, whole, apart⟩ := hi legible h
    refine ⟨front, d, after, n, text_eq, ?_, hr, whole, apart⟩
    rw [start_eq, Location.right_right]
    congr 1
    omega
  case case3 place c rest blank hi =>
    obtain ⟨front, d, after, n, text_eq, start_eq, hr, whole, apart⟩ := hi legible h
    refine ⟨c :: front, d, after, n, congrArg (c :: ·) text_eq, ?_, hr, ?_, fun letter => ?_⟩
    · rw [start_eq, Location.right_right, List.length_cons]
      congr 1
      omega
    · exact .char (Token.isQuote_eq_false_of_isBlank blank) whole
    · refine EndsApart.append [c] (apart letter) fun _ => ?_
      simp [EndsApart, not_isAlphanumeric_of_isBlank blank]
  case case4 place c rest _ t more hr hi =>
    obtain ⟨ok, legible⟩ := List.forall_mem_cons.mp legible
    rcases List.mem_cons.mp h with rfl | h
    case inl => exact ⟨[], c, rest, more, rfl, rfl, hr, .nil, fun _ => by simp [EndsApart]⟩
    case inr =>
      obtain ⟨front, d, after, n, text_eq, start_eq, hr', whole, apart⟩ := hi legible h
      have le : more ≤ rest.length := by
        by_contra lt
        rw [List.drop_of_length_le (by omega)] at text_eq
        simp at text_eq
      refine ⟨c :: (rest.take more ++ front), d, after, n, ?_, ?_, hr', ?_, fun letter => ?_⟩
      · rw [List.drop_zero, List.cons_append, List.append_assoc, ← text_eq, List.take_append_drop]
      · rw [start_eq, Location.right_right, List.length_cons, List.length_append, List.length_take,
          Nat.min_eq_left le]
        congr 1
        omega
      · exact Token.endsStrings_of_read hr (fun eq => ok (by simp [eq, Token.isMistake])) whole
      · refine EndsApart.append (c :: rest.take more) (apart letter) fun nil => ?_
        have next : d ∈ (rest.drop more).head? := by simp [text_eq, nil]
        exact Token.endsApart_of_read hr ok next letter

namespace Highlight

theorem spansFrom_drop (before previous : List Char) (skip : Nat) (text : List Char) :
    spansFrom before previous skip text =
      spansFrom ((text.take skip).reverse ++ before) previous 0 (text.drop skip) := by
  induction text generalizing before skip
  case nil => simp [spansFrom]
  case cons c text hi =>
    cases skip
    case zero      => rfl
    case succ skip => rw [spansFrom, hi]; simp

-- A run of letters and numerals is a span of its own, wherever it stands outside of strings.
theorem exists_mem_placed {front word after : List Char} {skip : Nat} (whole : EndsStrings front)
    (apart : EndsApart front) (ne : word ≠ []) (alphanumeric : ∀ c ∈ word, isAlphanumeric c)
    (stop : after.head?.any isAlphanumeric = false) (le : skip ≤ front.length)
    (quote : ∀ c ∈ front.take skip, Token.isQuote c = false) (place : Location)
    (before previous : List Char) :
    ∃ previous' cast, (place.right front.length,
      { text  := String.ofList word
        style := wordStyle word previous' (after.head? = some '(') cast }) ∈
        placed (place.right skip) (spansFrom before previous skip (front ++ (word ++ after))) := by
  induction whole generalizing skip place before previous
  case nil =>
    obtain rfl := Nat.le_zero.mp le
    obtain ⟨c, word, rfl⟩ := List.exists_cons_of_ne_nil ne
    obtain ⟨here, alphanumeric⟩ := List.forall_mem_cons.mp alphanumeric
    refine ⟨previous, before.take 2 = "::".toList, ?_⟩
    rw [List.nil_append, List.cons_append, placed_cons, piece_word here,
      takeWhile_append_of_stop alphanumeric stop, dropWhile_append_of_stop alphanumeric stop,
      List.take_left]
    exact List.mem_cons_self
  case char c rest here next hi =>
    have apart' := EndsApart.of_append [c] apart
    cases skip
    case zero =>
      obtain ⟨_, plain⟩ := piece_of_not_quote here before previous (rest ++ (word ++ after)) ""
      have le : (piece before previous c (rest ++ (word ++ after))).more ≤ rest.length := by
        cases run : isAlphanumeric c
        case false =>
          rw [piece_symbol here run]
          exact Nat.zero_le _
        case true =>
          have lt := apart.length_run_lt (List.cons_ne_nil c rest) (word ++ after)
          rw [List.cons_append, List.takeWhile_cons_of_pos run] at lt
          rw [piece_word run]
          exact Nat.le_of_lt (Nat.lt_of_succ_lt_succ lt)
      rw [List.take_append_of_le_length le] at plain
      obtain ⟨previous', cast, mem⟩ := hi apart' le plain (place.right 1) (c :: before) _
      refine ⟨previous', cast, ?_⟩
      rw [List.cons_append, show place.right 0 = place from rfl, placed_cons]
      rw [Location.right_right, Location.right_right, Nat.add_comm, Nat.add_comm 1] at mem
      exact List.mem_cons_of_mem _ mem
    case succ skip =>
      obtain ⟨_, quote⟩ := List.forall_mem_cons.mp quote
      obtain ⟨previous', cast, mem⟩ :=
        hi apart' (Nat.le_of_succ_le_succ le) quote (place.right 1) (c :: before) previous
      refine ⟨previous', cast, ?_⟩
      rw [Location.right_right, Location.right_right, Nat.add_comm, Nat.add_comm 1] at mem
      exact mem
  case string opening content closing rest opens plain closes next hi =>
    have apart' : EndsApart rest :=
      EndsApart.of_append (opening :: (content ++ [closing])) (by simpa using apart)
    cases skip
    case succ skip =>
      have here := quote opening List.mem_cons_self
      simp [opens] at here
    case zero =>
      have run : (content ++ (closing :: (rest ++ (word ++ after)))).takeWhile
          (!Token.isQuote ·) = content := by
        rw [List.takeWhile_append_of_pos (by simpa using plain)]
        simp [closes]
      have more : (piece before previous opening
          (content ++ (closing :: (rest ++ (word ++ after))))).more = content.length + 1 := by
        rw [piece_quote opens, run]
        simp
      obtain ⟨previous', cast, mem⟩ := hi apart' (Nat.zero_le _) (by simp)
        (place.right (content.length + 2)) ((content ++ [closing]).reverse ++ opening :: before)
        previous
      refine ⟨previous', cast, ?_⟩
      rw [List.cons_append, List.append_assoc, List.cons_append, show place.right 0 = place from rfl,
        placed_cons, more, piece_quote opens, spansFrom_drop, List.take_length_add_append,
        List.drop_length_add_append, List.take_succ_cons, List.take_zero, List.drop_succ_cons,
        List.drop_zero]
      refine List.mem_cons_of_mem _ ?_
      rw [Location.right_right, Location.right_right] at mem
      have same : content.length + 2 + rest.length =
          (opening :: (content ++ closing :: rest)).length := by
        simp
        omega
      rwa [same] at mem

end Highlight
end WispSyntax

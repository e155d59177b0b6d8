import WispSyntax.Proofs.Numerals

/-!
What the lexer reads at the front of a text is written there, unless it is a mistake
(`standsIn_of_read`).
-/

namespace WispSyntax

namespace Token

theorem standsIn_of_ofWord {word : List Char} (rest : List Char) (ne : word ≠ [])
    (letters : ∀ c ∈ word, isLetter c) :
    StandsIn (ofWord word rest) word.length (word ++ rest) := by
  unfold ofWord
  split
  case h_1 => exact ⟨_, rest, rfl, .function, .inl rfl, nofun⟩
  case h_2 => exact ⟨_, rest, rfl, .constant .truth, .inl rfl, nofun⟩
  case h_3 => exact ⟨_, rest, rfl, .constant .falsehood, .inl rfl, nofun⟩
  case h_4 => exact ⟨_, rest, rfl, .constant .nil, .inl rfl, nofun⟩
  case h_5 =>
    have free : ¬isReserved word := by fun_cases isReserved word <;> simp_all
    exact ⟨word, rest, rfl, .word ⟨ne, letters, free⟩, .inl rfl, by simp⟩

theorem standsIn_of_readString {opening : Char} {rest : List Char} {t : Token} {n : Nat}
    (ho : isQuote opening) (line : '\n' ∉ rest) (h : readString rest = (t, n))
    (ok : ¬t.isMistake) : StandsIn t (n + 1) (opening :: rest) := by
  simp only [readString] at h
  split at h
  case h_1 =>
    cases h
    exact absurd rfl ok
  case h_2 closing after hd =>
    obtain ⟨rfl, rfl⟩ := Prod.mk.inj h
    have hc : isQuote closing := by
      have := List.head?_dropWhile_not (!isQuote ·) rest
      simpa [hd] using this
    have content : IsQuotable (rest.takeWhile (!isQuote ·)) := by
      intro c hm
      refine ⟨by simpa using List.mem_takeWhile_imp hm, ?_⟩
      rintro rfl
      exact line (List.takeWhile_subset _ hm)
    refine ⟨_, after, ?_, .string content ho hc, .inl (by simp), nofun⟩
    simp [← hd]

theorem standsIn_append {t : Token} {spelling : List Char} (rest : List Char)
    (h : Spelt t spelling) (hn : ∀ name, t ≠ .name name true) :
    StandsIn t spelling.length (spelling ++ rest) :=
  ⟨spelling, rest, rfl, h, .inl rfl, fun name he => absurd he (hn name)⟩

theorem standsIn_of_readSymbol {c : Char} {rest : List Char} {t : Token} {n : Nat}
    (h : readSymbol c rest = (t, n)) (ok : ¬t.isMistake) : StandsIn t (n + 1) (c :: rest) := by
  unfold readSymbol at h
  split at h <;> obtain ⟨rfl, rfl⟩ := Prod.mk.inj h
  all_goals first
    | exact absurd rfl ok
    | exact standsIn_append _ (.operator _) nofun
    | exact standsIn_append _ (.counter _) nofun
    | exact standsIn_append _ .openBrace nofun
    | exact standsIn_append _ .closeBrace nofun
    | exact standsIn_append _ .openParen nofun
    | exact standsIn_append _ .closeParen nofun
    | exact standsIn_append _ .comma nofun

end Token

theorem Ends.standsIn {t : Token} {spelling after : List Char} {skip : Nat} (h : Ends after skip)
    (spelt : Spelt t spelling) (notCalled : ∀ name, t ≠ .name name true) :
    StandsIn t (spelling.length + skip) (spelling ++ after) := by
  refine ⟨spelling, after, rfl, spelt, ?_, fun name eq => absurd eq (notCalled name)⟩
  cases h
  case plain | bitwise => exact .inl rfl
  case arithmetic      => exact .inr ⟨rfl, rfl⟩

theorem Numeral.standsIn {text : List Char} {t : Token} {n : Nat} (h : Numeral text t n)
    (ok : ¬t.isMistake) : StandsIn t n text := by
  cases h
  case number h ends => exact ends.standsIn (.number h) (by simp)
  case name h ends   => exact ends.standsIn (.digitName h) (by simp)
  case nameDot h _   => exact Token.standsIn_append _ (.digitName h) (by simp)
  all_goals exact absurd rfl ok

-- The ways to read a token.
inductive Token.Reads (c : Char) (rest : List Char) : Token → Nat → Prop
  | word (letter : isLetter c) :
      Reads c rest (ofWord (c :: rest.takeWhile isLetter) (rest.dropWhile isLetter))
        (rest.takeWhile isLetter).length
  | numeral {t n} (digit : c.isDigit) (h : Numeral (c :: rest) t (n + 1)) : Reads c rest t n
  | string {t n} (quote : isQuote c) (h : readString rest = (t, n)) : Reads c rest t n
  | symbol {t n} (letter : isLetter c = false) (digit : c.isDigit = false)
      (quote : isQuote c = false) (h : readSymbol c rest = (t, n)) : Reads c rest t n

section
variable {c : Char} {rest : List Char} {t : Token} {n : Nat}

theorem Token.reads_of_read (h : read c rest = (t, n)) : Reads c rest t n := by
  cases letter : isLetter c
  case true =>
    rw [read, if_pos letter] at h
    obtain ⟨rfl, rfl⟩ := Prod.mk.inj h
    exact .word letter
  case false =>
    cases digit : c.isDigit
    case true  => exact .numeral digit (numeral_of_read digit h)
    case false =>
      rw [read, letter, digit] at h
      cases quote : isQuote c <;> rw [quote] at h
      case true  => exact .string quote h
      case false => exact .symbol letter digit quote h

-- What the lexer reads at the front of a line stands there, unless it is a mistake.
theorem standsIn_of_read (line : Token.isQuote c → '\n' ∉ rest) (h : Token.read c rest = (t, n))
    (ok : ¬t.isMistake) : StandsIn t (n + 1) (c :: rest) := by
  cases Token.reads_of_read h
  case word letter =>
    have letters : ∀ d ∈ c :: rest.takeWhile isLetter, isLetter d :=
      List.forall_mem_cons.mpr ⟨letter, fun d hd => List.mem_takeWhile_imp hd⟩
    have := Token.standsIn_of_ofWord (rest.dropWhile isLetter) (by simp) letters
    simpa using this
  case numeral numeral => exact numeral.standsIn ok
  case string quote h  => exact Token.standsIn_of_readString quote (line quote) h ok
  case symbol h        => exact Token.standsIn_of_readSymbol h ok

end
end WispSyntax

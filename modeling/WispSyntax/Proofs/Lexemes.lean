import WispSyntax.Proofs.Lexing
import WispSyntax.Proofs.Reading

/-!
The tokens of a program in their places: each stands where it says (`standsIn_of_mem_lexemes`), and
they follow one another along the lines and down the text (`pairwise_lexemes`).
-/

namespace WispSyntax

namespace Location

-- The place comes first in the text.
def Precedes (a b : Location) : Prop :=
  a.line < b.line ∨ a.line = b.line ∧ a.column < b.column

theorem Precedes.right {a : Location} {n : Nat} (h : 0 < n) : a.Precedes (a.right n) :=
  .inr ⟨rfl, Nat.lt_add_of_pos_right h⟩

theorem Precedes.ne {a b : Location} (h : a.Precedes b) : a ≠ b := by
  rintro rfl
  rcases h with h | ⟨_, h⟩ <;> exact Nat.lt_irrefl _ h

end Location

namespace Lexeme

theorem read_of_mem_ofChars {place : Location} {skip : Nat} {chars : List Char} {l : Lexeme}
    (h : l ∈ ofChars place skip chars) :
    ∃ front c rest n, chars = front ++ c :: rest ∧ skip ≤ front.length ∧
      l.start = place.right front.length ∧ l.stop = l.start.right (n + 1) ∧
      Token.read c rest = (l.token, n) := by
  fun_induction ofChars place skip chars
  case case1 => contradiction
  case case2 place skip c rest hi =>
    obtain ⟨front, d, after, n, rfl, hs, hp, stop⟩ := hi h
    refine ⟨c :: front, d, after, n, rfl, by simpa using hs, ?_, stop⟩
    simp [hp, Location.right_right, Nat.add_comm]
  case case3 place c rest hb hi =>
    obtain ⟨front, d, after, n, rfl, hs, hp, stop⟩ := hi h
    refine ⟨c :: front, d, after, n, rfl, by simp, ?_, stop⟩
    simp [hp, Location.right_right, Nat.add_comm]
  case case4 place c rest hb t more hr hi =>
    rcases List.mem_cons.mp h with rfl | h
    · exact ⟨[], c, rest, more, rfl, by simp, rfl, rfl, hr⟩
    · obtain ⟨front, d, after, n, rfl, hs, hp, stop⟩ := hi h
      refine ⟨c :: front, d, after, n, rfl, by simp, ?_, stop⟩
      simp [hp, Location.right_right, Nat.add_comm]

theorem pairwise_ofChars (place : Location) (skip : Nat) (chars : List Char) :
    (ofChars place skip chars).Pairwise (·.start.Precedes ·.start) := by
  fun_induction ofChars place skip chars
  case case1 => exact .nil
  case case2 hi | case3 hi => exact hi
  case case4 place c rest hb t more hr hi =>
    refine .cons (fun l hl => ?_) hi
    obtain ⟨front, _, _, _, _, _, hp, _⟩ := read_of_mem_ofChars hl
    rw [hp, Location.right_right]
    exact .right (by omega)

theorem standsIn_of_read_called {c : Char} {rest : List Char} {text : String} {n : Nat}
    (h : Token.read c rest = (.name text true, n)) :
    StandsIn (.name text true) (n + 1) (c :: rest) := by
  have noQuote : ¬Token.isQuote c := by
    intro quote
    obtain ⟨letter, digit, -⟩ := ordinary_of_isQuote quote
    simp only [Token.read, letter, digit, quote, Bool.false_eq_true, if_false, if_true,
      Token.readString] at h
    split at h <;> simp at h
  exact standsIn_of_read (fun quote => absurd quote noQuote) h (by simp [Token.isMistake])

theorem drop_of_read_called {c : Char} {rest : List Char} {text : String} {n : Nat}
    (h : Token.read c rest = (.name text true, n)) : (rest.drop n).head? = some '(' := by
  obtain ⟨spelling, after, text_eq, -, length, called⟩ := standsIn_of_read_called h
  have called := called text rfl
  obtain length | ⟨-, dot⟩ := length
  case inl =>
    have dropped := congrArg (List.drop (n + 1)) text_eq
    rw [List.drop_succ_cons, List.drop_left' length] at dropped
    rw [dropped, called]
  case inr => simp [dot] at called

-- The parenthesis is a token too.
theorem ne_nil_of_called {place : Location} {chars : List Char} {l : Lexeme} {lexemes : List Lexeme}
    {text : String} (h : ofChars place 0 chars = l :: lexemes)
    (called : l.token = .name text true) : lexemes ≠ [] := by
  induction chars generalizing place
  case nil => cases h
  case cons c rest hi =>
    rw [ofChars] at h
    split at h
    case isTrue => exact hi h
    case isFalse =>
      generalize read : Token.read c rest = result at h
      obtain ⟨token, more⟩ := result
      obtain ⟨rfl, rfl⟩ := List.cons.inj h
      obtain rfl : token = .name text true := called
      have next := drop_of_read_called read
      rw [ofChars_drop]
      rcases dropped : rest.drop more with _ | ⟨d, tail⟩ <;> rw [dropped] at next
      case nil  => cases next
      case cons =>
        cases next
        exact List.cons_ne_nil _ _

end Lexeme

-- The characters stand at the place, up to the end of its line.
def TextAt (text : String) (place : Location) (chars : List Char) : Prop :=
  0 < place.line ∧ ∃ front, (splitLines text.toList)[place.line - 1]? = some (front ++ chars) ∧
    place.column = front.length + 1

theorem not_mem_of_mem_splitLines {text line : List Char} (h : line ∈ splitLines text) :
    '\n' ∉ line := by
  fun_induction splitLines text generalizing line
  case case1 => contradiction
  case case2 hi | case3 hi =>
    rcases List.mem_cons.mp h with rfl | h
    · exact List.not_mem_nil
    · exact hi h
  case case4 c rest ne _ _ _ =>
    obtain rfl := List.mem_singleton.mp h
    simpa using Ne.symm ne
  case case5 c rest ne _ front lines split hi =>
    rw [split] at hi
    rcases List.mem_cons.mp h with rfl | h
    · simpa [Ne.symm ne] using hi (.head _)
    · exact hi (.tail _ h)

section
variable {text : String} {l : SourceLine}

theorem line_of_mem_keptLines (h : l ∈ keptLines text) :
    0 < l.number ∧ (splitLines text.toList)[l.number - 1]? = some l.text.toList := by
  obtain ⟨⟨line, number⟩, mem, rfl⟩ := List.mem_map.mp (List.mem_filter.mp h).1
  have ⟨pos, line_eq⟩ := List.mk_mem_zipIdx_iff_le_and_getElem?_sub.mp mem
  rw [List.getElem?_map, Option.map_eq_some_iff] at line_eq
  obtain ⟨chars, chars_eq, rfl⟩ := line_eq
  exact ⟨pos, by simpa using chars_eq⟩

theorem number_pairwise_enumerate (first : Nat) (texts : List String) :
    (SourceLine.enumerate first texts).Pairwise (·.number < ·.number) := by
  have h := List.pairwise_lt_range' (s := first) (n := texts.length)
  refine List.pairwise_map.mpr ?_
  rw [← List.pairwise_map, List.zipIdx_map_snd]
  exact h

theorem number_pairwise_keptLines (text : String) :
    (keptLines text).Pairwise (·.number < ·.number) :=
  .filter _ (number_pairwise_enumerate ..)

theorem start_line_of_mem_lexemes {x : Lexeme} (h : x ∈ l.lexemes) : x.start.line = l.number := by
  have ⟨_, _, _, _, _, _, start_eq, _⟩ := Lexeme.read_of_mem_ofChars h
  rw [start_eq]
  rfl

theorem standsIn_of_mem_lexemes {x : Lexeme} (hl : l ∈ keptLines text) (hx : x ∈ l.lexemes)
    (ok : ¬x.token.isMistake) :
    ∃ chars n, TextAt text x.start chars ∧ StandsIn x.token n chars := by
  have ⟨pos, line_eq⟩ := line_of_mem_keptLines hl
  have ⟨front, c, rest, n, chars_eq, _, start_eq, _, read_eq⟩ := Lexeme.read_of_mem_ofChars hx
  rw [chars_eq] at line_eq
  have inLine : '\n' ∉ rest := fun h =>
    not_mem_of_mem_splitLines (List.mem_of_getElem? line_eq) (by simp [h])
  refine ⟨c :: rest, n + 1, ?_, standsIn_of_read (fun _ => inLine) read_eq ok⟩
  rw [start_eq]
  exact ⟨pos, front, line_eq, Nat.add_comm ..⟩

theorem spelt_of_mem_lexemes {x : Lexeme} (hl : l ∈ keptLines text) (hx : x ∈ l.lexemes)
    (ok : ¬x.token.isMistake) : ∃ spelling, Spelt x.token spelling := by
  have ⟨_, _, _, spelling, _, _, spelt, _⟩ := standsIn_of_mem_lexemes hl hx ok
  exact ⟨spelling, spelt⟩

end

theorem pairwise_lexemes (text : String) :
    ((keptLines text).flatMap SourceLine.lexemes).Pairwise (·.start.Precedes ·.start) := by
  refine List.pairwise_flatMap.mpr ⟨fun l _ => Lexeme.pairwise_ofChars .., ?_⟩
  refine (number_pairwise_keptLines text).imp fun lt x hx y hy => .inl ?_
  rwa [start_line_of_mem_lexemes hx, start_line_of_mem_lexemes hy]

end WispSyntax

import WispSyntax.Proofs.Numerals
import WispSyntax.Proofs.Quotation
import WispSyntax.Proofs.Words

/-!
How the highlighting cuts a line. The spans of a line that is no comment are its strings, its words
and the characters beside them (`cut_spansFrom`), so that nothing of the line is lost and no span is
empty (`spans_partition`).
-/

namespace WispSyntax.Highlight

-- A text cut into strings, words and single characters. The last string may lack its end, and a
-- word goes on for as long as there are letters and numerals.
inductive Cut : List Char → List (List Char) → Prop
  | nil : Cut [] []
  | string {opening content closing rest pieces} (opens : Token.isQuote opening)
      (plain : ∀ c ∈ content, Token.isQuote c = false) (closes : Token.isQuote closing)
      (next : Cut rest pieces) :
      Cut (opening :: (content ++ closing :: rest)) ((opening :: (content ++ [closing])) :: pieces)
  | openString {opening content} (opens : Token.isQuote opening)
      (plain : ∀ c ∈ content, Token.isQuote c = false) :
      Cut (opening :: content) [opening :: content]
  | word {c tail rest pieces} (alphanumeric : ∀ d ∈ c :: tail, isAlphanumeric d)
      (stop : rest.head?.any isAlphanumeric = false) (next : Cut rest pieces) :
      Cut (c :: (tail ++ rest)) ((c :: tail) :: pieces)
  | symbol {c rest pieces} (quote : Token.isQuote c = false) (other : isAlphanumeric c = false)
      (next : Cut rest pieces) : Cut (c :: rest) ([c] :: pieces)

namespace Cut
variable {text : List Char} {pieces : List (List Char)}

theorem flatten_eq (h : Cut text pieces) : pieces.flatten = text := by
  induction h
  case nil        => rfl
  case openString => simp
  case string hi  => simp [hi]
  case word hi    => simp [hi]
  case symbol hi  => simp [hi]

theorem ne_nil_of_mem (h : Cut text pieces) {piece : List Char} (hp : piece ∈ pieces) :
    piece ≠ [] := by
  induction h
  case nil        => cases hp
  case openString =>
    rw [List.mem_singleton.mp hp]
    exact List.cons_ne_nil _ _
  case string hi | word hi | symbol hi =>
    rcases List.mem_cons.mp hp with rfl | hp
    · exact List.cons_ne_nil _ _
    · exact hi hp

theorem eq_nil (h : Cut [] pieces) : pieces = [] := by
  cases h
  rfl

section
variable {c : Char} {rest : List Char} {n : Nat}

-- A string goes on to the next quote, and to the end of the text if there is none.
theorem quoted (quote : Token.isQuote c)
    (n_eq : n = min ((rest.takeWhile (!Token.isQuote ·)).length + 1) rest.length)
    (next : Cut (rest.drop n) pieces) : Cut (c :: rest) ((c :: rest.take n) :: pieces) := by
  rcases Token.readString_eq rest with ⟨plain, _⟩ | ⟨content, closing, after, rfl, plain, closes, _⟩
  case inl =>
    have whole : rest.takeWhile (!Token.isQuote ·) = rest :=
      List.takeWhile_eq_self_iff.mpr (by simpa using plain)
    rw [whole, Nat.min_eq_right (Nat.le_succ _)] at n_eq
    rw [n_eq, List.drop_length] at next
    rw [n_eq, List.take_length, next.eq_nil]
    exact .openString quote plain
  case inr =>
    have stop : (closing :: after).head?.any (!Token.isQuote ·) = false := by simp [closes]
    have inside : (content ++ closing :: after).takeWhile (!Token.isQuote ·) = content :=
      takeWhile_append_of_stop (by simpa using plain) stop
    rw [inside, Nat.min_eq_left (by simp)] at n_eq
    rw [n_eq, List.drop_length_add_append] at next
    rw [n_eq, List.take_length_add_append]
    exact .string quote plain closes next

-- A word goes on as far as there are letters and numerals.
theorem ofTakeWhile (alphanumeric : isAlphanumeric c)
    (n_eq : n = (rest.takeWhile isAlphanumeric).length) (next : Cut (rest.drop n) pieces) :
    Cut (c :: rest) ((c :: rest.take n) :: pieces) := by
  have stop := head?_dropWhile_stop isAlphanumeric rest
  have front := List.prefix_iff_eq_take.mp (List.takeWhile_prefix (l := rest) isAlphanumeric)
  have whole := List.takeWhile_append_dropWhile (p := isAlphanumeric) (l := rest)
  rw [n_eq, drop_length_takeWhile] at next
  rw [n_eq, ← front]
  conv => lhs; rw [← whole]
  refine .word (List.forall_mem_cons.mpr ⟨alphanumeric, fun d hd => ?_⟩) stop next
  exact List.mem_takeWhile_imp hd

end
end Cut

theorem cut_spansFrom (before previous : List Char) (skip : Nat) (text : List Char) :
    Cut (text.drop skip) ((spansFrom before previous skip text).map (·.text.toList)) := by
  fun_induction spansFrom before previous skip text
  case case1 => simpa using Cut.nil
  case case2 hi => exact hi
  case case3 before previous c rest p hi =>
    rw [List.drop_zero, List.map_cons, String.toList_ofList]
    cases quote : Token.isQuote c
    case true => exact .quoted quote (by simp only [p, piece_quote quote]) hi
    case false =>
      cases word : isAlphanumeric c
      case true => exact .ofTakeWhile word (by simp only [p, piece_word word]) hi
      case false =>
        have more : p.more = 0 := by simp only [p, piece_symbol quote word]
        rw [more] at hi ⊢
        exact .symbol quote word hi

section
variable {line : String}

theorem spans_of_isSkippable (h : SourceLine.isSkippable line) :
    spans line = [{ text := line, style := { fg := some Theme.comment } }] :=
  if_pos h

theorem cut_spans (h : SourceLine.isSkippable line = false) :
    Cut line.toList ((spans line).map (·.text.toList)) := by
  rw [spans, if_neg (by simp [h])]
  exact cut_spansFrom [] [] 0 line.toList

theorem join_spans (line : String) : String.join ((spans line).map (·.text)) = line := by
  cases skippable : SourceLine.isSkippable line
  case true  => simp [spans_of_isSkippable skippable]
  case false =>
    rw [← String.toList_inj]
    simpa [List.flatMap_def, Function.comp_def] using (cut_spans skippable).flatten_eq

theorem eq_of_mem_spans {s : Span} (hs : s ∈ spans line) (empty : s.text = "") :
    line = "" ∧ spans line = [s] := by
  cases skippable : SourceLine.isSkippable line
  case true  =>
    have single := spans_of_isSkippable skippable
    obtain rfl := List.mem_singleton.mp (single ▸ hs)
    exact ⟨empty, single⟩
  case false =>
    have piece : s.text.toList ∈ (spans line).map (·.text.toList) := List.mem_map_of_mem hs
    have ne := (cut_spans skippable).ne_nil_of_mem piece
    exact absurd (by rw [empty]; rfl) ne

end

-- The spans of a line make up the line, and none of them is empty unless it is the only one of a
-- line without characters. A line that is no comment is cut at its strings and words.
theorem spans_partition (line : String) :
    String.join ((spans line).map (·.text)) = line ∧
    (∀ s ∈ spans line, s.text = "" → line = "" ∧ spans line = [s]) ∧
    (SourceLine.isSkippable line = false → Cut line.toList ((spans line).map (·.text.toList))) :=
  ⟨join_spans line, fun _ => eq_of_mem_spans, cut_spans⟩

end WispSyntax.Highlight

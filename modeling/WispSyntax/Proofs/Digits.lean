import WispSyntax.Proofs.Balance
import WispSyntax.Proofs.Numerals

/-!
Where the descent stands on a digit, it goes on with what the grammar of numbers says
(`Builder.item_numeral`).
-/

namespace WispSyntax

namespace Builder

variable {α : Type} {s : Session α} {c : Char} {rest : List Char}

theorem consume_of_head? {l : Lexeme} (head : s.rest.head? = some l) :
    consume s = (.ok (), { s with position := l.stop.column - 1 }) := by
  rw [consume, head, Option.elim_some]

-- Where a session stands on a digit, the grammar allows for one token, and that is what the session
-- goes on with: a number or a name, after which it stands, or a fault where it is.
theorem item_numeral [LineSupplier α]
    (here : s.line.text.toList.drop s.position = c :: rest) (digit : c.isDigit)
    (expressions : Budget → Builder α (List Node)) (steps : Nat) (nodes : List Node) :
    let place := s.line.start.right s.position
    ∃ l token length, s.rest.head? = some l ∧
      (∀ t n, Numeral (c :: rest) t n ↔ t = token ∧ n = length) ∧
      Token.scan .integer [] (c :: rest) = (token, length) ∧
      ((∃ form value, token = .number form value ∧ item expressions steps l nodes s =
          (.ok (.leaf form.kind value place, nodes), { s with position := s.position + length })) ∨
        (∃ value, token = .name value false ∧ item expressions steps l nodes s =
          (.ok (.leaf .identifier value place, nodes),
            { s with position := s.position + length })) ∨
        ∃ fault, token = .badNumber fault ∧ item expressions steps l nodes s =
          (.error (.rejected (.number fault) (place.right length) s.line.text), s)) := by
  intro place
  obtain ⟨token, length, numeral⟩ : ∃ t n, Numeral (c :: rest) t n :=
    ⟨_, _, Token.numeral_of_readNumber digit rest⟩
  have only (t n) : Numeral (c :: rest) t n ↔ t = token ∧ n = length := by
    rw [Token.numeral_iff digit, (Token.numeral_iff digit).mp numeral, Prod.mk.injEq, eq_comm,
      eq_comm (a := length)]
  have read : s.rest.head? = some { token, start := place, stop := place.right length } := by
    rw [Session.rest, here, Lexeme.ofChars, if_neg (by simp [not_isBlank_of_isDigit digit]),
      Token.read_of_numeral digit numeral]
    simp only [List.head?_cons, Nat.sub_add_cancel numeral.length_pos, place]
  have consumed := consume_of_head? read
  have position : (place.right length).column - 1 = s.position + length := by
    rw [Location.right_right, Location.right_column, Nat.add_comm]
    rfl
  rw [position] at consumed
  refine ⟨_, token, length, read, only, Token.scan_of_numeral numeral, ?_⟩
  rcases numeral.form with ⟨form, value, rfl⟩ | ⟨value, rfl⟩ | ⟨fault, rfl⟩
  case inl =>
    refine .inl ⟨form, value, rfl, ?_⟩
    simp only [item, bind_apply, consumed]
    rfl
  case inr.inl =>
    refine .inr (.inl ⟨value, rfl, ?_⟩)
    simp only [item, bind_apply, consumed]
    rfl
  case inr.inr => exact .inr (.inr ⟨fault, rfl, rfl⟩)

theorem item_numeral_marked :
    let s : Session TextLines :=
      { supplier := TextLines.ofText "", line := ⟨3, "x 0x1F.+2"⟩, position := 2 }
    ∃ l, s.rest.head? = some l ∧ item (fun _ => stuck) 0 l [] s =
      (.ok (.leaf .hexadecimal "0x1F" ⟨3, 3⟩, []), { s with position := 7 }) := by
  intro s
  have here : s.line.text.toList.drop s.position = '0' :: "x1F.+2".toList := by decide
  have ⟨l, token, length, read, _, scanned, outcome⟩ :=
    item_numeral here rfl (fun _ => stuck) 0 []
  have found : Token.scan .integer [] "0x1F.+2".toList =
      (.number (.marked .hexadecimal) "0x1F", 5) := by decide +kernel
  obtain ⟨rfl, rfl⟩ := Prod.mk.inj (scanned.symm.trans found)
  refine ⟨l, read, ?_⟩
  rcases outcome with ⟨_, _, token_eq, outcome⟩ | ⟨_, ⟨⟩, _⟩ | ⟨_, ⟨⟩, _⟩
  cases token_eq
  exact outcome

end Builder
end WispSyntax

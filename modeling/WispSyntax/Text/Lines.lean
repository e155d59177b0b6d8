/-!
The lines of a text. A line ends at a line feed, with the carriage return before it if there is
one, and what follows the last line feed is a line unless it is empty.
-/

namespace WispSyntax

-- The lines without their endings. Carriage returns elsewhere stay, also one that ends the text.
def splitLines : List Char → List (List Char)
  | []                   => []
  | '\n' :: rest         => [] :: splitLines rest
  | '\r' :: '\n' :: rest => [] :: splitLines rest
  | c :: rest            =>
    match splitLines rest with
    | []            => [[c]]
    | line :: lines => (c :: line) :: lines

theorem splitLines_eq_nil_iff {text : List Char} : splitLines text = [] ↔ text = [] := by
  fun_cases splitLines text <;> simp_all

end WispSyntax

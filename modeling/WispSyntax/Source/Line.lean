import WispSyntax.Text.Blank

/-!
Lines of a program text.
-/

namespace WispSyntax

-- Numbers count the lines of the text from one, also those that are left out later.
structure SourceLine where
  number : Nat
  text   : String
deriving DecidableEq, Repr

namespace SourceLine

-- Nothing but blanks, or a comment: the first characters after blanks are `//`.
def isSkippable (text : String) : Bool :=
  match text.toList.dropWhile isBlank with
  | []              => true
  | '/' :: '/' :: _ => true
  | _               => false

-- Gives texts their numbers, from the given one on.
def enumerate (first : Nat) (texts : List String) : List SourceLine :=
  (texts.zipIdx first).map fun (text, number) => { number, text }

theorem enumerate_cons (first : Nat) (text : String) (texts : List String) :
    enumerate first (text :: texts) = ⟨first, text⟩ :: enumerate (first + 1) texts := by
  simp [enumerate]

theorem enumerate_append (first : Nat) (xs ys : List String) :
    enumerate first (xs ++ ys) = enumerate first xs ++ enumerate (first + xs.length) ys := by
  simp [enumerate, List.zipIdx_append]

theorem enumerate_text (first : Nat) (texts : List String) :
    (enumerate first texts).map (·.text) = texts := by
  simp [enumerate, Function.comp_def]

end SourceLine
end WispSyntax

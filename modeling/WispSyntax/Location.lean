/-!
Places in a program text.
-/

namespace WispSyntax

-- Lines and columns count from one, columns in characters. Line 0 stands for no place at all.
structure Location where
  line   : Nat := 0
  column : Nat := 0
deriving DecidableEq, Repr

namespace Location

def text (l : Location) : String :=
  s!"{l.line}:{l.column}"

-- The place so many characters further on in the same line.
def right (l : Location) (n : Nat) : Location :=
  { l with column := l.column + n }

theorem right_line (l : Location) (n : Nat) : (l.right n).line = l.line :=
  rfl

theorem right_column (l : Location) (n : Nat) : (l.right n).column = l.column + n :=
  rfl

theorem right_right (l : Location) (m n : Nat) : (l.right m).right n = l.right (m + n) := by
  simp [right, Nat.add_assoc]

end Location
end WispSyntax

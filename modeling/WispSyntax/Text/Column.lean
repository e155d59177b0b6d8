/-!
Text set in a column of a fixed width. `fitChars_length` gives the width of the result, and a text
that is as long as its column is set unchanged (`fitChars_of_length_eq`).
-/

namespace WispSyntax

inductive Alignment
  | left
  | right
  | centre
deriving DecidableEq, Repr

-- A column cuts a text to its limit, if it has one, and fills it with blanks up to its width.
structure Column where
  width : Nat
  limit : Option Nat := none
  align : Alignment := .left
deriving DecidableEq, Repr

namespace Column

def cut (c : Column) (text : List Char) : List Char :=
  match c.limit with
  | some n => text.take n
  | none   => text

-- The blanks that go before the text; a centred text has the odd blank after it.
def lead (c : Column) (room : Nat) : Nat :=
  match c.align with
  | .left   => 0
  | .right  => room
  | .centre => room / 2

theorem lead_le (c : Column) (room : Nat) : c.lead room ≤ room := by
  unfold lead; split <;> omega

def fitChars (c : Column) (text : List Char) : List Char :=
  let shown := c.cut text
  let room  := c.width - shown.length
  let lead  := c.lead room
  List.replicate lead ' ' ++ shown ++ List.replicate (room - lead) ' '

def fit (c : Column) (text : String) : String :=
  String.ofList (c.fitChars text.toList)

theorem fitChars_length (c : Column) (text : List Char) :
    (c.fitChars text).length = max c.width (c.cut text).length := by
  have := c.lead_le (c.width - (c.cut text).length)
  simp only [fitChars, List.length_append, List.length_replicate]
  omega

theorem fitChars_of_length_eq {c : Column} {text : List Char} (h : c.width = text.length)
    (hl : c.limit = none) : c.fitChars text = text := by
  have := c.lead_le 0
  have : c.lead 0 = 0 := by omega
  simp [fitChars, cut, hl, h, this]

end Column

-- A number at the right end of a column.
def alignedNumber (width n : Nat) : String :=
  Column.fit { width, align := .right } (toString n)

end WispSyntax

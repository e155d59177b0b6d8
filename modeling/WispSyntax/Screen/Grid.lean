import WispSyntax.Screen.Style

/-!
Screens as rows of cells. Every row of a drawing is as wide as the drawing, whatever is written on
it: `writeLeft_length`, `writeRight_length`.
-/

namespace WispSyntax

structure Cell where
  char  : Char := ' '
  style : Style := {}
deriving DecidableEq, Repr

-- The rows from top to bottom.
abbrev Screen := List (List Cell)

namespace Screen

def paint (base : Style) (char : Char) (s : Span) : Cell where
  char
  style := s.style.atop base

-- Each character takes one cell here. A terminal gives a wide character two cells, and a control
-- character is left out there.
def cells (base : Style) (spans : List Span) : List Cell :=
  spans.flatMap fun s => s.text.toList.map (paint base · s)

-- A row with text from its left end on; what does not fit is cut off on the right.
def writeLeft (width : Nat) (base : Style) (spans : List Span) : List Cell :=
  let shown := (cells base spans).take width
  shown ++ List.replicate (width - shown.length) { style := base }

-- A row with text up to its right end; what does not fit is cut off on the right all the same.
def writeRight (width : Nat) (base : Style) (spans : List Span) : List Cell :=
  let shown := (cells base spans).take width
  List.replicate (width - shown.length) { style := base } ++ shown

theorem writeLeft_length (width : Nat) (base : Style) (spans : List Span) :
    (writeLeft width base spans).length = width := by
  simp only [writeLeft, List.length_append, List.length_take, List.length_replicate]
  omega

theorem writeRight_length (width : Nat) (base : Style) (spans : List Span) :
    (writeRight width base spans).length = width := by
  simp only [writeRight, List.length_append, List.length_take, List.length_replicate]
  omega

-- Two drawings of one height next to each other.
def beside (left right : Screen) : Screen :=
  List.zipWith (· ++ ·) left right

-- The widths of the two halves of a screen; the left one has the odd column.
def halves (width : Nat) : Nat × Nat :=
  (width - width / 2, width / 2)

theorem halves_sum (width : Nat) : (halves width).1 + (halves width).2 = width := by
  simp only [halves]
  omega

end Screen
end WispSyntax

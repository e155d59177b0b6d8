/-!
Colours of text on a screen.
-/

namespace WispSyntax

inductive Color
  | rgb (red green blue : UInt8)
  | black
deriving DecidableEq, Repr

-- What is not given stays as it is on the screen.
structure Style where
  fg   : Option Color := none
  bg   : Option Color := none
  bold : Bool := false
deriving DecidableEq, Repr

namespace Style

-- A style put on top of another one.
def atop (s base : Style) : Style where
  fg   := s.fg.or base.fg
  bg   := s.bg.or base.bg
  bold := s.bold || base.bold

def onto (s : Style) (bg : Color) : Style :=
  { s with bg := some bg }

theorem atop_plain (s : Style) : s.atop {} = s := by
  simp [atop]

theorem atop_atop (s t u : Style) : (s.atop t).atop u = s.atop (t.atop u) := by
  simp [atop, Option.or_assoc, Bool.or_assoc]

end Style

-- A piece of text in one style.
structure Span where
  text  : String
  style : Style := {}
deriving DecidableEq, Repr

end WispSyntax

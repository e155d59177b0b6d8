import WispSyntax.Screen.Grid
import WispSyntax.Viewer.Theme

/-!
The bar below the panes: what is selected and what happened last, and the keys.
-/

namespace WispSyntax

structure StatusBar where
  path     : String
  message  : String
  selected : Nat
  total    : Nat
deriving DecidableEq, Repr

namespace StatusBar

def plain : Style where
  bg := some Theme.currentLine

def styled (c : Color) : Style where
  fg := some c
  bg := some Theme.currentLine

def state (s : StatusBar) : List Span :=
  [ { text := s!" Node {s.selected + 1}/{s.total} ",
      style := { fg := some .black, bg := some Theme.primary, bold := true } },
    { text := s!" {s.path} ", style := styled Theme.success },
    { text := " | ", style := styled Theme.comment },
    { text := s!" {s.message} ", style := styled Theme.text } ]

def key (name : String) : Span where
  text  := name
  style := { fg := some .black, bg := some Theme.comment }

def action (name : String) : Span where
  text  := name
  style := styled Theme.text

def bar : List Span :=
  [ { text := "│", style := styled Theme.comment }, { text := " ", style := styled Theme.text } ]

def keys : List Span :=
  [key " ↑/↓ ", action " move "] ++ bar ++ [key " ←/→ ", action " fold "] ++ bar ++
    [key " ↵ ", action " toggle "] ++ bar ++ [key " ⇥ ", action " pane "] ++ bar ++
    [key "q", action " quit "]

-- The first row has the text, and all rows have the background.
def draw (s : StatusBar) (width height : Nat) : Screen :=
  let (left, right) := Screen.halves width
  match height with
  | 0          => []
  | height + 1 =>
    (Screen.writeLeft left plain s.state ++ Screen.writeRight right plain keys) ::
      List.replicate height (Screen.writeLeft width plain [])

end StatusBar
end WispSyntax

import WispSyntax.Category
import WispSyntax.Screen.Style

/-!
The colours of the viewer, by what they are used for.
-/

namespace WispSyntax.Theme

def text          : Color := .rgb 205 214 244
def primary       : Color := .rgb 137 180 250
def secondary     : Color := .rgb 250 179 135
def comment       : Color := .rgb 108 112 134
def success       : Color := .rgb 166 227 161
def keyword       : Color := .rgb 137 180 250
def string        : Color := .rgb 166 227 161
def number        : Color := .rgb 250 179 135
def operator      : Color := .rgb 245 194 231
def borderFocused : Color := .rgb 249 226 175
def borderNormal  : Color := .rgb 108 112 134
def currentLine   : Color := .rgb 50 50 70
def selection     : Color := .rgb 69 71 90
def function      : Color := .rgb 249 226 175
def typeName      : Color := .rgb 148 226 213

-- The colour of nodes of a category.
def ofCategory : Category → Color
  | .math | .bitwise        => operator
  | .logic | .equality      => primary
  | .assignment             => function
  | .conditional | .control => secondary
  | .keyword                => keyword
  | .other                  => text

-- The border of a pane.
def border (focused : Bool) : Style :=
  if focused then { fg := some borderFocused, bold := true } else { fg := some borderNormal }

end WispSyntax.Theme

/-!
Control sequences: what a text says to a terminal rather than to its reader. Each begins with an
escape character, and a terminal that shows no colours is given the text without them.
-/

namespace WispSyntax

-- How far a control sequence has come. A device string has a header of parameters and intermediate
-- characters before its text.
inductive ControlState
  | outside
  | escape
  | intermediate
  | control
  | command
  | device
  | deviceParameter
  | deviceIntermediate
  | string
deriving DecidableEq, Repr

def isControlBlank (c : Char) : Bool :=
  c = '\t' || c = '\n' || c = '\x0c' || c = '\r'

namespace ControlState

-- The state after the character behind an escape, which says what kind of sequence this is.
def opened (c : Char) : ControlState :=
  if c.toNat < 0x30 then intermediate
  else if c = '[' then control
  else if c = ']' then command
  else if c = 'P' then device
  else if c = 'X' || c = '^' || c = '_' then string
  else outside

-- The terminator of a string is the byte 9C, also where it is part of a longer character.
def terminates (c : Char) : Bool :=
  (String.utf8EncodeChar c).any (· = 0x9C)

-- The state after a character of ASCII that is no control character.
def afterGraphic (s : ControlState) (c : Char) : ControlState :=
  match s with
  | outside            => outside
  | escape             => opened c
  | intermediate       => if c.toNat < 0x30 then intermediate else outside
  | control            => if c.toNat < 0x40 then control else outside
  | command            => command
  | device             =>
    if c.toNat < 0x30 then deviceIntermediate
    else if c.toNat < 0x40 then deviceParameter
    else string
  | deviceParameter    =>
    if c.toNat < 0x30 then deviceIntermediate
    else if c.toNat < 0x3C then deviceParameter
    else string
  | deviceIntermediate => if c.toNat < 0x30 then deviceIntermediate else string
  | string             => string

-- The state after a character that is not shown.
def after (s : ControlState) (c : Char) : ControlState :=
  if c = '\x1b' then escape
  else if c = '\x18' || c = '\x1a' then outside
  else if c.toNat < 0x20 || c = '\x7f' then
    match s with
    | command => if c = '\x07' then outside else command
    | s       => s
  else if c.toNat < 0x80 then s.afterGraphic c
  else
    match s with
    | string => if terminates c then outside else string
    | s      => s

-- The state after a character that is shown. A sequence that shows a blank is not over yet.
def afterShown (s : ControlState) (c : Char) : ControlState :=
  if c.toNat < 0x80 then s else outside

def shows (s : ControlState) (c : Char) : Bool :=
  match s with
  | outside                         => 0x20 ≤ c.toNat && c ≠ '\x7f' || isControlBlank c
  | escape | intermediate | control => isControlBlank c
  | _                               => false

-- The characters that are shown. Behind one of them, which may be a blank inside a sequence, a run
-- of text goes on up to the next control character; only there is the sequence taken up again.
def shown (s : ControlState) (running : Bool) : List Char → List Char
  | []      => []
  | c :: cs =>
    if (if running then outside else s).shows c then
      c :: (s.afterShown c).shown true cs
    else
      (s.after c).shown false cs

end ControlState

def withoutControls (text : String) : String :=
  String.ofList (ControlState.outside.shown false text.toList)

end WispSyntax

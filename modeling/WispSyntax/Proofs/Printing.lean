import WispSyntax.Proofs.Rereading

/-!
A printer for trees. What a layout leaves open is how many blanks stand between two tokens; the
tokens themselves, and where a line ends, follow from the tree.
-/

namespace WispSyntax

-- What the parser is given one after the other.
inductive Item
  | token (t : Token)
  | newline
deriving DecidableEq

-- The number of blanks between two tokens of a line, and whether the name of a function stands
-- right at its parenthesis where the function is declared.
structure Layout where
  gap       : Token → Token → Nat
  joinsHead : Bool
  -- A name stands at the parenthesis after it exactly if it is called.
  call      : ∀ name, gap (.name name true) .openParen = 0
  apart     : ∀ name t, gap (.name name false) t = 0 → t.text.toList.head? ≠ some '('
  -- Tokens that run together are kept apart.
  ends      : ∀ s t, gap s t = 0 → s.endsBefore t.text.toList.head?

namespace Token

theorem endsBefore_none (t : Token) : t.endsBefore none := by
  unfold endsBefore
  split <;> rfl

theorem endsBefore_blank (t : Token) : t.endsBefore (some ' ') := by
  have letter : isLetter ' ' = false := by decide +kernel
  unfold endsBefore
  split <;> simp [isWordChar, letter]

theorem endsBefore_comma (t : Token) : t.endsBefore (some ',') := by
  have letter : isLetter ',' = false := not_isLetter_of_symbol rfl
  unfold endsBefore
  split <;> simp [isWordChar, letter]

theorem name_endsBefore_openParen (text : String) (called : Bool) :
    (name text called).endsBefore (some '(') := by
  have letter : isLetter '(' = false := not_isLetter_of_symbol rfl
  simp [endsBefore, isWordChar, letter]

end Token

namespace Layout

-- Single blanks, but none before a comma and none after the name of a call.
def standardGap : Token → Token → Nat
  | _,            .comma     => 0
  | .name _ true, .openParen => 0
  | _,            _          => 1

def standard : Layout where
  gap       := standardGap
  joinsHead := false
  call _    := rfl
  apart name t h := by
    unfold standardGap at h
    split at h
    case h_1 => decide
    case h_2 hn => cases hn
    case h_3 => contradiction
  ends s t h := by
    unfold standardGap at h
    split at h
    case h_1 => exact s.endsBefore_comma
    case h_2 => exact Token.name_endsBefore_openParen _ true
    case h_3 => contradiction

end Layout

namespace Node

-- The name of a function where it is declared. It is a word before a parenthesis if it stands there
-- and is a word at all.
def headName (layout : Layout) (value : String) : Token :=
  .name value (layout.joinsHead && value.toList.all isLetter)

section
variable (layout : Layout)

-- What stands between the token of a node and what is below the node.
def leading (value : String) : Kind → List Item
  | .function => [.token (headName layout value), .token .openParen]
  | .call     => [.token .openParen]
  | .block    => [.newline]
  | _         => []

-- What stands between the parameters and the children.
def separating : Kind → List Item
  | .function => [.token .closeParen, .token .openBrace, .newline]
  | _         => []

mutual

-- The tokens of a tree. Entries have commas between them, and each child has a line of its own.
def items : Node → List Item
  | ⟨kind, value, lhs, rhs, _, params, children, _⟩ =>
    itemsOption lhs ++ (kind.token? value).toList.map .token ++ leading layout value kind ++
      itemsOption rhs ++ itemsEntries params ++ separating kind ++ itemsLines children ++
      kind.closing.map .token

def itemsOption : Option Node → List Item
  | none   => []
  | some n => items n

def itemsList : List Node → List Item
  | []      => []
  | n :: ns => items n ++ itemsList ns

def itemsEntries : List (List Node) → List Item
  | []      => []
  | e :: es => itemsList e ++ itemsMore es

def itemsMore : List (List Node) → List Item
  | []      => []
  | e :: es => .token .comma :: itemsList e ++ itemsMore es

def itemsLines : List Node → List Item
  | []      => []
  | n :: ns => items n ++ .newline :: itemsLines ns

end

theorem items_eq (n : Node) :
    n.items layout =
      itemsOption layout n.lhs ++ (n.kind.token? n.value).toList.map .token ++
        leading layout n.value n.kind ++ itemsOption layout n.rhs ++ itemsEntries layout n.params ++
        separating n.kind ++ itemsLines layout n.children ++ n.kind.closing.map .token := by
  cases n
  rw [items]

section
variable {value : String} {params : List (List Node)} {children : List Node} {place : Location}

theorem items_constant (c : Constant) :
    (leaf c.kind "" place).items layout = [.token (.constant c)] := by
  cases c <;> rfl

theorem items_number (form : NumberForm) :
    (leaf form.kind value place).items layout = [.token (.number form value)] := by
  rcases form with _ | _ | ⟨⟨⟩⟩ <;> rfl

theorem items_string : (leaf .string value place).items layout = [.token (.string value)] :=
  rfl

theorem items_identifier :
    (leaf .identifier value place).items layout = [.token (.name value false)] :=
  rfl

theorem items_between (op : Operator) (lhs rhs : Node) :
    (between op.kind lhs rhs place).items layout =
      lhs.items layout ++ .token (.operator op) :: rhs.items layout := by
  have plain : leading layout "" op.kind = [] ∧ separating op.kind = [] ∧ op.kind.closing = [] := by
    rcases op with ⟨⟨⟩⟩ | ⟨⟨⟩⟩ | _ | _ | _ <;> exact ⟨rfl, rfl, rfl⟩
  simp [items_eq, between, itemsOption, itemsEntries, itemsLines, plain]

theorem items_negation (rhs : Node) :
    (before .not rhs place).items layout = .token (.operator .not) :: rhs.items layout := by
  simp [items_eq, before, itemsOption, itemsEntries, itemsLines, leading, separating, Kind.token?,
    Kind.closing]

theorem items_query (lhs : Node) :
    (after .typeOf lhs place).items layout = lhs.items layout ++ [.token (.operator .cast)] := by
  simp [items_eq, after, itemsOption, itemsEntries, itemsLines, leading, separating, Kind.token?,
    Kind.closing]

theorem items_counter (c : Counter) (lhs : Node) :
    (after c.kind lhs place).items layout = lhs.items layout ++ [.token (.counter c)] := by
  have plain : leading layout "" c.kind = [] ∧ separating c.kind = [] ∧ c.kind.closing = [] := by
    cases c <;> exact ⟨rfl, rfl, rfl⟩
  simp [items_eq, after, itemsOption, itemsEntries, itemsLines, plain]

theorem items_group :
    ({ kind := .group, params, location := place } : Node).items layout =
      .token .openParen :: itemsEntries layout params ++ [.token .closeParen] := by
  simp [items_eq, itemsOption, itemsLines, leading, separating, Kind.token?, Kind.closing]

theorem items_call :
    ({ kind := .call, value, params, location := place } : Node).items layout =
      .token (.name value true) :: .token .openParen :: itemsEntries layout params ++
        [.token .closeParen] := by
  simp [items_eq, itemsOption, itemsLines, leading, separating, Kind.token?, Kind.closing]

theorem items_block :
    ({ kind := .block, children, location := place } : Node).items layout =
      .token .openBrace :: .newline :: itemsLines layout children ++ [.token .closeBrace] := by
  simp [items_eq, itemsOption, itemsEntries, leading, separating, Kind.token?, Kind.closing]

theorem items_function :
    ({ kind := .function, value, params, children, location := place } : Node).items layout =
      .token .function :: .token (headName layout value) :: .token .openParen ::
        itemsEntries layout params ++ .token .closeParen :: .token .openBrace :: .newline ::
        itemsLines layout children ++ [.token .closeBrace] := by
  simp [items_eq, itemsOption, leading, separating, Kind.token?, Kind.closing]

end
end
end Node

namespace Layout
variable (layout : Layout)

-- The characters of a line or of several, given the token before them on their line.
def write : Option Token → List Item → List Char
  | _,      []                => []
  | _,      .newline :: items => '\n' :: write none items
  | none,   .token t :: items => t.text.toList ++ write (some t) items
  | some s, .token t :: items =>
    List.replicate (layout.gap s t) ' ' ++ t.text.toList ++ write (some t) items

-- A program text in which each of the trees begins a line.
def print (trees : List Node) : String :=
  String.ofList (layout.write none (Node.itemsLines layout trees))

end Layout

end WispSyntax

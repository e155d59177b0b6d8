/-!
Coarse groups of node kinds, for counts and colours.
-/

namespace WispSyntax

inductive Category
  | math
  | logic
  | bitwise
  | equality
  | assignment
  | conditional
  | keyword
  | control
  | other
deriving DecidableEq, Repr

namespace Category

def name : Category → String
  | math        => "Math"
  | logic       => "Logic"
  | bitwise     => "Bitwise"
  | equality    => "Equality"
  | assignment  => "Assignment"
  | conditional => "Conditional"
  | keyword     => "Keyword"
  | control     => "Return"
  | other       => "Other"

-- All categories in the order in which they are listed.
def all : List Category :=
  [math, logic, bitwise, equality, assignment, conditional, keyword, control, other]

theorem mem_all (c : Category) : c ∈ all := by
  cases c <;> decide

theorem all_nodup : all.Nodup := by
  decide

-- The place of a category in the list.
def rank (c : Category) : Nat :=
  all.idxOf c

theorem rank_inj {c d : Category} (h : c.rank = d.rank) : c = d := by
  revert h; cases c <;> cases d <;> decide

instance : Ord Category where
  compare c d := compare c.rank d.rank

end Category
end WispSyntax

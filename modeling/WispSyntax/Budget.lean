/-!
How many nodes may still be produced in one place.
-/

namespace WispSyntax

inductive Budget
  | unbounded
  | limited (left : Nat)
deriving DecidableEq, Repr

namespace Budget

def isSpent : Budget → Bool
  | limited 0 => true
  | _         => false

-- A spent budget stays spent.
def spend : Budget → Budget
  | unbounded => unbounded
  | limited n => limited (n - 1)

def text : Budget → String
  | unbounded => "Unbounded"
  | limited n => s!"Limited({n})"

theorem isSpent_spend_of_isSpent {b : Budget} (h : b.isSpent) : b.spend = b := by
  cases b with
  | unbounded => rfl
  | limited n => cases n <;> simp_all [isSpent, spend]

end Budget
end WispSyntax

/-!
# Character classes

A class of characters is a list of code point ranges, both ends included and in increasing order. A
large class is a list of runs: how many code points lie outside the class, how many in it, and so on
in turn.
-/

namespace Bindery.Text

def inRanges (ranges : List (Nat × Nat)) (c : Char) : Bool :=
  ranges.any fun range => range.1 ≤ c.toNat && c.toNat ≤ range.2

/-- Whether the number `n`, counted from where the runs start, lies in their class. -/
def inRunsFrom : List Nat → Nat → Bool
  | outside :: inside :: rest, n =>
    outside ≤ n && (n < outside + inside || inRunsFrom rest (n - (outside + inside)))
  | _, _ => false

/-- Whether `c` lies in the class with these runs. -/
def inRuns (runs : List Nat) (c : Char) : Bool := inRunsFrom runs c.toNat

end Bindery.Text

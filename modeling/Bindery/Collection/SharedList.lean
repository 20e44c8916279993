/-!
# Shared lists

A list made of numbered cells. Two lists that were built on one list share its cells, so beside
having equal items lists can be the same list.
-/

namespace Bindery

structure SharedList (α : Type) where
  cells : List (Nat × α) := []
deriving DecidableEq, Repr

namespace SharedList

variable {α : Type} (l : SharedList α)

def toList : List α := l.cells.map (·.2)

/-- Put a new cell with the given number in front. -/
def prepend (number : Nat) (value : α) : SharedList α := ⟨(number, value) :: l.cells⟩

/-- The list without its first cell, which is the list that the cell was put in front of. -/
def tail? : Option (SharedList α) :=
  match l.cells with
  | [] => none
  | _ :: rest => some ⟨rest⟩

def head? : Option α := l.toList.head?

def size : Nat := l.cells.length

def isEmpty : Bool := l.cells.isEmpty

def contains [BEq α] (value : α) : Bool := l.toList.contains value

/-- Whether two lists start with one cell, or are both empty. -/
def isSame (m : SharedList α) : Bool := (l.cells.head?.map (·.1)) = (m.cells.head?.map (·.1))

end SharedList
end Bindery

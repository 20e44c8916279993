/-!
# Maps from keys to lists

A `Multimap` gives every key the values that were added under it, in the order in which they were
added.
-/

namespace Bindery

structure Multimap (κ α : Type) where
  entries : List (κ × α) := []

namespace Multimap

variable {κ α : Type} [DecidableEq κ]

def get (m : Multimap κ α) (key : κ) : List α :=
  (m.entries.filter (fun entry => entry.1 = key)).map (·.2)

def add (m : Multimap κ α) (key : κ) (value : α) : Multimap κ α := ⟨m.entries ++ [(key, value)]⟩

theorem get_add (m : Multimap κ α) (key other : κ) (value : α) :
    (m.add key value).get other = m.get other ++ if key = other then [value] else [] := by
  by_cases h : key = other <;> simp [get, add, h]

end Multimap
end Bindery

/-!
# Name tables

A table gives every name a number, in the order in which the names are entered.
-/

namespace Bindery

structure NameTable where
  names : List String := []
deriving DecidableEq, Repr

namespace NameTable

/-- The number of a name that has been entered. -/
def get? (t : NameTable) (name : String) : Option Nat := t.names.findIdx? (· = name)

/-- Enter a name, unless it is there, and give its number. -/
def intern (t : NameTable) (name : String) : Nat × NameTable :=
  match t.get? name with
  | some number => (number, t)
  | none => (t.names.length, ⟨t.names ++ [name]⟩)

def resolve? (t : NameTable) (number : Nat) : Option String := t.names[number]?

def size (t : NameTable) : Nat := t.names.length

def isEmpty (t : NameTable) : Bool := t.names.isEmpty

/-- Different names have different numbers. -/
theorem eq_of_get? {t : NameTable} {a b : String} {number : Nat} (ha : t.get? a = some number)
    (hb : t.get? b = some number) : a = b := by
  obtain ⟨_, ha, -⟩ := List.findIdx?_eq_some_iff_getElem.1 ha
  obtain ⟨_, hb, -⟩ := List.findIdx?_eq_some_iff_getElem.1 hb
  exact (of_decide_eq_true ha).symm.trans (of_decide_eq_true hb)

theorem get?_intern_self (t : NameTable) (name : String) :
    (t.intern name).2.get? name = some (t.intern name).1 := by
  unfold intern
  split
  · next h => exact h
  · next h =>
    simp only [get?] at h ⊢
    simp [List.findIdx?_append, h]

/-- A name keeps its number. -/
theorem get?_intern_of_get? {t : NameTable} {name : String} {number : Nat}
    (h : t.get? name = some number) (other : String) :
    (t.intern other).2.get? name = some number := by
  unfold intern
  split
  · exact h
  · simp only [get?] at h ⊢
    simp [List.findIdx?_append, h]

def text (t : NameTable) : String := "NameTable \x7b len: " ++ toString t.size ++ " \x7d"

end NameTable
end Bindery

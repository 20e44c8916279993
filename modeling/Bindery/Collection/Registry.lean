/-!
# Registers of published values

A `Registry` holds at most one value per key. The first value published under a key stays:
publishing again under the same key changes nothing. Entries are listed with the newest first.
-/

namespace Bindery

structure Registry (κ α : Type) where
  entries : List (κ × α) := []

namespace Registry

variable {κ α : Type} [DecidableEq κ]

def get? (r : Registry κ α) (key : κ) : Option α :=
  (r.entries.find? (fun entry => entry.1 = key)).map (·.2)

def contains (r : Registry κ α) (key : κ) : Bool := (r.get? key).isSome

/-- Publish `value` under `key`, unless a value stands there already. -/
def publish (r : Registry κ α) (key : κ) (value : α) : Registry κ α :=
  if r.contains key then r else ⟨(key, value) :: r.entries⟩

def size (r : Registry κ α) : Nat := r.entries.length

@[simp] theorem get?_empty (key : κ) : (Registry.mk [] : Registry κ α).get? key = none := rfl

theorem publish_of_get? {r : Registry κ α} {key : κ} {old : α} (value : α)
    (h : r.get? key = some old) : r.publish key value = r := by
  simp [publish, contains, h]

theorem get?_publish_self {r : Registry κ α} {key : κ} (value : α) (h : r.get? key = none) :
    (r.publish key value).get? key = some value := by
  have hc : r.contains key = false := by simp [contains, h]
  simp [publish, hc, get?]

theorem get?_publish_of_ne {r : Registry κ α} {key other : κ} (value : α) (h : other ≠ key) :
    (r.publish key value).get? other = r.get? other := by
  unfold publish
  split
  · rfl
  · have hk : ¬ key = other := fun e => h e.symm
    simp [get?, hk]

/-- A published value is never replaced. -/
theorem get?_publish_of_get? {r : Registry κ α} {key other : κ} {old : α} (value : α)
    (h : r.get? other = some old) : (r.publish key value).get? other = some old := by
  by_cases hk : other = key
  · subst hk; rw [publish_of_get? value h, h]
  · rw [get?_publish_of_ne value hk, h]

end Registry
end Bindery

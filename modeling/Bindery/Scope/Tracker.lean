import Bindery.Fault
import Bindery.Symbol.Basic

/-!
# Dependencies between constants

While the constant of a field is computed, the other constants it asks for are written down in a
ledger. A tracker names the field and its ledger; whoever holds the tracker writes to the same one.
-/

namespace Bindery

/-- Whose dependencies are written down, and where. -/
structure Tracker where
  field : SymbolId
  ledger : Nat
deriving DecidableEq, Repr

/-- The ledgers opened so far, each an increasing list of fields. -/
structure Ledgers where
  entries : List (List SymbolId) := []
deriving DecidableEq, Repr

namespace Ledgers

/-- Enter a field into an increasing list. -/
def insertSorted (field : SymbolId) : List SymbolId → List SymbolId
  | [] => [field]
  | next :: rest =>
    if field < next then field :: next :: rest
    else if field = next then next :: rest
    else next :: insertSorted field rest

/-- A new ledger for a field. -/
def track (l : Ledgers) (field : SymbolId) : Tracker × Ledgers :=
  (⟨field, l.entries.length⟩, ⟨l.entries ++ [[]]⟩)

/-- Write down a dependency. There has to be a tracker. -/
def record (l : Ledgers) (tracker : Option Tracker) (field : SymbolId) : Except Fault Ledgers :=
  match tracker with
  | none => .error .idleTracker
  | some tracker => .ok ⟨l.entries.modify tracker.ledger (insertSorted field)⟩

/-- The dependencies written down so far, in increasing order. -/
def dependencies (l : Ledgers) (tracker : Option Tracker) : List SymbolId :=
  (tracker.bind fun tracker => l.entries[tracker.ledger]?).getD []

end Ledgers
end Bindery

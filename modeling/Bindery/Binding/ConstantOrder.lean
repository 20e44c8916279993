import Bindery.Fault
import Bindery.Symbol.Basic

/-!
# The order of constants

Constants that depend on each other form a graph. `DependencyGraph.order` puts each of them after
the ones it depends on. It counts for every constant the dependencies that are still to be taken,
and goes in rounds: a round takes every constant whose count is zero, in increasing order. When
there is none, only cycles are left, and the least constant on a cycle is taken and marked.
-/

namespace Bindery

/-- Constants with what they depend on, in the order in which they were discovered. -/
structure DependencyGraph where
  entries : List (SymbolId × List SymbolId) := []
deriving Repr

namespace DependencyGraph

variable (g : DependencyGraph)

def keys : List SymbolId := g.entries.map (·.1)

def dependencies (field : SymbolId) : List SymbolId :=
  ((g.entries.find? fun entry => entry.1 = field).map (·.2)).getD []

def contains (field : SymbolId) : Bool := g.keys.contains field

def insert (field : SymbolId) (dependencies : List SymbolId) : DependencyGraph :=
  ⟨g.entries ++ [(field, dependencies)]⟩

/-- The dependencies of the fields that are not visited. -/
def unseen (visited : List SymbolId) : List SymbolId :=
  (g.entries.filter fun entry => entry.1 ∉ visited).flatMap (·.2)

theorem length_unseen_cons {field : SymbolId} {visited : List SymbolId} (h : field ∉ visited) :
    (g.unseen (field :: visited)).length + (g.dependencies field).length ≤
      (g.unseen visited).length := by
  obtain ⟨entries⟩ := g
  simp only [unseen, dependencies]
  induction entries with
  | nil => simp
  | cons entry rest ih =>
    by_cases hentry : entry.1 = field
    · -- the rest may hold the field again, and only gets smaller
      simp [hentry, h] at ih ⊢
      omega
    · by_cases hvisited : entry.1 ∈ visited <;> simp [hentry, hvisited] at ih ⊢ <;> omega

/-- Whether `target` is among `stack` or reached from it past the fields in `visited`. -/
def reaches (target : SymbolId) (visited : List SymbolId) : List SymbolId → Bool
  | [] => false
  | field :: rest =>
    if field = target then true
    else if field ∈ visited then reaches target visited rest
    else reaches target (field :: visited) ((g.dependencies field).reverse ++ rest)
termination_by stack => (g.unseen visited).length + stack.length
decreasing_by
  · simp
  · have := g.length_unseen_cons ‹field ∉ visited›
    simp only [List.length_append, List.length_reverse, List.length_cons]
    omega

/-- Whether dependencies lead from a field back to it. -/
def isOnCycle (field : SymbolId) : Bool :=
  g.reaches field [] (g.dependencies field).reverse

/-! ### Counting down -/

/-- How far the ordering has come. -/
structure Progress where
  /-- Every field with the number of its dependencies that are not done. -/
  remaining : List (SymbolId × Nat)
  /-- The fields that are done, and whether each was taken to break a cycle. -/
  order : List (SymbolId × Bool) := []

namespace Progress

def done (s : Progress) : List SymbolId := s.order.map (·.1)

/-- One dependency less to wait for. -/
def release (s : Progress) (field : SymbolId) : Progress :=
  { s with remaining := s.remaining.map fun (other, count) =>
      (other, if other = field then count - 1 else count) }

/-- The fields that wait for nothing and are not done, in increasing order. -/
def ready (s : Progress) : List SymbolId :=
  let waitless := s.remaining.filter fun (field, count) => count = 0 && !s.done.contains field
  (waitless.map (·.1)).mergeSort fun a b => a ≤ b

end Progress

def start : Progress :=
  { remaining := g.entries.map fun (field, dependencies) => (field, dependencies.length) }

/-- The fields that depend on a field, each as often as it does. -/
def dependents (field : SymbolId) : List SymbolId :=
  g.entries.flatMap fun (other, dependencies) =>
    List.replicate (dependencies.count field) other

/-- A field is done, and nothing that depends on it has to wait for it any more. -/
def finish (marked : Bool) (s : Progress) (field : SymbolId) : Progress :=
  (g.dependents field).foldl .release { s with order := s.order ++ [(field, marked)] }

/-- The least field on a cycle that is not done. -/
def cycleStart? (done : List SymbolId) : Option SymbolId :=
  (g.keys.filter fun field => !done.contains field && g.isOnCycle field).min?

/-- Take fields in at most `rounds` rounds, until all are done. -/
def extend : Nat → Progress → Except Fault (List (SymbolId × Bool))
  | 0, s => .ok s.order
  | rounds + 1, s =>
    if s.done.length < g.keys.length then
      match s.ready with
      | [] =>
        match g.cycleStart? s.done with
        | some start => extend rounds (g.finish true s start)
        | none => .error .stalledConstants
      | ready => extend rounds (ready.foldl (g.finish false) s)
    else .ok s.order

/-- Every field after its dependencies; the mark says that the field was taken to break a cycle. -/
def order : Except Fault (List (SymbolId × Bool)) :=
  g.extend g.entries.length g.start

end DependencyGraph
end Bindery

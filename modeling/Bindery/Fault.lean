/-!
# Faults

A fault is a broken contract of the library, as opposed to a mistake in the program under analysis:
mistakes become diagnostics and binding goes on, a fault ends the operation that met it.
`Fault.message` gives its text.
-/

namespace Bindery

inductive Fault where
  /-- A type, method or field was added to a symbol that holds no members. -/
  | memberOutsideContainer
  /-- A dependency was recorded while no constant is being evaluated. -/
  | idleTracker
  /-- The locals of a chain without a local scope were requested. -/
  | noLocalScope
  | whileWithoutLoop
  | labelWithoutScope
  | localWithoutScope
  | functionWithoutScope
  /-- A constant graph has unordered fields, none of them ready and none on a cycle. -/
  | stalledConstants
  /-- A position passed the end of the 32-bit range. -/
  | overflow
  /-- A node or symbol that does not exist. -/
  | outOfRange (size index : Nat)
  /-- A tree put together by hand that is no tree. -/
  | malformedTree (reason : String)
  /-- More nested requests between declarations than a finite answer can need. -/
  | endlessRequests
deriving DecidableEq, Repr

namespace Fault

/-- What a broken promise of the code is prefixed with. -/
def broken (promise : String) : String := "internal error: entered unreachable code: " ++ promise

def message : Fault → String
  | memberOutsideContainer =>
      broken "members can only be declared in types or the global container"
  | idleTracker => "add_dependency called on an empty constant tracker"
  | noLocalScope => broken "declared_locals_for_scope asked of a chain without a local scope"
  | whileWithoutLoop => broken "while statement without a loop frame"
  | labelWithoutScope => broken "label without a declaring scope"
  | localWithoutScope => broken "local declaration without a declaring scope"
  | functionWithoutScope => broken "local function without a declaring scope"
  | stalledConstants => broken "constant graph has no ready node and no cycle"
  | overflow => "attempt to add with overflow"
  | outOfRange size index =>
      s!"index out of bounds: the len is {size} but the index is {index}"
  | malformedTree reason => "builder produced a malformed tree: " ++ reason
  | endlessRequests => "requests between declarations do not come to an end"

/-- What only looks at a state faults like what changes it. -/
instance {σ : Type} : MonadLift (Except Fault) (EStateM Fault σ) where
  monadLift
    | .ok a => pure a
    | .error fault => throw fault

end Fault
end Bindery

import Bindery.Bound.Expression
import Bindery.Diagnostic

/-!
# Overload resolution

Which of several methods of one name a call means.

* A candidate is applicable when every argument has a parameter of its own (by name or by position)
  to which it converts implicitly, and every other parameter has a default value.
* Of the applicable candidates the one with the fewest conversions wins. Two that share the least
  number leave the call ambiguous.
* A single candidate reports why it is not applicable; of several, only the outcome is reported.
-/

namespace Bindery

structure CandidateParameter where
  name : String
  type : Ty
  /-- The default value, already of type `type`. -/
  defaultValue : Option Expr

/-- A method that a call may mean. -/
structure Candidate (α : Type) where
  overload : α
  name : String
  parameters : List CandidateParameter

/-- An argument of a call, in the order in which it is written. -/
structure Argument where
  name : Option String
  expression : Expr
  node : NodeId

/-- Why a candidate is not applicable. -/
inductive Mismatch where
  | wrongCount
  | noSuchParameter (argument : NodeId) (name : String)
  | alreadySpecified (argument : NodeId) (parameter : String)
  /-- The argument has a type that is only converted on request or not at all. -/
  | noImplicitConversion (argument : NodeId) (source target : String) (cast : Cast)

/-- Trying a candidate. -/
abbrev Attempt := ExceptT Mismatch (Except Fault)

inductive Resolution (α : Type) where
  | failed
  | ambiguous
  | succeeded (overload : α) (arguments : List Expr)

namespace Resolution

variable {α : Type}

def isSucceeded : Resolution α → Bool
  | succeeded .. => true
  | _ => false

def isAmbiguous : Resolution α → Bool
  | ambiguous => true
  | _ => false

def best? : Resolution α → Option α
  | succeeded overload _ => some overload
  | _ => none

/-- The arguments in the order of the parameters, converted and completed. -/
def arguments : Resolution α → List Expr
  | succeeded _ arguments => arguments
  | _ => []

end Resolution

namespace Candidate

variable {α : Type}

/-- Number of parameters without default value. -/
def requiredCount (c : Candidate α) : Nat :=
  (c.parameters.filter (·.defaultValue.isNone)).length

/-- Name and parameter types, in quotes. -/
def signatureText (c : Candidate α) (symbols : SymbolTable) : Except Fault String := do
  let types ← c.parameters.mapM fun parameter => parameter.type.display symbols
  return "'" ++ c.name ++ "(" ++ String.intercalate ", " types ++ ")'"

/-- The number of arguments that the candidate takes. -/
def expectedText (c : Candidate α) : String :=
  if c.requiredCount = c.parameters.length then toString c.parameters.length
  else toString c.requiredCount ++ " to " ++ toString c.parameters.length

/-- The slot of an argument at a position: that of the first parameter of its name, or that at its
position. -/
def slotOf (c : Candidate α) (argument : Argument) (position : Nat) : Except Mismatch Nat :=
  match argument.name with
  | none => .ok position
  | some name =>
    match c.parameters.findIdx? fun parameter => parameter.name = name with
    | some index => .ok index
    | none => .error (.noSuchParameter argument.node name)

/-- Put the arguments from `position` on into the slots of their parameters. -/
def fillSlots (c : Candidate α) : List Argument → Nat → List (Option Argument) →
    Except Mismatch (List (Option Argument))
  | [], _, slots => .ok slots
  | argument :: rest, position, slots => do
    let index ← c.slotOf argument position
    match slots[index]? with
    | some (some _) =>
      let name := ((c.parameters[index]?).map (·.name)).getD ""
      .error (.alreadySpecified argument.node name)
    | _ => fillSlots c rest (position + 1) (slots.set index (some argument))

/-- The expressions for the parameters and the number of conversions among them. -/
def passArguments (symbols : SymbolTable) :
    List (Option Argument × CandidateParameter) → Attempt (List Expr × Nat)
  | [] => return ([], 0)
  | (slot, parameter) :: rest => do
    let (expression, cost) ←
      match slot with
      | none =>
        match parameter.defaultValue with
        | some value => pure (value, 0)
        | none => throw .wrongCount
      | some argument => do
        let cast ← argument.expression.type.conversion symbols parameter.type
        if cast.isImplicit then
          pure (argument.expression.castTo parameter.type cast, if cast = .identity then 0 else 1)
        else
          let source ← argument.expression.type.display symbols
          let target ← parameter.type.display symbols
          throw (.noImplicitConversion argument.node source target cast)
    let (expressions, costs) ← passArguments symbols rest
    return (expression :: expressions, cost + costs)

/-- The arguments as the candidate takes them and the number of conversions, if it is applicable. -/
def apply (c : Candidate α) (symbols : SymbolTable) (arguments : List Argument) :
    Attempt (List Expr × Nat) := do
  if c.parameters.length < arguments.length || arguments.length < c.requiredCount then
    throw .wrongCount
  let slots ← ofExcept (c.fillSlots arguments 0 (c.parameters.map fun _ => none))
  passArguments symbols (slots.zip c.parameters)

/-- What is reported when the only candidate is not applicable: where, which message, about what. -/
def complaint (c : Candidate α) (argumentCount : Nat) (call : NodeId) :
    Mismatch → NodeId × Message × List String
  | .wrongCount => (call, .argumentCount, [c.name, c.expectedText, toString argumentCount])
  | .noSuchParameter argument name => (argument, .noSuchParameter, [c.name, name])
  | .alreadySpecified argument parameter => (argument, .parameterAlreadySpecified, [parameter])
  | .noImplicitConversion argument source target cast =>
    (argument, if cast.isPossible then .onlyExplicitConversion else .noConversion,
      [source, target])

end Candidate

/-- An applicable candidate with its arguments and the number of conversions. -/
structure Applicable (α : Type) where
  candidate : Candidate α
  arguments : List Expr
  cost : Nat

namespace Resolution

variable {α : Type}

def applicable (symbols : SymbolTable) (candidates : List (Candidate α))
    (arguments : List Argument) : Except Fault (List (Applicable α)) :=
  candidates.filterMapM fun candidate => do
    match ← (candidate.apply symbols arguments).run with
    | .ok (arguments, cost) => return some ⟨candidate, arguments, cost⟩
    | .error _ => return none

/-- The applicable candidates with the fewest conversions. -/
def cheapest (list : List (Applicable α)) : List (Applicable α) :=
  list.filter fun a => list.all fun b => a.cost ≤ b.cost

/-- Resolve a call, with what there is to report. -/
def resolve (tree : Tree) (symbols : SymbolTable) (candidates : List (Candidate α))
    (arguments : List Argument) (call : NodeId) :
    Except Fault (Resolution α × List Diagnostic) := do
  let diagnostic (complaint : NodeId × Message × List String) : Except Fault Diagnostic := do
    return .placed tree.fileName (← tree.span complaint.1) complaint.2.1 complaint.2.2
  match candidates with
  | [] => return (failed, [])
  | [candidate] =>
    match ← (candidate.apply symbols arguments).run with
    | .ok (arguments, _) => return (succeeded candidate.overload arguments, [])
    | .error mismatch =>
      return (failed, [← diagnostic (candidate.complaint arguments.length call mismatch)])
  | first :: _ =>
    match cheapest (← applicable symbols candidates arguments) with
    | [] => return (failed, [← diagnostic (call, .noOverload, [first.name])])
    | [best] => return (succeeded best.candidate.overload best.arguments, [])
    | tied =>
      let names ← tied.mapM fun a => a.candidate.signatureText symbols
      return (ambiguous,
        [← diagnostic (call, .ambiguousOverload, [String.intercalate " and " names])])

end Resolution
end Bindery

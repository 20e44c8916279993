import Bindery.Binding.Basic

/-!
# Requests to other declarations

While the syntax of one declaration is bound, facts about other declarations may be needed. Such a
request leaves the syntax at hand, so it goes to an `Asker`, which answers it: from what has been
published, or by binding the other declaration.
-/

namespace Bindery

inductive Request where
  | signature (method : SymbolId)
  /-- `beingBound` lists the fields whose types are being inferred, newest first. -/
  | fieldType (field : SymbolId) (beingBound : List SymbolId)
  /-- The constant as seen while another one is computed under `tracker`. -/
  | fieldConstant (field : SymbolId) (tracker : Option Tracker)
  /-- The type of the constants that a template parameter stands for. -/
  | constantParameterType (parameter : SymbolId)
  /-- The signature of a local function, bound in the scope of its declaration. -/
  | functionSignature (scope : Chain) (function : LocalFunction)

abbrev Request.Answer : Request → Type
  | .signature _ => Evaluated Signature
  | .fieldType _ _ => Evaluated Ty
  | .fieldConstant _ _ => Option (Evaluated FieldConstant)
  | .constantParameterType _ => Option Ty
  | .functionSignature _ _ => Signature

abbrev Asker := (request : Request) → BindM request.Answer

end Bindery

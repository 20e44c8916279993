import Bindery.Compilation
import Bindery.Report.Bound

/-!
# Reports of scopes

A chain of scopes is reported by its frames and by what it says about its surroundings, and a bound
submission by everything that was bound in it.
-/

namespace Bindery

def Member.toJson : Member → Json
  | .symbol id => .obj [("symbol", .nat id)]
  | .function f => .obj [("function", .nat f.declaration)]

def Lookup.toJson : Lookup → Json
  | .empty => .strs ["empty"]
  | .localVariable l => .array [.str "local", .nat l.declaration]
  | .declaredLater l => .array [.str "declaredLater", .nat l.declaration]
  | .localFunction f => .array [.str "localFunction", .nat f.declaration]
  | .parameter id => .array [.str "parameter", .nat id]
  | .templateParameter id => .array [.str "templateParameter", .nat id]
  | .symbols ids => .array [.str "symbols", .nats ids]

/-- The kinds of the frames with their flags, the innermost first. -/
def Chain.frames (chain : Chain) : Json :=
  .array (chain.map fun frame => .array [.str frame.kind.label, .nat frame.flags.bits])

/-- The report of a chain. The locals of its scope are given by the caller, since a chain without a
scope for locals has none to report. -/
def Chain.report (p : Program) (f : Findings) (locals : Json) (chain : Chain) :
    Except Fault Json := do
  let tracker := chain.tracker?
  return .obj [
    ("frames", chain.frames), ("member", .option Member.toJson chain.containingMember?),
    ("method", .option Member.toJson chain.method?),
    ("type", .option .nat (← chain.containingType? p)), ("fields", .nats chain.fieldsBeingBound),
    ("localInProgress", .option .nat (chain.localInProgress?.map (·.declaration))),
    ("break", .option Label.toJson chain.breakLabel?),
    ("continue", .option Label.toJson chain.continueLabel?),
    ("receiver", Expr.optionToJson chain.conditionalReceiver?),
    ("tracker", .array [.option .nat (tracker.map (·.field)),
      .nats (f.ledgers.dependencies tracker), .bool tracker.isNone]),
    ("unbound", .bool chain.allowsUnboundType), ("locals", locals)]

namespace Submission

variable (s : Submission) (f : Findings)

/-- The constants of the constant fields; one that was never computed has none. -/
def constantsReport : Json :=
  .array (s.scope.program.symbols.constantFields.map fun field =>
    .array [.nat field, .option (fun e => e.value.toJson) (f.constants.get? field)])

def codeReport : List (String × Json) := [
  ("bodies", .array (s.scope.bodies.map fun (method, block) =>
    .array [.nat method, f.blockReport block])),
  ("initializers", .array (s.scope.initializers.map fun (field, value) =>
    .array [.nat field, value.toJson])),
  ("statements", .array (f.statementReports s.scope.statements))]

/-- What a submission declares and what was reported about it. -/
def summary : List (String × Json) :=
  let scope := s.scope
  [ ("diagnostics", scope.diagnostics.toJson), ("errors", .nat scope.diagnostics.errorCount),
    ("entry", .option .nat scope.entryPoint), ("methods", .nats scope.methods),
    ("variables", .nats scope.fields), ("types", .nats scope.types),
    ("libraryTypes", .array (scope.libraryTypes.map fun (name, symbol) =>
      .array [.str name, .nat symbol])),
    ("history", .strs (s.history.map (·.fileName))), ("constants", s.constantsReport f),
    ("bodyCount", .nat scope.bodies.length),
    ("entryStatements",
      .option .nat ((scope.entryPoint.bind scope.body?).map (·.statements.length)))]

end Submission
end Bindery

import Bindery.Binding.Basic
import Bindery.Report.Value

/-!
# Reports of bound code

Expressions and statements become nested objects: `e` names the kind of an expression and `s` that
of a statement. A local or a local function is reported with what the findings say about it.
-/

namespace Bindery

def Label.toJson (l : Label) : Json :=
  let kind :=
    match l.kind with
    | .declared => "declared"
    | .breakTarget => "break"
    | .continueTarget => "continue"
  .array [.str l.name, .nat l.declaration, .str kind]

def Signature.toJson (s : Signature) : Json :=
  .obj [("parameters", .array (s.parameters.map Ty.toJson)), ("returns", s.returnType.toJson)]

def FieldConstant.toJson : FieldConstant → Json
  | .value c => c.toJson
  | .bad => .str "bad"

def Evaluated.report {α : Type} (encode : α → Json) (e : Evaluated α) : Json :=
  .obj [("value", encode e.value), ("diagnostics", e.diagnostics.toJson)]

/-- The constant of a field, and whether it is bad. -/
def Evaluated.constantReport (e : Evaluated FieldConstant) : Json :=
  .obj [("value", e.value.toJson), ("diagnostics", e.diagnostics.toJson),
    ("bad", .bool e.value.isBad)]

def ExprKind.tag : ExprKind → String
  | .literal => "literal"
  | .localVariable _ => "local"
  | .parameter _ => "parameter"
  | .field .. => "field"
  | .methods .. => "methodGroup"
  | .localFunction _ => "localFunctionGroup"
  | .type => "type"
  | .call .. => "call"
  | .localCall .. => "localFunctionCall"
  | .cast .. => "cast"
  | .assignment .. => "assignment"
  | .binary .. => "binary"
  | .unary .. => "unary"
  | .conditionalAccess .. => "conditionalAccess"
  | .conditionalReceiver => "conditionalReceiver"
  | .typeOf _ => "typeOf"
  | .templateValue _ => "templateParameterValue"
  | .error => "error"

mutual

def Expr.toJson : Expr → Json
  | .mk kind type constant node =>
    .obj ([("e", .str kind.tag), ("at", .nat node), ("type", type.toJson),
      ("constant", .option Constant.toJson constant)] ++ kind.parts)

/-- What belongs to this kind of expression alone. -/
def ExprKind.parts : ExprKind → List (String × Json)
  | .localVariable l => [("name", .str l.name), ("decl", .nat l.declaration)]
  | .parameter symbol | .templateValue symbol => [("symbol", .nat symbol)]
  | .field receiver symbol => [("receiver", Expr.optionToJson receiver), ("symbol", .nat symbol)]
  | .methods receiver symbols =>
    [("receiver", Expr.optionToJson receiver), ("symbols", .nats symbols)]
  | .localFunction function => [("function", .nat function.declaration)]
  | .call receiver symbol arguments =>
    [("receiver", Expr.optionToJson receiver), ("symbol", .nat symbol),
      ("arguments", .array (Expr.listToJson arguments))]
  | .localCall function arguments =>
    [("function", .nat function.declaration), ("arguments", .array (Expr.listToJson arguments))]
  | .cast operand cast => [("operand", operand.toJson), ("cast", .str cast.name)]
  | .assignment operator left right =>
    [("operator", .option (fun op => .str op.text) operator), ("left", left.toJson),
      ("right", right.toJson)]
  | .binary operator left right =>
    [("operator", .str operator.text), ("left", left.toJson), ("right", right.toJson)]
  | .unary operator operand => [("operator", .str operator.text), ("operand", operand.toJson)]
  | .conditionalAccess receiver access =>
    [("receiver", receiver.toJson), ("access", access.toJson)]
  | .typeOf operand => [("operand", operand.toJson)]
  | .literal | .type | .conditionalReceiver | .error => []

def Expr.optionToJson : Option Expr → Json
  | none => .null
  | some e => e.toJson

def Expr.listToJson : List Expr → List Json
  | [] => []
  | e :: rest => e.toJson :: Expr.listToJson rest

end

namespace Findings

variable (f : Findings)

def localReport (l : Local) : Json :=
  .obj [
    ("name", .str l.name), ("decl", .nat l.declaration), ("typeSyntax", .option .nat l.type),
    ("isConstant", .bool l.isConstant),
    ("kind", .str (if l.kind = .parameter then "parameter" else "variable")),
    ("type", .option Ty.toJson (f.localType? l)),
    ("constant", .option Constant.toJson (f.localConstant? l))]

def functionReport (l : LocalFunction) : Json :=
  .obj [
    ("name", .str l.name), ("decl", .nat l.declaration),
    ("parameters", .array (l.parameters.map f.localReport)),
    ("returnTypeSyntax", .option .nat l.returnType), ("body", .nat l.body),
    ("signature", .option Signature.toJson (f.functionSignature? l)),
    ("defaults", .option (fun defaults => .array (defaults.map Expr.optionToJson))
      (f.functionDefaults? l))]

mutual

def statementReport : Statement → Json
  | .block statements locals =>
    .obj [("s", .str "block"),
      ("block", .obj [("statements", .array (statementReports statements)),
        ("locals", .array (locals.map f.localReport))])]
  | .localDeclaration l initializer =>
    .obj [("s", .str "localDeclaration"), ("local", f.localReport l),
      ("initializer", Expr.optionToJson initializer)]
  | .localFunction function statements locals =>
    .obj [("s", .str "localFunction"), ("function", f.functionReport function),
      ("block", .obj [("statements", .array (statementReports statements)),
        ("locals", .array (locals.map f.localReport))])]
  | .expression e => .obj [("s", .str "expression"), ("expression", e.toJson)]
  | .ifElse condition thenStatement elseStatement =>
    .obj [("s", .str "if"), ("condition", condition.toJson),
      ("then", statementReport thenStatement), ("else", statementReport? elseStatement)]
  | .whileLoop condition body breakLabel continueLabel =>
    .obj [("s", .str "while"), ("condition", condition.toJson), ("body", statementReport body),
      ("break", breakLabel.toJson), ("continue", continueLabel.toJson)]
  | .breakTo label => .obj [("s", .str "break"), ("label", label.toJson)]
  | .continueTo label => .obj [("s", .str "continue"), ("label", label.toJson)]
  | .returnValue e => .obj [("s", .str "return"), ("expression", Expr.optionToJson e)]
  | .tryCatch body catchBody finallyBody =>
    .obj [("s", .str "try"), ("body", statementReport body),
      ("catch", statementReport? catchBody), ("finally", statementReport? finallyBody)]
  | .labeled label statement =>
    .obj [("s", .str "label"), ("label", label.toJson), ("statement", statementReport statement)]
  | .goto label => .obj [("s", .str "goto"), ("label", label.toJson)]
  | .error node => .obj [("s", .str "error"), ("at", .nat node)]

def statementReport? : Option Statement → Json
  | none => .null
  | some s => statementReport s

def statementReports : List Statement → List Json
  | [] => []
  | s :: rest => statementReport s :: statementReports rest

end

def blockReport (b : Block) : Json :=
  .obj [("statements", .array (f.statementReports b.statements)),
    ("locals", .array (b.locals.map f.localReport))]

end Findings
end Bindery

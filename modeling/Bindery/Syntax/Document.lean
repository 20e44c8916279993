import Bindery.Json.Printer
import Bindery.Syntax.Node

/-!
# Tree documents

A document is a file name and a list of nodes, written in JSON.

* A node is an object with its kind and its fields in any order, or an array of its kind and then
  its fields in the order of `fieldNames`. A field with a default may be missing; fields that are
  not known are ignored, and a known one must not repeat.
* A choice from a list of names (an operator, the type of a literal) is a name, or an object whose
  only member has that name and no content.
* A literal is an object with a type and a value, or an array of the two. In the array the type is a
  name or its place in `literalTypes`.
* Everything inside a node has to be sound, and nesting deeper than `maxDepth` is refused.
-/

namespace Bindery

structure Document where
  fileName : String
  nodes : List Node
deriving DecidableEq, Repr

namespace Document

abbrev Fields := List (Json.Text × Json)

/-- A field that has to be present. -/
def required {α : Type} (read : Json → Option α) (name : String) (fields : Fields) : Option α :=
  match Json.valuesOf fields name with
  | [value] => read value
  | _ => none

/-- A field with a default. -/
def optional {α : Type} (default : α) (read : Json → Option α) (name : String)
    (fields : Fields) : Option α :=
  match Json.valuesOf fields name with
  | [] => some default
  | [value] => read value
  | _ => none

/-! ### Scalars -/

def nodeId? (value : Json) : Option NodeId := do
  let n ← value.int?
  if 0 ≤ n && n < UInt32.size then some n.toNat else none

def nodeIds? (value : Json) : Option (List NodeId) := do
  let items ← value.array?
  items.mapM nodeId?

def modifiers? (value : Json) : Option Modifiers := do
  let text ← value.string?
  Modifiers.read? text

def choice? : Json → Option String
  | .string name => name
  | .object [(name, .null)] | .object [(name, .object [])] => name
  | _ => none

def binaryOp? (value : Json) : Option BinaryOp := do
  let name ← choice? value
  BinaryOp.ofName? name

def unaryOp? (value : Json) : Option UnaryOp := do
  let name ← choice? value
  UnaryOp.ofName? name

/-! ### Literals -/

def decimal? : Json → Option Decimal
  | .number n => if n.toDecimal.isFinite then some n.toDecimal else none
  | _ => none

def char? (value : Json) : Option Char := do
  let text ← value.string?
  match text.toList with
  | [c] => some c
  | _ => none

def int? (value : Json) : Option Int := do
  let n ← value.int?
  if fitsInt n then some n else none

def literalTypes : List String := ["null", "bool", "int", "decimal", "char", "string"]

/-- The type of a literal that is written as an array. -/
def arrayType? : Json → Option String
  | .string name => name
  | value => do
    let place ← value.int?
    if place < 0 then none else literalTypes[place.toNat]?

/-- A literal from the name of its type and its value. -/
def literalOf? (type : String) (value : Option Json) : Option Literal :=
  match type, value with
  | "null", none | "null", some .null => some .null
  | "bool", some value => value.bool?.map .bool
  | "int", some value => (int? value).map .int
  | "decimal", some value => (decimal? value).map .decimal
  | "char", some value => (char? value).map .char
  | "string", some value => value.string?.map .string
  | _, _ => none

def literal? : Json → Option Literal
  | .object fields => do
    let type ← required choice? "type" fields
    let value ← optional none (fun value => some (some value)) "value" fields
    literalOf? type value
  | .array [type, value] => do
    let type ← arrayType? type
    literalOf? type (some value)
  | _ => none

/-! ### Nodes -/

/-- The kinds of nodes with the names of their fields. -/
def fieldNames : List (String × List String) := [
  ("compilationUnit", ["members"]),
  ("classDeclaration", ["name", "modifiers", "templateParameters", "base", "members"]),
  ("templateParameter", ["name", "constantType"]),
  ("methodDeclaration", ["name", "modifiers", "returnType", "parameters", "body"]),
  ("parameter", ["name", "ty", "defaultValue"]),
  ("fieldDeclaration", ["name", "modifiers", "ty", "initializer"]),
  ("globalStatement", ["statement"]),
  ("typeName", ["name", "templateArguments", "isUnbound"]),
  ("nullableType", ["element"]),
  ("block", ["statements"]),
  ("localDeclaration", ["name", "ty", "isConstant", "initializer"]),
  ("localFunction", ["name", "returnType", "parameters", "body"]),
  ("expressionStatement", ["expression"]),
  ("if", ["condition", "thenStatement", "elseStatement"]),
  ("while", ["condition", "body"]),
  ("break", []),
  ("continue", []),
  ("return", ["expression"]),
  ("try", ["body", "catchBody", "finallyBody"]),
  ("labeled", ["label", "statement"]),
  ("goto", ["label"]),
  ("literal", ["value"]),
  ("name", ["name"]),
  ("call", ["callee", "arguments"]),
  ("argument", ["name", "expression"]),
  ("memberAccess", ["receiver", "name"]),
  ("conditionalAccess", ["receiver", "access"]),
  ("memberBinding", ["name"]),
  ("assignment", ["operator", "left", "right"]),
  ("binary", ["operator", "left", "right"]),
  ("unary", ["operator", "operand"]),
  ("cast", ["ty", "expression"]),
  ("typeOf", ["ty"])]

/-- A node from its kind and its fields. -/
def nodeOf? (kind : String) (fields : Fields) : Option Node :=
  let text (name : String) := required Json.string? name fields
  let node (name : String) := required nodeId? name fields
  let nodes (name : String) := required nodeIds? name fields
  let node? (name : String) := optional none (Json.orNull? nodeId?) name fields
  let modifiers := optional Modifiers.none modifiers? "modifiers" fields
  let flag (name : String) := optional false Json.bool? name fields
  match kind with
  | "compilationUnit" => return .compilationUnit (← nodes "members")
  | "classDeclaration" =>
    return .classDeclaration (← text "name") (← modifiers)
      (← optional [] nodeIds? "templateParameters" fields) (← node? "base") (← nodes "members")
  | "templateParameter" => return .templateParameter (← text "name") (← node? "constantType")
  | "methodDeclaration" =>
    return .methodDeclaration (← text "name") (← modifiers) (← node? "returnType")
      (← nodes "parameters") (← node "body")
  | "parameter" => return .parameter (← text "name") (← node "ty") (← node? "defaultValue")
  | "fieldDeclaration" =>
    return .fieldDeclaration (← text "name") (← modifiers) (← node? "ty") (← node? "initializer")
  | "globalStatement" => return .globalStatement (← node "statement")
  | "typeName" =>
    return .typeName (← text "name") (← optional [] nodeIds? "templateArguments" fields)
      (← flag "isUnbound")
  | "nullableType" => return .nullableType (← node "element")
  | "block" => return .block (← nodes "statements")
  | "localDeclaration" =>
    return .localDeclaration (← text "name") (← node? "ty") (← flag "isConstant")
      (← node? "initializer")
  | "localFunction" =>
    return .localFunction (← text "name") (← node? "returnType") (← nodes "parameters")
      (← node "body")
  | "expressionStatement" => return .expressionStatement (← node "expression")
  | "if" =>
    return .ifStatement (← node "condition") (← node "thenStatement") (← node? "elseStatement")
  | "while" => return .whileStatement (← node "condition") (← node "body")
  | "break" => some .breakStatement
  | "continue" => some .continueStatement
  | "return" => return .returnStatement (← node? "expression")
  | "try" => return .tryStatement (← node "body") (← node? "catchBody") (← node? "finallyBody")
  | "labeled" => return .labeled (← text "label") (← node "statement")
  | "goto" => return .goto (← text "label")
  | "literal" => return .literal (← required literal? "value" fields)
  | "name" => return .identifier (← text "name")
  | "call" => return .call (← node "callee") (← nodes "arguments")
  | "argument" =>
    return .argument (← optional none (Json.orNull? Json.string?) "name" fields)
      (← node "expression")
  | "memberAccess" => return .memberAccess (← node "receiver") (← text "name")
  | "conditionalAccess" => return .conditionalAccess (← node "receiver") (← node "access")
  | "memberBinding" => return .memberBinding (← text "name")
  | "assignment" =>
    return .assignment (← optional none (Json.orNull? binaryOp?) "operator" fields)
      (← node "left") (← node "right")
  | "binary" =>
    return .binary (← required binaryOp? "operator" fields) (← node "left") (← node "right")
  | "unary" => return .unary (← required unaryOp? "operator" fields) (← node "operand")
  | "cast" => return .cast (← node "ty") (← node "expression")
  | "typeOf" => return .typeOf (← node "ty")
  | _ => none

/-- Levels of arrays and objects that a node may have. -/
def maxDepth : Nat := 125

def node? (value : Json) : Option Node :=
  if !value.isSound || maxDepth < value.depth then none
  else
    match value with
    | .object fields => do
      let kind ← required Json.string? "kind" fields
      nodeOf? kind fields
    | .array (kind :: values) => do
      let kind ← kind.string?
      let (_, names) ← fieldNames.find? fun entry => entry.1 = kind
      if names.length < values.length then none
      else nodeOf? kind ((names.map some).zip values)
    | _ => none

/-! ### Documents -/

def ofParts? (fileName nodes : Json) : Option Document := do
  let fileName ← fileName.string?
  let nodes ← nodes.array?
  return ⟨fileName, ← nodes.mapM node?⟩

def ofJson? : Json → Option Document
  | .object fields => do
    if !fields.all fun field => field.1.isSome then none
    else
      let fileName ← required some "fileName" fields
      let nodes ← required some "nodes" fields
      ofParts? fileName nodes
  | .array [fileName, nodes] => ofParts? fileName nodes
  | _ => none

def read? (text : String) : Option Document := do
  let value ← Json.parse? text
  ofJson? value

/-! ### Writing -/

/-- A decimal that is not finite has no number and is written as `null`. -/
def literalJson : Literal → Json
  | .null => .obj [("type", .str "null")]
  | .bool value => .obj [("type", .str "bool"), ("value", .bool value)]
  | .int value => .obj [("type", .str "int"), ("value", .int value)]
  | .decimal value =>
    .obj [("type", .str "decimal"),
      ("value", if value.isFinite then .number (.ofDecimal value) else .null)]
  | .char value => .obj [("type", .str "char"), ("value", .str (String.ofList [value]))]
  | .string value => .obj [("type", .str "string"), ("value", .str value)]

/-- The kind of a node and the fields that are written for it, where `literal` writes literals. -/
def nodeParts (literal : Literal → Json) (node : Node) : String × List (String × Json) :=
  let one (id : NodeId) : Json := .nat id
  let maybe (id : Option NodeId) : Json := .option .nat id
  let many (ids : List NodeId) : Json := .nats ids
  match node with
  | .compilationUnit members => ("compilationUnit", [("members", many members)])
  | .classDeclaration name modifiers templateParameters base members =>
    ("classDeclaration", [("name", .str name), ("modifiers", .str modifiers.text),
      ("templateParameters", many templateParameters), ("base", maybe base),
      ("members", many members)])
  | .templateParameter name constantType =>
    ("templateParameter", [("name", .str name), ("constantType", maybe constantType)])
  | .methodDeclaration name modifiers returnType parameters body =>
    ("methodDeclaration", [("name", .str name), ("modifiers", .str modifiers.text),
      ("returnType", maybe returnType), ("parameters", many parameters), ("body", one body)])
  | .parameter name type defaultValue =>
    ("parameter", [("name", .str name), ("ty", one type), ("defaultValue", maybe defaultValue)])
  | .fieldDeclaration name modifiers type initializer =>
    ("fieldDeclaration", [("name", .str name), ("modifiers", .str modifiers.text),
      ("ty", maybe type), ("initializer", maybe initializer)])
  | .globalStatement statement => ("globalStatement", [("statement", one statement)])
  | .typeName name templateArguments isUnbound =>
    ("typeName", [("name", .str name), ("templateArguments", many templateArguments),
      ("isUnbound", .bool isUnbound)])
  | .nullableType element => ("nullableType", [("element", one element)])
  | .block statements => ("block", [("statements", many statements)])
  | .localDeclaration name type isConstant initializer =>
    ("localDeclaration", [("name", .str name), ("ty", maybe type),
      ("isConstant", .bool isConstant), ("initializer", maybe initializer)])
  | .localFunction name returnType parameters body =>
    ("localFunction", [("name", .str name), ("returnType", maybe returnType),
      ("parameters", many parameters), ("body", one body)])
  | .expressionStatement expression => ("expressionStatement", [("expression", one expression)])
  | .ifStatement condition thenStatement elseStatement =>
    ("if", [("condition", one condition), ("thenStatement", one thenStatement),
      ("elseStatement", maybe elseStatement)])
  | .whileStatement condition body => ("while", [("condition", one condition), ("body", one body)])
  | .breakStatement => ("break", [])
  | .continueStatement => ("continue", [])
  | .returnStatement expression => ("return", [("expression", maybe expression)])
  | .tryStatement body catchBody finallyBody =>
    ("try", [("body", one body), ("catchBody", maybe catchBody),
      ("finallyBody", maybe finallyBody)])
  | .labeled label statement => ("labeled", [("label", .str label), ("statement", one statement)])
  | .goto label => ("goto", [("label", .str label)])
  | .literal value => ("literal", [("value", literal value)])
  | .identifier name => ("name", [("name", .str name)])
  | .call callee arguments => ("call", [("callee", one callee), ("arguments", many arguments)])
  | .argument name expression =>
    ("argument", [("name", .option .str name), ("expression", one expression)])
  | .memberAccess receiver name =>
    ("memberAccess", [("receiver", one receiver), ("name", .str name)])
  | .conditionalAccess receiver access =>
    ("conditionalAccess", [("receiver", one receiver), ("access", one access)])
  | .memberBinding name => ("memberBinding", [("name", .str name)])
  | .assignment operator left right =>
    ("assignment", [("operator", .option (fun op => .str op.name) operator), ("left", one left),
      ("right", one right)])
  | .binary operator left right =>
    ("binary", [("operator", .str operator.name), ("left", one left), ("right", one right)])
  | .unary operator operand =>
    ("unary", [("operator", .str operator.name), ("operand", one operand)])
  | .cast type expression => ("cast", [("ty", one type), ("expression", one expression)])
  | .typeOf type => ("typeOf", [("ty", one type)])

def nodeJson (literal : Literal → Json) (node : Node) : Json :=
  let (kind, fields) := nodeParts literal node
  .obj (("kind", .str kind) :: fields)

/-- The document in JSON, where `literal` writes literals. -/
def toJsonWith (literal : Literal → Json) (d : Document) : Json :=
  .obj [("fileName", .str d.fileName), ("nodes", .array (d.nodes.map (nodeJson literal)))]

def write (d : Document) : String := (d.toJsonWith literalJson).render

end Document
end Bindery

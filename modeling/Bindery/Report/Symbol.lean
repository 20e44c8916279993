import Bindery.Symbol.Table

/-!
# Reports of symbols

Symbols and nodes are reported by their numbers.
-/

namespace Bindery

/-- What a symbol of this kind holds. -/
def SymbolKind.toJson : SymbolKind → Json
  | .global members => .obj [("members", .nats members)]
  | .type d => .obj [
      ("templateParameters", .nats d.templateParameters), ("baseSyntax", .option .nat d.baseNode),
      ("base", .option .nat d.base), ("members", .nats d.members), ("isLibrary", .bool d.isLibrary)]
  | .method d => .obj [
      ("parameters", .nats d.parameters), ("returnType", .option .nat d.returnType),
      ("body", .option .nat d.body), ("isStatic", .bool d.isStatic),
      ("isLowLevel", .bool d.isLowLevel), ("isEntry", .bool d.isEntry)]
  | .field d => .obj [
      ("typeSyntax", .option .nat d.type), ("initializer", .option .nat d.initializer),
      ("isConstant", .bool d.isConstant), ("isStatic", .bool d.isStatic)]
  | .parameter d => .obj [
      ("typeSyntax", .nat d.type), ("defaultValue", .option .nat d.defaultValue),
      ("ordinal", .nat d.ordinal)]
  | .templateParameter d => .obj [
      ("constantType", .option .nat d.constantType), ("ordinal", .nat d.ordinal)]

def Symbol.report (t : SymbolTable) (s : Symbol) : Except Fault Json := do
  return .obj [
    ("id", .nat s.id), ("name", .str s.name), ("qualified", .str (← t.qualifiedName s.id)),
    ("kind", .str s.kind.label), ("access", .str s.access.text),
    ("containing", .option .nat s.containing), ("declaration", .option .nat s.declaration),
    ("data", s.kind.toJson)]

def SymbolTable.report (t : SymbolTable) : Except Fault Json :=
  return .array (← t.symbols.toList.mapM (Symbol.report t))

end Bindery

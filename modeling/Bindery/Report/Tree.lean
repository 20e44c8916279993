import Bindery.Report.Value
import Bindery.Syntax.Tree

/-!
# Reports of trees

Each node with its place in the tree, and the document that the tree is written as.
-/

namespace Bindery

/-- A literal whose number is a text; a decimal that is not finite has none. -/
def Literal.report : Literal → Json
  | .int v => .obj [("type", .str "int"), ("value", .str (toString v))]
  | .decimal v =>
    .obj [("type", .str "decimal"), ("value", if v.isFinite then .str v.bitsText else .null)]
  | literal => Document.literalJson literal

namespace Tree

def nodeReport (t : Tree) (id : NodeId) (node : Node) : Except Fault Json :=
  return .obj [
    ("label", .str node.label), ("span", (← t.span id).toJson),
    ("parent", .option .nat (t.parent? id)), ("children", .nats node.children),
    ("name", .option .str node.declaredName?), ("text", .str (t.textOf id)),
    ("class", .array [.bool node.isType, .bool node.isStatement, .bool node.isExpression]),
    ("depth", .nat (t.ancestorsAndSelf id).length)]

/-- Whether the tree can be read back from its document with as many nodes. -/
def reloads (t : Tree) : Bool :=
  match read t.toDocument.write with
  | .ok reloaded => reloaded.size == t.size
  | .error _ => false

/-- The report of a tree, with the answers to questions whether one node is within another. -/
def report (t : Tree) (within : List (NodeId × NodeId)) : Except Fault Json := do
  let nodes ← t.nodes.toList.zipIdx.mapM fun (node, id) => t.nodeReport id node
  let within ← within.mapM fun (node, ancestor) => Json.bool <$> t.isWithin node ancestor
  return .obj [
    ("file", .str t.fileName), ("root", .nat t.root), ("empty", .bool (t.size == 0)),
    ("members", .nats t.members), ("nodes", .array nodes), ("within", .array within),
    ("document", t.toDocument.toJsonWith Literal.report), ("reloads", .bool t.reloads)]

end Tree
end Bindery

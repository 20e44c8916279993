import Bindery.Scope.Frame

/-!
# Scopes inside a region of code

The statements of a region open scopes of their own: blocks, loops, the parts of a `try` statement,
local functions, and declarations that stand alone where one statement is expected, such as the
branch of an `if`. `Chain.scopes` lists the chain of every node that has one, outer nodes first;
`Chain.inner?` finds the chain of a node from any chain inside or above the region.
-/

namespace Bindery
namespace Chain

variable (p : Program) (store : Nat)

mutual

/-- The scopes of a block and of what lies in it. -/
def blockScopes (chain : Chain) (node : NodeId) : List (NodeId × Chain) :=
  let scope := chain.push (.localScope node store) {}
  (node, scope) ::
    match _h : p.tree.node? node with
    | some (.block statements) =>
      statements.attach.flatMap fun ⟨statement, _⟩ => statementScopes scope statement
    | _ => []
termination_by (node, 0)
decreasing_by
  apply Prod.Lex.left
  apply p.tree.child_lt _h
  simp_all

/-- The scopes of a statement in a list of statements. -/
def statementScopes (chain : Chain) (node : NodeId) : List (NodeId × Chain) :=
  match _h : p.tree.node? node with
  | some (.block _) => blockScopes chain node
  | some (.localFunction _ _ parameters body) =>
    match LocalFunction.ofNode? p.tree store node with
    | none => []
    | some function =>
      let frame := chain.push (.inMethod (.function function)) {}
      parameters.map (·, frame) ++ childScopes frame body
  | some (.whileStatement _ body) =>
    let frame := chain.push (.loop node) {}
    (node, frame) :: childScopes frame body
  | some (.ifStatement _ thenStatement elseStatement) =>
    embeddedScopes chain thenStatement ++
      elseStatement.toList.attach.flatMap fun ⟨statement, _⟩ => embeddedScopes chain statement
  | some (.tryStatement body catchBody finallyBody) =>
    let inFinally : Flags :=
      { inFinally := true, inNestedFinally := (flags chain).inFinally }
    childScopes (chain.push (.plain (some body)) { inTry := true }) body ++
      (catchBody.toList.attach.flatMap fun ⟨clause, _⟩ =>
        childScopes (chain.push (.plain (some clause)) { inCatch := true }) clause) ++
      finallyBody.toList.attach.flatMap fun ⟨clause, _⟩ =>
        childScopes (chain.push (.plain (some clause)) inFinally) clause
  | some (.labeled _ statement) => statementScopes chain statement
  | _ => []
termination_by (node, 1)
decreasing_by
  all_goals first
    | (apply Prod.Lex.right; decide)
    | (apply Prod.Lex.left
       apply p.tree.child_lt _h
       simp_all)

/-- The scopes of a statement that stands alone; a declaration there has a scope to itself. -/
def embeddedScopes (chain : Chain) (node : NodeId) : List (NodeId × Chain) :=
  match p.tree.node? node with
  | some (.localDeclaration ..) | some (.localFunction ..) | some (.labeled ..) =>
    let scope := chain.push (.localScope node store) {}
    (node, scope) :: statementScopes scope node
  | _ => statementScopes chain node
termination_by (node, 2)
decreasing_by all_goals (apply Prod.Lex.right; decide)

/-- The scopes of a statement that stands alone, which has the chain around it if it opens none. -/
def childScopes (chain : Chain) (node : NodeId) : List (NodeId × Chain) :=
  embeddedScopes chain node ++ [(node, chain)]
termination_by (node, 3)
decreasing_by (apply Prod.Lex.right; decide)

end

/-- The scopes of a region whose code is `root`. Expressions open none. -/
def rootScopes (region : Chain) (root : NodeId) : Except Fault (List (NodeId × Chain)) := do
  match ← p.tree.fetch root with
  | .compilationUnit members =>
    let scope := region.push (.localScope root store) {}
    return (root, scope) ::
      (p.tree.globalStatementsOf members).flatMap (statementScopes p store scope)
  | .block _ => return blockScopes p store region root
  | node => return if node.isStatement then childScopes p store region root else []

/-- The chain of a node in the nearest region of code that has one for it. -/
def inner? (chain : Chain) (node : NodeId) : Except Fault (Option Chain) := do
  match chain with
  | [] => return none
  | frame :: rest =>
    match frame.kind with
    | .code root _ store =>
      let scopes ← rootScopes p store (frame :: rest) root
      match scopes.find? fun scope => scope.1 = node with
      | some scope => return some scope.2
      | none => inner? rest node
    | _ => inner? rest node

/-- The chain of a node, or the given one if the node has none of its own. -/
def innerOrSelf (chain : Chain) (node : NodeId) : Except Fault Chain :=
  (·.getD chain) <$> inner? p chain node

/-- The chain of the nearest node around `node` that has one. -/
def enclosing (chain : Chain) (node : NodeId) : Except Fault Chain := do
  return (← (← p.tree.pathToRoot node).findSomeM? (inner? p chain)).getD chain

end Chain
end Bindery

import Bindery.Bound.Expression

/-!
# Bound statements

A block carries the locals that its scope declares. The error statement stands where an error has
been reported.
-/

namespace Bindery

inductive Statement where
  | block (statements : List Statement) (locals : List Local)
  | localDeclaration (target : Local) (initializer : Option Expr)
  | localFunction (function : LocalFunction) (statements : List Statement) (locals : List Local)
  | expression (expression : Expr)
  | ifElse (condition : Expr) (thenStatement : Statement) (elseStatement : Option Statement)
  | whileLoop (condition : Expr) (body : Statement) (breakLabel continueLabel : Label)
  | breakTo (label : Label)
  | continueTo (label : Label)
  | returnValue (expression : Option Expr)
  | tryCatch (body : Statement) (catchBody finallyBody : Option Statement)
  | labeled (label : Label) (statement : Statement)
  | goto (label : Label)
  | error (node : NodeId)

/-- The statements of a scope and the locals it declares. -/
structure Block where
  statements : List Statement := []
  locals : List Local := []

def Block.toStatement (b : Block) : Statement := .block b.statements b.locals

def Statement.ofFunction (function : LocalFunction) (body : Block) : Statement :=
  .localFunction function body.statements body.locals

end Bindery

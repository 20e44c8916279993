import Bindery.Syntax.Modifiers
import Bindery.Syntax.Operator

/-!
# Syntax nodes

A node refers to its children by their numbers in the node list.

* **Declarations**: the compilation unit, classes, template parameters, methods, parameters, fields
  and global statements.
* **Types**: names, with template arguments or unbound (`List<>`), and nullable types.
* **Statements** and **expressions**. An argument of a call is neither.

`Node.children` lists the children in the order of their positions, and everything that walks a
tree goes through it.
-/

namespace Bindery

/-- The number of a node in its list. -/
abbrev NodeId := Nat

inductive Literal where
  | null
  | bool (value : Bool)
  | int (value : Int)
  | decimal (value : Decimal)
  | char (value : Char)
  | string (value : String)
deriving DecidableEq, Repr

inductive Node where
  | compilationUnit (members : List NodeId)
  | classDeclaration (name : String) (modifiers : Modifiers) (templateParameters : List NodeId)
      (base : Option NodeId) (members : List NodeId)
  /-- With a type, the parameter stands for constants of that type. -/
  | templateParameter (name : String) (constantType : Option NodeId)
  /-- Without a return type the method is `void`. -/
  | methodDeclaration (name : String) (modifiers : Modifiers) (returnType : Option NodeId)
      (parameters : List NodeId) (body : NodeId)
  | parameter (name : String) (type : NodeId) (defaultValue : Option NodeId)
  /-- Without a type, the type is that of the initializer. -/
  | fieldDeclaration (name : String) (modifiers : Modifiers) (type : Option NodeId)
      (initializer : Option NodeId)
  | globalStatement (statement : NodeId)
  | typeName (name : String) (templateArguments : List NodeId) (isUnbound : Bool)
  | nullableType (element : NodeId)
  | block (statements : List NodeId)
  | localDeclaration (name : String) (type : Option NodeId) (isConstant : Bool)
      (initializer : Option NodeId)
  | localFunction (name : String) (returnType : Option NodeId) (parameters : List NodeId)
      (body : NodeId)
  | expressionStatement (expression : NodeId)
  | ifStatement (condition thenStatement : NodeId) (elseStatement : Option NodeId)
  | whileStatement (condition body : NodeId)
  | breakStatement
  | continueStatement
  | returnStatement (expression : Option NodeId)
  | tryStatement (body : NodeId) (catchBody finallyBody : Option NodeId)
  | labeled (label : String) (statement : NodeId)
  | goto (label : String)
  | literal (value : Literal)
  | identifier (name : String)
  | call (callee : NodeId) (arguments : List NodeId)
  | argument (name : Option String) (expression : NodeId)
  | memberAccess (receiver : NodeId) (name : String)
  | conditionalAccess (receiver access : NodeId)
  | memberBinding (name : String)
  /-- With an operator, a compound assignment. -/
  | assignment (operator : Option BinaryOp) (left right : NodeId)
  | binary (operator : BinaryOp) (left right : NodeId)
  | unary (operator : UnaryOp) (operand : NodeId)
  | cast (type expression : NodeId)
  | typeOf (type : NodeId)
deriving DecidableEq, Repr

namespace Node

/-- The children in the order of their positions. -/
@[simp] def children : Node → List NodeId
  | compilationUnit members => members
  | classDeclaration _ _ templateParameters base members =>
      templateParameters ++ base.toList ++ members
  | templateParameter _ constantType => constantType.toList
  | methodDeclaration _ _ returnType parameters body => returnType.toList ++ parameters ++ [body]
  | parameter _ type defaultValue => type :: defaultValue.toList
  | fieldDeclaration _ _ type initializer => type.toList ++ initializer.toList
  | globalStatement statement => [statement]
  | typeName _ templateArguments _ => templateArguments
  | nullableType element => [element]
  | block statements => statements
  | localDeclaration _ type _ initializer => type.toList ++ initializer.toList
  | localFunction _ returnType parameters body => returnType.toList ++ parameters ++ [body]
  | expressionStatement expression => [expression]
  | ifStatement condition thenStatement elseStatement =>
      condition :: thenStatement :: elseStatement.toList
  | whileStatement condition body => [condition, body]
  | breakStatement | continueStatement | goto _ | literal _ | identifier _ | memberBinding _ => []
  | returnStatement expression => expression.toList
  | tryStatement body catchBody finallyBody => body :: (catchBody.toList ++ finallyBody.toList)
  | labeled _ statement => [statement]
  | call callee arguments => callee :: arguments
  | argument _ expression => [expression]
  | memberAccess receiver _ => [receiver]
  | conditionalAccess receiver access => [receiver, access]
  | assignment _ left right | binary _ left right => [left, right]
  | unary _ operand => [operand]
  | cast type expression => [type, expression]
  | typeOf type => [type]

def declaredName? : Node → Option String
  | classDeclaration name .. | templateParameter name _ | methodDeclaration name ..
  | parameter name .. | fieldDeclaration name .. | localDeclaration name ..
  | localFunction name .. => some name
  | _ => none

def isType : Node → Bool
  | typeName .. | nullableType _ => true
  | _ => false

def isStatement : Node → Bool
  | block _ | localDeclaration .. | localFunction .. | expressionStatement _ | ifStatement ..
  | whileStatement .. | breakStatement | continueStatement | returnStatement _ | tryStatement ..
  | labeled .. | goto _ => true
  | _ => false

def isExpression : Node → Bool
  | literal _ | identifier _ | call .. | memberAccess .. | conditionalAccess .. | memberBinding _
  | assignment .. | binary .. | unary .. | cast .. | typeOf _ => true
  | _ => false

def isCompilationUnit : Node → Bool
  | compilationUnit _ => true
  | _ => false

def label : Node → String
  | compilationUnit _ => "compilation unit"
  | classDeclaration .. => "class declaration"
  | templateParameter .. => "template parameter"
  | methodDeclaration .. => "method declaration"
  | parameter .. => "parameter"
  | fieldDeclaration .. => "field declaration"
  | globalStatement _ => "global statement"
  | typeName .. => "type name"
  | nullableType _ => "nullable type"
  | block _ => "block"
  | localDeclaration .. => "local declaration"
  | localFunction .. => "local function"
  | expressionStatement _ => "expression statement"
  | ifStatement .. => "if statement"
  | whileStatement .. => "while statement"
  | breakStatement => "break statement"
  | continueStatement => "continue statement"
  | returnStatement _ => "return statement"
  | tryStatement .. => "try statement"
  | labeled .. => "labeled statement"
  | goto _ => "goto statement"
  | literal _ => "literal"
  | identifier _ => "name"
  | call .. => "call"
  | argument .. => "argument"
  | memberAccess .. => "member access"
  | conditionalAccess .. => "conditional access"
  | memberBinding _ => "member binding"
  | assignment .. => "assignment"
  | binary .. => "binary expression"
  | unary .. => "unary expression"
  | cast .. => "cast"
  | typeOf _ => "typeof"

end Node
end Bindery

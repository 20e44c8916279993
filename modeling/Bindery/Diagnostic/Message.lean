/-!
# Messages

The mistakes that analysis reports. Each message has a code, a category and a template in which the
number between braces stands for the argument of that position.
-/

namespace Bindery

inductive Category where
  | warning
  | error
deriving DecidableEq, Repr

def Category.text : Category → String
  | warning => "warning"
  | error => "error"

inductive Message where
  -- declarations
  | parameterAlreadyDeclared
  | invalidEntryPoint
  | entryPointAndGlobals
  | variableAlreadyDeclared
  | duplicateDeclaration
  | unknownType
  | voidVariable
  | circularBase
  -- names and members
  | undefinedName
  | noValue
  | noSuchMember
  | usedBeforeDeclaration
  | usedInOwnInitializer
  | inaccessible
  | bindingOutsideConditional
  -- types and templates
  | unboundTemplate
  | templateArgumentCount
  | templateMustBeConstant
  -- conversions and operators
  | onlyExplicitConversion
  | invalidUnary
  | invalidBinary
  | noConversion
  -- assignment
  | constantAssignment
  | notAssignable
  -- calls
  | noSuchParameter
  | argumentCount
  | notCallable
  | noOverload
  | ambiguousOverload
  | parameterAlreadySpecified
  | lowLevelRequired
  -- statements
  | jumpOutsideLoop
  | unexpectedReturnValue
  | missingReturnValue
  | implicitWithoutInitializer
  | implicitNull
  | undefinedLabel
  | returnInFinally
  | duplicateLabel
  | notAStatement
  | alwaysValue
  -- constants
  | circularConstant
  | circularFieldType
  | notConstant
  | constantWithoutInitializer
deriving DecidableEq, Repr

namespace Message

def all : List Message := [
  parameterAlreadyDeclared, invalidEntryPoint, entryPointAndGlobals, variableAlreadyDeclared,
  duplicateDeclaration, unknownType, voidVariable, circularBase, undefinedName, noValue,
  noSuchMember, usedBeforeDeclaration, usedInOwnInitializer, inaccessible,
  bindingOutsideConditional, unboundTemplate, templateArgumentCount, templateMustBeConstant,
  onlyExplicitConversion, invalidUnary, invalidBinary, noConversion, constantAssignment,
  notAssignable, noSuchParameter, argumentCount, notCallable, noOverload, ambiguousOverload,
  parameterAlreadySpecified, lowLevelRequired, jumpOutsideLoop, unexpectedReturnValue,
  missingReturnValue, implicitWithoutInitializer, implicitNull, undefinedLabel, returnInFinally,
  duplicateLabel, notAStatement, alwaysValue, circularConstant, circularFieldType, notConstant,
  constantWithoutInitializer]

theorem mem_all (m : Message) : m ∈ all := by cases m <;> decide

def code : Message → Nat
  | parameterAlreadyDeclared => 13
  | invalidEntryPoint => 14
  | entryPointAndGlobals => 16
  | variableAlreadyDeclared => 21
  | duplicateDeclaration => 30
  | unknownType => 34
  | voidVariable => 55
  | circularBase => 125
  | undefinedName => 17
  | noValue => 24
  | noSuchMember => 61
  | usedBeforeDeclaration => 114
  | usedInOwnInitializer => 115
  | inaccessible => 118
  | bindingOutsideConditional => 122
  | unboundTemplate => 119
  | templateArgumentCount => 120
  | templateMustBeConstant => 121
  | onlyExplicitConversion => 7
  | invalidUnary => 8
  | invalidBinary => 11
  | noConversion => 20
  | constantAssignment => 22
  | notAssignable => 62
  | noSuchParameter => 15
  | argumentCount => 29
  | notCallable => 32
  | noOverload => 57
  | ambiguousOverload => 58
  | parameterAlreadySpecified => 67
  | lowLevelRequired => 123
  | jumpOutsideLoop => 35
  | unexpectedReturnValue => 37
  | missingReturnValue => 38
  | implicitWithoutInitializer => 40
  | implicitNull => 42
  | undefinedLabel => 116
  | returnInFinally => 117
  | duplicateLabel => 124
  | notAStatement => 126
  | alwaysValue => 1
  | circularConstant => 110
  | circularFieldType => 111
  | notConstant => 112
  | constantWithoutInitializer => 113

/-- All messages but one are errors. -/
def category : Message → Category
  | alwaysValue => .warning
  | _ => .error

def template : Message → String
  | parameterAlreadyDeclared =>
      "Cannot reuse parameter name '{0}'; parameter names must be unique."
  | invalidEntryPoint =>
      "Invalid signature for '{0}'; the entry point must not take parameters."
  | entryPointAndGlobals =>
      "Declaring '{0}' and using global statements creates an ambiguous entry point."
  | variableAlreadyDeclared => "A variable named '{0}' is already declared in this scope."
  | duplicateDeclaration => "The name '{0}' is already declared in '{1}'."
  | unknownType => "Unknown type '{0}'."
  | voidVariable => "Cannot use 'void' as the type of '{0}'."
  | circularBase => "Circular base type dependency involving '{0}' and '{1}'."
  | undefinedName => "The name '{0}' does not exist in the current context."
  | noValue => "Expression does not have a value."
  | noSuchMember => "'{0}' contains no such member '{1}'."
  | usedBeforeDeclaration => "Cannot use local variable '{0}' before it is declared."
  | usedInOwnInitializer => "Cannot use local variable '{0}' in its own initializer."
  | inaccessible => "'{0}' is inaccessible due to its protection level."
  | bindingOutsideConditional =>
      "Member binding '.{0}' is only valid on the right side of '?.'."
  | unboundTemplate => "Unbound template '{0}' is only allowed inside 'typeof'."
  | templateArgumentCount => "Type '{0}' expects {1} template arguments, got {2}."
  | templateMustBeConstant => "Template argument for '{0}' must be a compile-time constant."
  | onlyExplicitConversion =>
      "Cannot convert from type '{0}' to '{1}' implicitly; an explicit conversion exists (are you missing a cast?)."
  | invalidUnary => "Unary operator '{0}' is not defined for type '{1}'."
  | invalidBinary => "Binary operator '{0}' is not defined for types '{1}' and '{2}'."
  | noConversion => "Cannot convert from type '{0}' to '{1}'."
  | constantAssignment => "Cannot assign to '{0}'; it is a constant."
  | notAssignable => "Left side of an assignment must be a variable, parameter or field."
  | noSuchParameter => "Method '{0}' does not have a parameter named '{1}'."
  | argumentCount => "Method '{0}' expects {1} arguments, got {2}."
  | notCallable => "Called object '{0}' is not a method."
  | noOverload => "No overload for method '{0}' matches the given arguments."
  | ambiguousOverload => "Call is ambiguous between {0}."
  | parameterAlreadySpecified => "Named argument '{0}' is specified multiple times."
  | lowLevelRequired =>
      "Method '{0}' is low-level and can only be used in a low-level context."
  | jumpOutsideLoop => "The '{0}' statement can only be used inside of a loop."
  | unexpectedReturnValue => "Unexpected return value; '{0}' returns void."
  | missingReturnValue => "Missing return value; '{0}' returns '{1}'."
  | implicitWithoutInitializer =>
      "Implicitly-typed variable '{0}' must have an initializer."
  | implicitNull => "Cannot initialize implicitly-typed variable '{0}' with 'null'."
  | undefinedLabel => "No such label '{0}' within the scope of the goto statement."
  | returnInFinally => "Control cannot leave the body of a finally clause."
  | duplicateLabel => "The label '{0}' is a duplicate."
  | notAStatement => "A {0} cannot be used as a statement."
  | alwaysValue => "Condition will always evaluate to '{0}'."
  | circularConstant =>
      "The evaluation of the constant value for '{0}' involves a circular definition."
  | circularFieldType =>
      "The type of '{0}' cannot be inferred because its initializer depends on itself."
  | notConstant => "The expression assigned to '{0}' must be constant."
  | constantWithoutInitializer => "Constant '{0}' must be initialized."

def ofCode? (code : Nat) : Option Message := all.find? fun m => m.code = code

theorem code_injective {a b : Message} (h : a.code = b.code) : a = b := by
  revert h; cases a <;> cases b <;> decide

/-- The code as it is printed: four digits or more after two letters. -/
def codeText (m : Message) : String :=
  let digits := Nat.toDigits 10 m.code
  "SB" ++ String.ofList (List.replicate (4 - digits.length) '0' ++ digits)

end Message
end Bindery

import Bindery.Diagnostic
import Bindery.Json.Printer
import Bindery.Types.Basic

/-!
# Reports of values, types and diagnostics

Reports are JSON values that say everything binding found out, exactly: an integer is written as
text and a decimal as its bits, so that no reader can round them.

A type is written as one text:

* a primitive by its name, a named type as `#` and its symbol, a template parameter as `%` and its
  symbol, the type of `null` as `null`, the error type as `!`;
* a constructed type as its definition with the arguments in angle brackets, a constant argument
  after `=`;
* `?` at the end if it is nullable.
-/

namespace Bindery

/-- The sixteen hexadecimal digits of the bits; every NaN is `nan`. -/
def Decimal.bitsText (d : Decimal) : String :=
  let digits := Nat.toDigits 16 d.bits.toNat
  if d.isNaN then "nan"
  else String.ofList (List.replicate (16 - digits.length) '0' ++ digits)

/-- The value with its type's name in front. -/
def Value.toJson : Value → Json
  | .bool v => .array [.str "bool", .bool v]
  | .int v => .strs ["int", toString v]
  | .decimal v => .strs ["decimal", v.bitsText]
  | .char v => .strs ["char", v.toString]
  | .string v => .strs ["string", v]

def Constant.toJson : Constant → Json
  | .null => .strs ["null"]
  | .value v => v.toJson

mutual

def TyKind.code : TyKind → String
  | .primitive p => p.name
  | .named symbol => "#" ++ toString symbol
  | .constructed definition arguments =>
    "#" ++ toString definition ++ "<" ++ String.intercalate "," (TyKind.codes arguments) ++ ">"
  | .parameter symbol => "%" ++ toString symbol
  | .null => "null"
  | .error => "!"

def TyKind.codes : List TemplateArgument → List String
  | [] => []
  | .type kind nullable :: rest =>
    (TyKind.code kind ++ if nullable then "?" else "") :: TyKind.codes rest
  | .constant c :: rest => ("=" ++ c.toJson.render) :: TyKind.codes rest

end

def Ty.code (t : Ty) : String := t.kind.code ++ if t.nullable then "?" else ""

def Ty.toJson (t : Ty) : Json := .str t.code

def Span.toJson (s : Span) : Json := .nats [s.start, s.stop]

def Diagnostic.toJson (d : Diagnostic) : Json :=
  .obj [("text", .str d.line), ("span", .option Span.toJson d.span)]

def DiagnosticQueue.toJson (q : DiagnosticQueue) : Json := .array (q.items.map Diagnostic.toJson)

end Bindery

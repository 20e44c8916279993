import Bindery.Types.Basic
import Bindery.Types.Cast

/-!
# Computing with constants

Operators and conversions whose operands are constants are carried out at once, except where the
result is only decided when the program runs: integers that overflow and division by zero.
-/

namespace Bindery

namespace Value

/-- An integer that fits its type. -/
def checkedInt (n : Int) : Option Value := if fitsInt n then some (.int n) else none

def foldInts (op : BinaryOp) (a b : Int) : Option Value :=
  match op with
  | .add => checkedInt (a + b)
  | .subtract => checkedInt (a - b)
  | .multiply => checkedInt (a * b)
  | .divide => if b = 0 then none else checkedInt (a.tdiv b)
  | .modulo => if b = 0 || !fitsInt (a.tdiv b) then none else some (.int (a.tmod b))
  | .less => some (.bool (a < b))
  | .lessEqual => some (.bool (a ≤ b))
  | .greater => some (.bool (b < a))
  | .greaterEqual => some (.bool (b ≤ a))
  | _ => none

def foldDecimals (op : BinaryOp) (a b : Decimal) : Option Value :=
  match op with
  | .add => some (.decimal (a.add b))
  | .subtract => some (.decimal (a.sub b))
  | .multiply => some (.decimal (a.mul b))
  | .divide => if b.isZero then none else some (.decimal (a.div b))
  | .modulo => if b.isZero then none else some (.decimal (a.mod b))
  | .less => some (.bool (a.lt b))
  | .lessEqual => some (.bool (a.le b))
  | .greater => some (.bool (b.lt a))
  | .greaterEqual => some (.bool (b.le a))
  | _ => none

def foldBinary (op : BinaryOp) (a b : Value) : Option Value :=
  match op with
  | .equal => some (.bool (a = b))
  | .notEqual => some (.bool (a ≠ b))
  | _ =>
    match a, b with
    | .string _, _ | _, .string _ => if op = .add then some (.string (a.text ++ b.text)) else none
    | .int a, .int b => foldInts op a b
    | .decimal a, .decimal b => foldDecimals op a b
    | .bool a, .bool b =>
      match op with
      | .logicalAnd => some (.bool (a && b))
      | .logicalOr => some (.bool (a || b))
      | _ => none
    | _, _ => none

def foldUnary : UnaryOp → Value → Option Value
  | .negate, .int n => checkedInt (-n)
  | .negate, .decimal d => some (.decimal d.neg)
  | .plus, .int n => some (.int n)
  | .plus, .decimal d => some (.decimal d)
  | .logicalNot, .bool b => some (.bool !b)
  | _, _ => none

/-- A decimal without its fraction. Values up to `2 ^ 63` are accepted, the last of them as the
greatest integer. -/
def truncateDecimal (d : Decimal) : Option Value :=
  let n := d.truncate
  if d.isFinite && minInt ≤ n && n ≤ maxInt + 1 then some (.int (min n maxInt)) else none

def convert (v : Value) (target : Primitive) : Option Value :=
  match v, target with
  | .int n, .decimal => some (.decimal (.ofInt n))
  | .decimal d, .int => truncateDecimal d
  | .int _, .string | .decimal _, .string => some (.string v.text)
  | .string s, .int => (Text.readInt? (Text.trim s.toList)).map .int
  | .string s, .decimal => (Decimal.read? (Text.trim s.toList)).map .decimal
  | _, _ => if v.primitive = target then some v else none

end Value

namespace Constant

/-- `left op right`; two constants of which one is `null` are only compared for equality. -/
def foldBinary (op : BinaryOp) (left right : Constant) : Option Constant :=
  match left, right with
  | value a, value b => (Value.foldBinary op a b).map value
  | _, _ =>
    match op with
    | .equal => some (value (.bool (left = right)))
    | .notEqual => some (value (.bool (left ≠ right)))
    | _ => none

def foldUnary (op : UnaryOp) : Constant → Option Constant
  | null => none
  | value v => (Value.foldUnary op v).map value

/-- The constant after a conversion: `null` stays `null` in nullable types, and nothing is known of
a value boxed in `any`. -/
def foldConversion (c : Constant) (target : Ty) (cast : Cast) : Option Constant :=
  match c with
  | null => if target.nullable then some null else none
  | value v =>
    if cast.involvesAny then none
    else
      match target.primitive? with
      | some p => (v.convert p).map value
      | none => none

end Constant
end Bindery

import TemplateEngine.Value

/-!
# Arithmetic on values

The six binary operators and the two signs. Integers and truth values are computed exactly;
a result that does not have 64 bits is an overflow (`exact`). Quotients of integers are
rounded down and remainders take the sign of the divisor. `/` always gives a float, and so
does every operator with a float operand. `+` also joins strings and lists, `*` repeats
them, up to a size of `maxRepeatBytes`.
-/

namespace TemplateEngine

/-- The binary operators of expressions. -/
inductive BinaryOp where
  | add
  | sub
  | mul
  | div
  | floorDiv
  | mod
  deriving DecidableEq, Repr

/-- How an operator is written. -/
def BinaryOp.symbol : BinaryOp → Text
  | add => ['+']
  | sub => ['-']
  | mul => ['*']
  | div => ['/']
  | floorDiv => ['/', '/']
  | mod => ['%']

/-- The signs of expressions. -/
inductive Sign where
  | minus
  | plus
  deriving DecidableEq, Repr

namespace Value

/-! ## Integers -/

/-- An integer result, if it has 64 bits. -/
def exact (i : Int) : Except RenderError Value :=
  if InRange i then .ok (.int (Int64.ofInt i)) else .error .overflow

/-- An operator on integers. A remainder is computed along with its quotient and overflows
with it. -/
def integerOp (op : BinaryOp) (a b : Int) : Except RenderError Value :=
  match op with
  | .add => exact (a + b)
  | .sub => exact (a - b)
  | .mul => exact (a * b)
  | .div => if b = 0 then .error .divisionByZero else .ok (.float (Float.ofInt a / Float.ofInt b))
  | .floorDiv => if b = 0 then .error .divisionByZero else exact (a.fdiv b)
  | .mod =>
    if b = 0 then .error .divisionByZero
    else if InRange (a.fdiv b) then exact (a.fmod b)
    else .error .overflow

/-! ## Floats -/

/-- An operator on floats. -/
def floatOp (op : BinaryOp) (x y : Float) : Except RenderError Value :=
  match op with
  | .add => .ok (.float (x + y))
  | .sub => .ok (.float (x - y))
  | .mul => .ok (.float (x * y))
  | .div => if y == 0.0 then .error .divisionByZero else .ok (.float (x / y))
  | .floorDiv => if y == 0.0 then .error .divisionByZero else .ok (.float (Binary.floor (x / y)))
  | .mod =>
    if y == 0.0 then .error .divisionByZero
    else .ok (.float (x - y * Binary.floor (x / y)))

/-- An operator on two numbers. -/
def numberOp (op : BinaryOp) (v w : Value) : Except RenderError Value :=
  match v.asInt?, w.asInt? with
  | some a, some b => integerOp op a b
  | _, _ =>
    match v.asFloat?, w.asFloat? with
    | some x, some y => floatOp op x y
    | _, _ => .error (.type (.operands op.symbol v.kind w.kind))

/-! ## Strings and lists -/

/-- The largest string or list that `*` builds, in bytes. -/
def maxRepeatBytes : Nat := 1024 * 1024 * 1024

/-- The bytes that a list takes for each of its items. -/
def itemBytes : Nat := 32

/-- How often something of `bytes` bytes is repeated by `* times`. Negative counts are zero,
and nothing stays nothing. -/
def repetitions (bytes : Nat) (times : Int) : Except RenderError Nat :=
  if bytes = 0 then .ok 0
  else if bytes * times.toNat ≤ maxRepeatBytes then .ok times.toNat
  else .error .overflow

/-- A string written several times in a row. -/
def repeatText (s : Text) (times : Int) : Except RenderError Value := do
  let n ← repetitions s.byteSize times
  return .str (List.replicate n s).flatten

/-- The items of a list several times in a row. -/
def repeatItems (items : List Value) (times : Int) : Except RenderError Value := do
  let n ← repetitions (items.length * itemBytes) times
  return .list (List.replicate n items).flatten

/-! ## Operators -/

/-- A binary operator applied to two values. -/
def binary (op : BinaryOp) (v w : Value) : Except RenderError Value :=
  match op, v, w with
  | .add, .str s, .str t => .ok (.str (s ++ t))
  | .add, .list a, .list b => .ok (.list (a ++ b))
  | .mul, .str s, .int n => repeatText s n.toInt
  | .mul, .int n, .str s => repeatText s n.toInt
  | .mul, .list items, .int n => repeatItems items n.toInt
  | .mul, .int n, .list items => repeatItems items n.toInt
  | op, v, w => numberOp op v w

/-- A sign applied to a value. -/
def signed (sign : Sign) (v : Value) : Except RenderError Value :=
  match v, v.asInt? with
  | .float x, _ => .ok (.float (match sign with | .minus => -x | .plus => x))
  | _, some i => exact (match sign with | .minus => -i | .plus => i)
  | _, none => .error (.type (.operand v.kind))

end Value

end TemplateEngine

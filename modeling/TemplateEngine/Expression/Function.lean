import TemplateEngine.Language
import TemplateEngine.Value.Arithmetic
import TemplateEngine.Value.Order
import TemplateEngine.Value.Printer
import TemplateEngine.Character

/-!
# Builtin functions

The functions that expressions can call by name: conversions, numbers, progressions,
aggregates and escaping. Each is defined on values by itself; `Builtin.call` checks the
number of arguments and picks the definition.

`Value.sort` is a stable insertion sort. The order of values is partial, so sorting fails at
the first two values that have no order.
-/

namespace TemplateEngine

namespace Value

/-! ## Conversions -/

/-- The integer an argument must be. -/
def expectInt (callee : Text) (v : Value) : Except RenderError Int :=
  match v.asInt? with
  | some i => .ok i
  | none => .error (.type (.notInteger callee v.kind))

/-- The string an argument must be. -/
def expectText (callee : Text) (v : Value) : Except RenderError Text :=
  match v.asText? with
  | some s => .ok s
  | none => .error (.type (.notString callee v.kind))

/-- The number of characters, items or keys. -/
def length : Value → Except RenderError Value
  | str s => .ok (ofNat s.length)
  | list items => .ok (ofNat items.length)
  | dict entries => .ok (ofNat entries.length)
  | v => .error (.type (.noLength v.kind))

/-- A float without its fraction, if it is well inside the range of integers. -/
def truncate (x : Float) : Except RenderError Value :=
  match Binary.whole? x with
  | some i => if x.abs < 9.2e18 then exact i else .error .overflow
  | none => .error .overflow

/-- Conversion to an integer. Blanks around a numeral are ignored. -/
def toInt (v : Value) : Except RenderError Value :=
  match v with
  | int i => .ok (int i)
  | bool b => exact b.toInt
  | float x => truncate x
  | str s =>
    match Decimal.int? (s.trim Character.isBlank) with
    | some i => if InRange i then exact i else .error (.type (.integerText s.quoted))
    | none => .error (.type (.integerText s.quoted))
  | v => .error (.type (.conversion "int".toList v.kind))

/-- Conversion to a float. Blanks around a numeral are ignored. -/
def toFloat (v : Value) : Except RenderError Value :=
  match v with
  | str s =>
    match Decimal.float? (s.trim Character.isBlank) with
    | some x => .ok (float x)
    | none => .error (.type (.floatText s.quoted))
  | v =>
    match v.asFloat? with
    | some x => .ok (float x)
    | none => .error (.type (.conversion "float".toList v.kind))

/-! ## Numbers -/

/-- The absolute value. -/
def magnitude (v : Value) : Except RenderError Value :=
  match v, v.asInt? with
  | float x, _ => .ok (float x.abs)
  | _, some i => exact i.natAbs
  | v, none => .error (.type (.absolute v.kind))

/-- A number rounded to an integer; a half goes to the even neighbour. -/
def round (v : Value) : Except RenderError Value :=
  match v with
  | float x => truncate (Binary.roundEven x)
  | int _ | bool _ => v.toInt
  | v => .error (.type (.rounding v.kind))

/-- The greatest number of decimal places that rounding distinguishes. -/
def maxPlaces : Int := 308

/-- A number rounded to decimal places: scaled up, rounded to the even neighbour and scaled
down again. Integers have no places. -/
def roundTo (v places : Value) : Except RenderError Value :=
  match v with
  | float x => do
    let n ← expectInt "round".toList places
    let scale := Binary.powerOfTen (max (-maxPlaces) (min n maxPlaces))
    return float (Binary.roundEven (x * scale) / scale)
  | int _ | bool _ => do
    let _ ← expectInt "round".toList places
    v.toInt
  | v => .error (.type (.rounding v.kind))

/-! ## Lists -/

/-- The number of items of a progression. -/
def rangeLength (start stop step : Int) : Nat :=
  if 0 < step then ((stop - start + step - 1) / step).toNat
  else ((start - stop - step - 1) / -step).toNat

/-- The progression from `start` in steps of `step`, as long as it does not reach `stop`. -/
def range (start stop step : Int) : Except RenderError Value :=
  if step = 0 then .error (.type .zeroStep)
  else .ok (list ((List.range (rangeLength start stop step)).map fun (i : Nat) =>
    int (Int64.ofInt (start + i * step))))

/-- The items of a value, each in a list behind its number. -/
def enumerate (v : Value) (start : Int) : Except RenderError Value := do
  let items ← v.iterate
  let pairs ← items.zipIdx.mapM fun (item, i) => do
    return list [← exact (start + i), item]
  return list pairs

/-- The sum of the items of a value, added to `start` from the left. -/
def sum (v start : Value) : Except RenderError Value := do
  (← v.iterate).foldlM (binary .add) start

/-- Puts a value into sorted values, which are given in reverse: behind all that are not
greater. -/
def insertBack (v : Value) : List Value → Except RenderError (List Value)
  | [] => .ok [v]
  | w :: rest => do
    match ← v.order w with
    | .lt => return w :: (← insertBack v rest)
    | _ => return v :: w :: rest

/-- Sorts values. Equal values keep their order. -/
def sort (items : List Value) : Except RenderError (List Value) := do
  let sorted ← items.foldlM (fun sorted v => insertBack v sorted) []
  return sorted.reverse

/-- The items of a value in order, or in reverse order. -/
def sorted (v : Value) (reverse : Bool) : Except RenderError Value := do
  let items ← sort (← v.iterate)
  return list (if reverse then items.reverse else items)

/-- What `min` and `max` choose from: the items of a single argument, or the arguments. -/
def candidates (callee : Text) : List Value → Except RenderError (List Value)
  | [] => .error (.type (.noArgument callee))
  | [v] => v.iterate
  | args => .ok args

/-- The first candidate that no later one beats, where `beats` is the order to the best so
far. -/
def extreme (callee : Text) (beats : Ordering) (args : List Value) : Except RenderError Value := do
  match ← candidates callee args with
  | [] => .error (.type (.emptySequence callee))
  | first :: others =>
    others.foldlM (fun best v => do return if (← v.order best) = beats then v else best) first

end Value

/-! ## Functions by name -/

/-- The builtin functions. -/
inductive Builtin where
  | len
  | str
  | int
  | float
  | bool
  | list
  | abs
  | range
  | enumerate
  | round
  | min
  | max
  | sum
  | sorted
  | escaped (language : Language)
  deriving DecidableEq

namespace Builtin

/-- The name of a function. -/
def name : Builtin → Text
  | len => "len".toList
  | str => "str".toList
  | int => "int".toList
  | float => "float".toList
  | bool => "bool".toList
  | list => "list".toList
  | abs => "abs".toList
  | range => "range".toList
  | enumerate => "enumerate".toList
  | round => "round".toList
  | min => "min".toList
  | max => "max".toList
  | sum => "sum".toList
  | sorted => "sorted".toList
  | escaped language => "safe_".toList ++ language.name

/-- All functions. -/
def all : List Builtin :=
  [len, str, int, float, bool, list, abs, range, enumerate, round, min, max, sum, sorted,
    escaped .html, escaped .xml, escaped .markdown]

/-- The function of a name. -/
def ofName? (text : Text) : Option Builtin := all.find? (·.name = text)

/-- The least and the greatest number of arguments. `min` and `max` take any number. -/
def arity : Builtin → Nat × Nat
  | range => (1, 3)
  | enumerate | round | sum | sorted => (1, 2)
  | _ => (1, 1)

/-- A function applied to arguments. -/
def apply (f : Builtin) (args : List Value) : Except RenderError Value :=
  match f, args with
  | len, [v] => v.length
  | str, [v] => .ok (.str v.text)
  | int, [v] => v.toInt
  | float, [v] => v.toFloat
  | bool, [v] => .ok (.bool v.truthy)
  | list, [v] => v.iterate.map .list
  | abs, [v] => v.magnitude
  | range, [stop] => do
    let stop ← stop.expectInt f.name
    Value.range 0 stop 1
  | range, [start, stop] => do
    let start ← start.expectInt f.name
    let stop ← stop.expectInt f.name
    Value.range start stop 1
  | range, [start, stop, step] => do
    let start ← start.expectInt f.name
    let stop ← stop.expectInt f.name
    let step ← step.expectInt f.name
    Value.range start stop step
  | enumerate, [v] => v.enumerate 0
  | enumerate, [v, start] => do v.enumerate (← start.expectInt f.name)
  | round, [v] => v.round
  | round, [v, places] => v.roundTo places
  | min, args => Value.extreme f.name .lt args
  | max, args => Value.extreme f.name .gt args
  | sum, [v] => v.sum (.int 0)
  | sum, [v, start] => v.sum start
  | sorted, [v] => v.sorted false
  | sorted, [v, reverse] => v.sorted reverse.truthy
  | escaped language, [v] => .ok (.str (language.escape v.text))
  | f, args => .error (.type (.arity f.name f.arity.1 f.arity.2 args.length))

/-- Calls the function of a name. -/
def call (name : Text) (args : List Value) : Except RenderError Value :=
  match ofName? name with
  | some f => f.apply args
  | none => .error (.unknownFunction name)

end Builtin

end TemplateEngine

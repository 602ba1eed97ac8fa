import TemplateEngine.Entries
import TemplateEngine.Number.Binary
import TemplateEngine.RenderError

/-!
# Values

What names in a context are bound to and what expressions evaluate to. Integers have 64
bits; a result outside their range is an error and never wraps. Lists and dictionaries nest
freely.

This module holds the type and the views of a value that every part of the engine uses: its
kind, its truth, the number it stands for and the items a loop walks over.
-/

namespace TemplateEngine

/-- The values of the template language. -/
inductive Value where
  /-- no value -/
  | null
  | bool (b : Bool)
  | int (i : Int64)
  | float (x : Float)
  | str (s : Text)
  | list (items : List Value)
  /-- items under keys, in the order of the keys -/
  | dict (entries : List (Text × Value))

namespace Value

instance : Inhabited Value := ⟨null⟩

/-- The type of a value. -/
def kind : Value → Kind
  | null => .none
  | bool _ => .bool
  | int _ => .int
  | float _ => .float
  | str _ => .str
  | list _ => .list
  | dict _ => .dict

/-- The integers that have 64 bits: those from `-2 ^ 63` to `2 ^ 63 - 1`. -/
def InRange (i : Int) : Prop := -9223372036854775808 ≤ i ∧ i ≤ 9223372036854775807

instance (i : Int) : Decidable (InRange i) := inferInstanceAs (Decidable (_ ∧ _))

/-- A whole number as a value: an integer if it has 64 bits, else the nearest float. -/
def ofInt (i : Int) : Value :=
  if InRange i then .int (Int64.ofInt i) else .float (Float.ofInt i)

/-- The number of things in a list or text as a value. -/
def ofNat (n : Nat) : Value := ofInt n

/-- Nothing, false, zero and whatever is empty count as false. -/
def truthy : Value → Bool
  | null => false
  | bool b => b
  | int i => i != 0
  | float x => x != 0.0
  | str s => !s.isEmpty
  | list items => !items.isEmpty
  | dict entries => !entries.isEmpty

/-- The text of a string. -/
def asText? : Value → Option Text
  | str s => some s
  | _ => none

/-- The integer a value stands for. Truth values count as one and zero. -/
def asInt? : Value → Option Int
  | int i => some i.toInt
  | bool b => some b.toInt
  | _ => none

/-- The float a value stands for. An integer is rounded to the nearest float, to the even
one of two equally near. -/
def asFloat? : Value → Option Float
  | float x => some x
  | v => v.asInt?.map Float.ofInt

/-- The items a loop walks over: those of a list, the keys of a dictionary, the characters of
a string. No value has no items. -/
def iterate : Value → Except RenderError (List Value)
  | null => .ok []
  | list items => .ok items
  | dict entries => .ok (entries.map fun (key, _) => str key)
  | str s => .ok (s.map fun c => str [c])
  | v => .error (.notIterable v.kind)

end Value

end TemplateEngine

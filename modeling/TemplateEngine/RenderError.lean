import TemplateEngine.Text

/-!
# What can go wrong while rendering

A template that compiles can still fail on the values it is rendered with. `RenderError`
lists the causes; `TypeFault` splits the largest family, values of a type that does not fit
the place they are used in. The wording of each cause is in `message`.
-/

namespace TemplateEngine

/-- The types of values. -/
inductive Kind where
  | none
  | bool
  | int
  | float
  | str
  | list
  | dict
  deriving DecidableEq, Repr

namespace Kind

/-- The name of a type in messages. -/
def name : Kind → String
  | none => "none"
  | bool => "bool"
  | int => "int"
  | float => "float"
  | str => "str"
  | list => "list"
  | dict => "dict"

instance : ToString Kind := ⟨name⟩

end Kind

/-- A value of the wrong type, or the wrong number of values. -/
inductive TypeFault where
  /-- operands that a binary operator does not take -/
  | operands (symbol : Text) (left right : Kind)
  /-- an operand that a sign does not take -/
  | operand (kind : Kind)
  /-- values that have no order -/
  | unordered (left right : Kind)
  /-- something other than a string looked for in a string -/
  | needle (kind : Kind)
  /-- something looked for in a value that contains nothing -/
  | container (kind : Kind)
  /-- an attribute of a value that is no dictionary -/
  | noAttribute (kind : Kind) (name : Text)
  /-- a subscript that does not fit its target -/
  | subscript (target index : Kind)
  /-- a list with the wrong number of items for the names of a loop -/
  | unpackCount (values names : Nat)
  /-- an item that is no list, for several names of a loop -/
  | unpack (kind : Kind)
  /-- the wrong number of arguments -/
  | arity (callee : Text) (least most given : Nat)
  /-- no argument where at least one is needed -/
  | noArgument (callee : Text)
  /-- the least or greatest of no items -/
  | emptySequence (callee : Text)
  /-- an argument that should be an integer -/
  | notInteger (callee : Text) (kind : Kind)
  /-- an argument that should be a string -/
  | notString (callee : Text) (kind : Kind)
  /-- the length of a value that has none -/
  | noLength (kind : Kind)
  /-- a string that is no integer, quoted -/
  | integerText (quoted : Text)
  /-- a string that is no float, quoted -/
  | floatText (quoted : Text)
  /-- a value that cannot be converted to a number -/
  | conversion (callee : Text) (kind : Kind)
  /-- the absolute value of something that is no number -/
  | absolute (kind : Kind)
  /-- something rounded that is no number -/
  | rounding (kind : Kind)
  /-- a progression that stands still -/
  | zeroStep
  /-- an item to join that is no string -/
  | joined (kind : Kind)
  /-- a string split at nothing -/
  | emptySeparator
  /-- the position of a value that the list does not hold, quoted -/
  | notInList (quoted : Text)
  deriving DecidableEq

/-- The wording of a type fault. -/
def TypeFault.message : TypeFault → String
  | operands symbol left right =>
    s!"unsupported operand type(s) for {String.ofList symbol}: '{left}' and '{right}'"
  | operand kind => s!"bad operand type for unary operator: '{kind}'"
  | unordered left right => s!"'<' not supported between '{left}' and '{right}'"
  | needle kind => s!"'in <string>' requires string as left operand, not {kind}"
  | container kind => s!"argument of type '{kind}' is not iterable"
  | noAttribute kind name => s!"'{kind}' object has no attribute '{String.ofList name}'"
  | subscript target index => s!"'{target}' indices must be valid keys, not '{index}'"
  | unpackCount values names => s!"cannot unpack {values} values into {names} names"
  | unpack kind => s!"cannot unpack non-list '{kind}'"
  | arity callee least most given =>
    let expected := if least = most then s!"{least}" else s!"{least} to {most}"
    s!"{String.ofList callee}() takes {expected} argument(s) ({given} given)"
  | noArgument callee => s!"{String.ofList callee}() expected at least 1 argument"
  | emptySequence callee => s!"{String.ofList callee}() arg is an empty sequence"
  | notInteger callee kind => s!"{String.ofList callee}() expected an integer, got '{kind}'"
  | notString callee kind => s!"{String.ofList callee}() expected a string, got '{kind}'"
  | noLength kind => s!"object of type '{kind}' has no len()"
  | integerText quoted => s!"invalid literal for int(): {String.ofList quoted}"
  | floatText quoted => s!"could not convert string to float: {String.ofList quoted}"
  | conversion callee kind =>
    s!"{String.ofList callee}() argument must be a string or a number, not '{kind}'"
  | absolute kind => s!"bad operand type for abs(): '{kind}'"
  | rounding kind => s!"type '{kind}' doesn't define round()"
  | zeroStep => "range() arg 3 must not be zero"
  | joined kind => s!"join() expected str items, found '{kind}'"
  | emptySeparator => "empty separator"
  | notInList quoted => s!"{String.ofList quoted} is not in list"

/-- The causes for which rendering stops. -/
inductive RenderError where
  /-- a name that nothing binds -/
  | undefinedVariable (name : Text)
  /-- a call of something that is no builtin function -/
  | unknownFunction (name : Text)
  /-- a call of a method that the type does not have -/
  | unknownMethod (kind : Kind) (name : Text)
  /-- a value of the wrong type -/
  | type (fault : TypeFault)
  /-- a key that the dictionary does not have, quoted -/
  | keyNotFound (quoted : Text)
  /-- an index outside the list or string -/
  | indexOutOfRange (index : Int64)
  /-- a division by zero -/
  | divisionByZero
  /-- a loop over a value that has no items -/
  | notIterable (kind : Kind)
  /-- an integer outside the range, or a result too large to build -/
  | overflow
  deriving DecidableEq

/-- The wording of a render error. -/
def RenderError.message : RenderError → String
  | undefinedVariable name => s!"name '{String.ofList name}' is not defined"
  | unknownFunction name => s!"unknown function '{String.ofList name}'"
  | unknownMethod kind name => s!"'{kind}' has no method '{String.ofList name}'"
  | type fault => fault.message
  | keyNotFound quoted => s!"key {String.ofList quoted} not found"
  | indexOutOfRange index => s!"index {index.toInt} out of range"
  | divisionByZero => "division by zero"
  | notIterable kind => s!"'{kind}' is not iterable"
  | overflow => "integer overflow"

end TemplateEngine

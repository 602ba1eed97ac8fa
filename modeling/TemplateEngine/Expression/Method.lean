import TemplateEngine.Entries
import TemplateEngine.Text.Casing
import TemplateEngine.Value.Order
import TemplateEngine.Value.Printer
import TemplateEngine.Expression.Function

/-!
# Methods

What can be called on a value behind a point. Strings, lists and dictionaries have methods;
other values have none. The number of arguments is checked before their types, and on a
list even before the name.
-/

namespace TemplateEngine

/-- The error for the wrong number of arguments. -/
def arityError (callee : Text) (least most : Nat) (args : List Value) : RenderError :=
  .type (.arity callee least most args.length)

/-! ## Strings -/

/-- The methods of strings. -/
inductive StringMethod where
  | upper
  | lower
  | capitalize
  | title
  | strip
  | lstrip
  | rstrip
  | startswith
  | endswith
  | replace
  | split
  | join
  | count
  | find
  deriving DecidableEq

namespace StringMethod

/-- The name of a method. -/
def name : StringMethod → Text
  | upper => "upper".toList
  | lower => "lower".toList
  | capitalize => "capitalize".toList
  | title => "title".toList
  | strip => "strip".toList
  | lstrip => "lstrip".toList
  | rstrip => "rstrip".toList
  | startswith => "startswith".toList
  | endswith => "endswith".toList
  | replace => "replace".toList
  | split => "split".toList
  | join => "join".toList
  | count => "count".toList
  | find => "find".toList

/-- All methods. -/
def all : List StringMethod :=
  [upper, lower, capitalize, title, strip, lstrip, rstrip, startswith, endswith, replace, split,
    join, count, find]

/-- The method of a name. -/
def ofName? (text : Text) : Option StringMethod := all.find? (·.name = text)

/-- The least and the greatest number of arguments. -/
def arity : StringMethod → Nat × Nat
  | upper | lower | capitalize | title => (0, 0)
  | strip | lstrip | rstrip | split => (0, 1)
  | startswith | endswith | join | count | find => (1, 1)
  | replace => (2, 2)

/-- The characters that stripping removes: those of the argument, or blanks. -/
def stripped (m : StringMethod) : List Value → Except RenderError (Char → Bool)
  | [] | [.null] => .ok Character.isBlank
  | v :: _ => do
    let characters ← v.expectText m.name
    return fun c => c ∈ characters

/-- The strings among which a string is the separator. -/
def joinable : List Value → Except RenderError (List Text)
  | [] => .ok []
  | .str s :: items => do return s :: (← joinable items)
  | v :: _ => .error (.type (.joined v.kind))

/-- The fields of a string: between the separators, or between blanks if there is none. -/
def fields (s : Text) : List Value → Except RenderError (List Text)
  | [] | [.null] => .ok (s.fields Character.isBlank)
  | v :: _ => do
    let separator ← v.expectText split.name
    if separator.isEmpty then .error (.type .emptySeparator) else return s.pieces separator

/-- A method applied to a string, with a number of arguments that `arity` allows. -/
def applyTo (m : StringMethod) (s : Text) (args : List Value) : Except RenderError Value :=
  match m, args with
  | upper, _ => .ok (.str s.upper)
  | lower, _ => .ok (.str s.lower)
  | capitalize, _ => .ok (.str s.capitalize)
  | title, _ => .ok (.str s.title)
  | strip, args => do return .str (s.trim (← m.stripped args))
  | lstrip, args => do return .str (s.dropWhile (← m.stripped args))
  | rstrip, args => do return .str (s.trimEnd (← m.stripped args))
  | startswith, [v] => do return .bool (s.after? (← v.expectText m.name)).isSome
  | endswith, [v] => do return .bool (s.before? (← v.expectText m.name)).isSome
  | replace, [v, w] => do
    let old ← v.expectText m.name
    let new ← w.expectText m.name
    return .str (s.substitute old new)
  | split, args => do return .list ((← fields s args).map .str)
  | join, [v] => do return .str (s.intercalate (← joinable (← v.iterate)))
  | count, [v] => do return .ofNat (s.occurrences (← v.expectText m.name))
  | find, [v] => do
    match s.cut? (← v.expectText m.name) with
    | some (before, _) => return .ofNat before.length
    | none => return .int (-1)
  | m, args => .error (arityError m.name m.arity.1 m.arity.2 args)

/-- Calls a method of a string. -/
def call (s : Text) (name : Text) (args : List Value) : Except RenderError Value :=
  match ofName? name with
  | some m =>
    if m.arity.1 ≤ args.length ∧ args.length ≤ m.arity.2 then m.applyTo s args
    else .error (arityError name m.arity.1 m.arity.2 args)
  | none => .error (.unknownMethod .str name)

end StringMethod

namespace Value

/-! ## Lists -/

/-- Calls a method of a list: `count` or `index`, of one value. -/
def callListMethod (items : List Value) (name : Text) (args : List Value) :
    Except RenderError Value :=
  match args with
  | [needle] =>
    if name = "count".toList then .ok (ofNat (items.countP (looseEq · needle)))
    else if name = "index".toList then
      match items.findIdx? (looseEq · needle) with
      | some i => .ok (ofNat i)
      | none => .error (.type (.notInList needle.quoted))
    else .error (.unknownMethod .list name)
  | args => .error (arityError name 1 1 args)

/-! ## Dictionaries -/

/-- Calls a method of a dictionary: `get`, `keys`, `values` or `items`. -/
def callDictMethod (entries : Entries Value) (name : Text) (args : List Value) :
    Except RenderError Value :=
  if name = "get".toList then
    match args with
    | [key] => do return (entries.get? (← key.expectText name)).getD null
    | [key, default] => do return (entries.get? (← key.expectText name)).getD default
    | args => .error (arityError name 1 2 args)
  else if name = "keys".toList then
    match args with
    | [] => .ok (list (entries.map fun (key, _) => str key))
    | args => .error (arityError name 0 0 args)
  else if name = "values".toList then
    match args with
    | [] => .ok (list (entries.map fun (_, v) => v))
    | args => .error (arityError name 0 0 args)
  else if name = "items".toList then
    match args with
    | [] => .ok (list (entries.map fun (key, v) => list [str key, v]))
    | args => .error (arityError name 0 0 args)
  else .error (.unknownMethod .dict name)

/-! ## Any value -/

/-- Calls a method of a value. -/
def callMethod (target : Value) (name : Text) (args : List Value) : Except RenderError Value :=
  match target with
  | str s => StringMethod.call s name args
  | list items => callListMethod items name args
  | dict entries => callDictMethod entries name args
  | v => .error (.unknownMethod v.kind name)

end Value

end TemplateEngine

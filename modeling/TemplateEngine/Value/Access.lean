import TemplateEngine.Value.Order
import TemplateEngine.Value.Printer

/-!
# Looking into values

Membership, attributes and subscripts. An index counts from the end if it is negative;
dictionaries are looked up by string keys only.
-/

namespace TemplateEngine

namespace Value

/-- Whether `item in container` holds. -/
def contains (container item : Value) : Except RenderError Bool :=
  match container, item with
  | .str s, .str needle => .ok (s.holds needle)
  | .str _, item => .error (.type (.needle item.kind))
  | .list items, item => .ok (items.any (looseEq · item))
  | .dict entries, .str key => .ok (Entries.has key entries)
  | .dict _, _ => .ok false
  | container, _ => .error (.type (.container container.kind))

/-- The item of a dictionary under a key. -/
def item (entries : Entries Value) (key : Text) : Except RenderError Value :=
  match entries.get? key with
  | some v => .ok v
  | none => .error (.keyNotFound key.quoted)

/-- The value of `target.name`. -/
def dot (target : Value) (name : Text) : Except RenderError Value :=
  match target with
  | .dict entries => item entries name
  | v => .error (.type (.noAttribute v.kind name))

/-- The element of a list that an index stands for. -/
def elementAt {α : Type} (elements : List α) (index : Int64) : Except RenderError α :=
  let i := index.toInt
  let position := if i < 0 then i + elements.length else i
  match if position < 0 then none else elements[position.toNat]? with
  | some a => .ok a
  | none => .error (.indexOutOfRange index)

/-- The value of `target[index]`. -/
def subscript (target index : Value) : Except RenderError Value :=
  match target, index with
  | .list items, .int i => elementAt items i
  | .str s, .int i => (elementAt s i).map fun c => .str [c]
  | .dict entries, .str key => item entries key
  | target, index => .error (.type (.subscript target.kind index.kind))

end Value

end TemplateEngine

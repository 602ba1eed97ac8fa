import TemplateEngine.Value

/-!
# Comparing values

There are two equalities and one order.

* `same` is structural: values of different types differ, and so does a NaN from itself.
* `looseEq` equates numbers of all types by the float they stand for, also inside lists and
  dictionaries.
* `order` is defined between numbers, between strings and between lists. Integers compare
  exactly, other numbers as floats. Lists compare item by item; the first pair that is
  unequal or has no order decides.
-/

namespace TemplateEngine

namespace Value

/-! ## Equality -/

mutual

/-- The values are equal in type and content. -/
def same : Value → Value → Bool
  | null, null => true
  | bool a, bool b => a == b
  | int a, int b => a == b
  | float x, float y => Binary.same x y
  | str s, str t => s == t
  | list a, list b => sameItems a b
  | dict a, dict b => sameEntries a b
  | _, _ => false

/-- The lists have equal items. -/
def sameItems : List Value → List Value → Bool
  | [], [] => true
  | v :: a, w :: b => same v w && sameItems a b
  | _, _ => false

/-- The entries have equal keys and items. -/
def sameEntries : List (Text × Value) → List (Text × Value) → Bool
  | [], [] => true
  | (k, v) :: a, (l, w) :: b => k == l && same v w && sameEntries a b
  | _, _ => false

end

/-- The values are numbers, and the same number when taken for floats. -/
def sameNumber (v w : Value) : Bool :=
  match v.asFloat?, w.asFloat? with
  | some x, some y => Binary.same x y
  | _, _ => false

mutual

/-- The values are equal, whatever type their numbers have. -/
def looseEq : Value → Value → Bool
  | null, null => true
  | str s, str t => s == t
  | list a, list b => looseEqItems a b
  | dict a, dict b => looseEqEntries a b
  | v, w => sameNumber v w

/-- The lists have loosely equal items. -/
def looseEqItems : List Value → List Value → Bool
  | [], [] => true
  | v :: a, w :: b => looseEq v w && looseEqItems a b
  | _, _ => false

/-- The entries have equal keys and loosely equal items. -/
def looseEqEntries : List (Text × Value) → List (Text × Value) → Bool
  | [], [] => true
  | (k, v) :: a, (l, w) :: b => k == l && looseEq v w && looseEqEntries a b
  | _, _ => false

end

/-! ## Order -/

/-- The order of two numbers taken for floats. Anything else has none. -/
def orderNumbers (v w : Value) : Except RenderError Ordering :=
  match v.asFloat?, w.asFloat? with
  | some x, some y =>
    match Binary.compare? x y with
    | some o => .ok o
    | none => .error (.type (.unordered v.kind w.kind))
  | _, _ => .error (.type (.unordered v.kind w.kind))

mutual

/-- The order of two values, if they have one. -/
def order : Value → Value → Except RenderError Ordering
  | str s, str t => .ok (s.order t)
  | list a, list b => orderItems a b
  | int a, int b => .ok (compare a.toInt b.toInt)
  | v, w => orderNumbers v w

/-- The order of two lists: that of the first unequal items, else of the lengths. -/
def orderItems : List Value → List Value → Except RenderError Ordering
  | [], [] => .ok .eq
  | [], _ :: _ => .ok .lt
  | _ :: _, [] => .ok .gt
  | v :: a, w :: b =>
    match order v w with
    | .ok .eq => orderItems a b
    | unequal => unequal

end

end Value

end TemplateEngine

import TemplateEngine.Expression
import TemplateEngine.Expression.Function
import TemplateEngine.Expression.Method
import TemplateEngine.Value.Access

/-!
# Evaluating expressions and running statements

An expression is evaluated against a lookup of names and changes nothing. `and` and `or`
return one of their operands and leave the other unevaluated if it cannot matter; a chain
of comparisons evaluates each operand once and stops at the first link that does not hold.

A statement also writes to the place its names live in, which is any type with a `Scope`.
-/

namespace TemplateEngine

/-- Places in which names are looked up and bound. -/
class Scope (σ : Type) where
  /-- the value a name is bound to -/
  lookup : σ → Text → Option Value
  /-- the scope with a name bound to a value -/
  assign : σ → Text → Value → σ

/-- Entries are the plainest scope: names are keys. -/
instance : Scope (Entries Value) where
  lookup entries name := entries.get? name
  assign entries name value := entries.put name value

/-! ## Comparisons -/

/-- Whether a comparison holds between two values. -/
def Comparison.holds (c : Comparison) (v w : Value) : Except RenderError Bool :=
  match c with
  | equal => .ok (v.looseEq w)
  | unequal => .ok (!v.looseEq w)
  | less => do return (← v.order w) == .lt
  | atMost => do return (← v.order w) != .gt
  | greater => do return (← v.order w) == .gt
  | atLeast => do return (← v.order w) != .lt
  | member => w.contains v
  | notMember => do return !(← w.contains v)
  | same => .ok (v.same w)
  | different => .ok (!v.same w)

/-! ## Expressions -/

namespace Expr

variable (lookup : Text → Option Value)

mutual

/-- The value of an expression. -/
def eval : Expr → Except RenderError Value
  | literal v => .ok v
  | name n =>
    match lookup n with
    | some v => .ok v
    | none => .error (.undefinedVariable n)
  | list items => do return .list (← evalItems items)
  | dict entries => do return .dict (← evalEntries entries [])
  | dot target n => do (← eval target).dot n
  | subscript target index => do
    let v ← eval target
    v.subscript (← eval index)
  | call f args => do Builtin.call f (← evalItems args)
  | method target n args => do
    let v ← eval target
    v.callMethod n (← evalItems args)
  | signed sign operand => do Value.signed sign (← eval operand)
  | binary op left right => do
    let v ← eval left
    Value.binary op v (← eval right)
  | compare first links => do evalLinks (← eval first) links
  | not operand => do return .bool !(← eval operand).truthy
  | and left right => do
    let v ← eval left
    if v.truthy then eval right else return v
  | or left right => do
    let v ← eval left
    if v.truthy then return v else eval right
  | choice condition yes no => do
    if (← eval condition).truthy then eval yes else eval no

/-- The values of several expressions, from left to right. -/
def evalItems : List Expr → Except RenderError (List Value)
  | [] => .ok []
  | e :: items => do
    let v ← eval e
    return v :: (← evalItems items)

/-- The entries of a dictionary, put to those already there. A key that is no string counts
by its text. -/
def evalEntries : List (Expr × Expr) → Entries Value → Except RenderError (Entries Value)
  | [], done => .ok done
  | (key, e) :: entries, done => do
    let k ← eval key
    let v ← eval e
    evalEntries entries (done.put k.text v)

/-- Whether all links of a comparison chain hold behind the value `v`. -/
def evalLinks (v : Value) : List (Comparison × Expr) → Except RenderError Value
  | [] => .ok (.bool true)
  | (c, e) :: links => do
    let w ← eval e
    if ← c.holds v w then evalLinks w links else return .bool false

end

end Expr

/-! ## Statements -/

namespace Statement

variable {σ : Type} [Scope σ]

/-- Runs a statement: the scope it leaves behind. -/
def run (scope : σ) : Statement → Except RenderError σ
  | assign target op e => do
    let v ← e.eval (Scope.lookup scope)
    match op with
    | none => return Scope.assign scope target v
    | some op =>
      match Scope.lookup scope target with
      | none => .error (.undefinedVariable target)
      | some current => return Scope.assign scope target (← Value.binary op current v)
  | evaluate e => do
    let _ ← e.eval (Scope.lookup scope)
    return scope

/-- Runs statements one after the other. -/
def runAll (scope : σ) (statements : List Statement) : Except RenderError σ :=
  statements.foldlM run scope

end Statement

end TemplateEngine

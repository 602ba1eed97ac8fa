import TemplateEngine.Value.Arithmetic

/-!
# Expressions and statements

The trees that the text inside a tag is read as. An expression computes a value; a statement
also binds a name. A chain of comparisons such as `1 < x <= 3` is one node, since each of
its operands is evaluated once.
-/

namespace TemplateEngine

/-- How two neighbours of a comparison chain are compared. -/
inductive Comparison where
  | equal
  | unequal
  | less
  | atMost
  | greater
  | atLeast
  /-- `in` -/
  | member
  /-- `not in` -/
  | notMember
  /-- `is` -/
  | same
  /-- `is not` -/
  | different
  deriving DecidableEq, Repr

/-- Expressions. -/
inductive Expr where
  | literal (value : Value)
  | name (name : Text)
  | list (items : List Expr)
  | dict (entries : List (Expr × Expr))
  /-- `target.name` -/
  | dot (target : Expr) (name : Text)
  /-- `target[index]` -/
  | subscript (target index : Expr)
  | call (function : Text) (args : List Expr)
  /-- `target.name(args)` -/
  | method (target : Expr) (name : Text) (args : List Expr)
  | signed (sign : Sign) (operand : Expr)
  | binary (op : BinaryOp) (left right : Expr)
  /-- `first op₁ e₁ op₂ e₂ …` -/
  | compare (first : Expr) (links : List (Comparison × Expr))
  | not (operand : Expr)
  | and (left right : Expr)
  | or (left right : Expr)
  /-- `yes if condition else no` -/
  | choice (condition yes no : Expr)

instance : Inhabited Expr := ⟨.literal .null⟩

/-- Statements. -/
inductive Statement where
  /-- `target = value`, or `target op= value` -/
  | assign (target : Text) (op : Option BinaryOp) (value : Expr)
  /-- an expression evaluated only for its errors -/
  | evaluate (value : Expr)

/-- The head of a loop: `a, b in items`. -/
structure LoopHeader where
  targets : List Text
  items : Expr

end TemplateEngine

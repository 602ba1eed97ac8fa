import TemplateEngine.Plan

/-!
# The names a plan reads

An expression reads the names that stand for values in it. The name of a function or method, and
what stands behind a dot, are none of these. A statement reads the names of its expression, and
one such as `x += 1` also the name it binds. What else a statement or a loop binds is written and
not read.
-/

namespace TemplateEngine

namespace Expr

mutual

/-- The names that an expression reads. -/
def names : Expr → List Text
  | literal _ => []
  | name n => [n]
  | list items | call _ items => namesItems items
  | dict entries => namesEntries entries
  | dot operand _ | signed _ operand | not operand => names operand
  | method target _ args => names target ++ namesItems args
  | subscript left right | binary _ left right | and left right | or left right =>
    names left ++ names right
  | compare first links => names first ++ namesLinks links
  | choice condition yes no => names condition ++ (names yes ++ names no)

/-- The names that several expressions read. -/
def namesItems : List Expr → List Text
  | [] => []
  | e :: items => names e ++ namesItems items

/-- The names that the keys and values of a dictionary read. -/
def namesEntries : List (Expr × Expr) → List Text
  | [] => []
  | (key, e) :: entries => names key ++ (names e ++ namesEntries entries)

/-- The names that the operands in links read. -/
def namesLinks : List (Comparison × Expr) → List Text
  | [] => []
  | (_, e) :: links => names e ++ namesLinks links

end

end Expr

/-- The names that a statement reads. -/
def Statement.names : Statement → List Text
  | assign target (some _) e => target :: e.names
  | assign _ none e | evaluate e => e.names

/-- The names that an instruction reads. -/
def Instruction.names : Instruction → List Text
  | output e _ | branch e _ | repetition e _ => e.names
  | each header _ => header.items.names
  | exec statements => statements.flatMap Statement.names
  | literal _ | jump _ | next _ _ => []

/-- The names that a plan reads. -/
def Plan.names (plan : Plan) : List Text := plan.instructions.toList.flatMap Instruction.names

/-- An instruction of a plan reads names of the plan. -/
theorem Plan.mem_names {plan : Plan} {position : Nat} {i : Instruction}
    (hi : plan.get? position = some i) {name : Text} (h : name ∈ i.names) : name ∈ plan.names :=
  List.mem_flatMap.mpr ⟨i, Array.mem_toList_iff.mpr (Array.mem_of_getElem? hi), h⟩

end TemplateEngine

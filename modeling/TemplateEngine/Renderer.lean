import TemplateEngine.Expression.Eval
import TemplateEngine.Plan
import TemplateEngine.Stream

/-!
# Running a plan

A renderer is a position in a plan and a memory. One step runs one instruction; literals and
output yield a fragment each, and all else yields none.

The memory has a frame for every loop being run, with the items still to come and the names
the loop binds, the names that statements have bound (*locals*), and the context. A name
is looked up from the innermost loop outwards, then among the locals, then in the context;
`context` itself is the whole context unless something is bound to that name. A statement
writes to the innermost loop that binds the name, and else to the locals.
-/

namespace TemplateEngine

/-! ## Memory -/

/-- A loop being run. -/
structure LoopFrame where
  targets : List Text
  /-- the items still to come -/
  items : List Value
  bindings : Entries Value

namespace LoopFrame

/-- The names of a loop bound to an item: a single name to the item itself, several names to
the items of a list of the same length. -/
def bind (targets : List Text) (item : Value) (bindings : Entries Value) :
    Except RenderError (Entries Value) :=
  match targets, item with
  | [target], item => .ok (bindings.put target item)
  | targets, .list values =>
    if values.length = targets.length then
      .ok ((targets.zip values).foldl (fun b (target, value) => b.put target value) bindings)
    else .error (.type (.unpackCount values.length targets.length))
  | _, item => .error (.type (.unpack item.kind))

/-- The loop with its names bound to the next item, if there is one. -/
def advance (f : LoopFrame) : Except RenderError (Option LoopFrame) :=
  match f.items with
  | [] => .ok none
  | item :: items =>
    (bind f.targets item f.bindings).map fun bindings => some ⟨f.targets, items, bindings⟩

end LoopFrame

/-- Where names live while a plan is run. -/
structure Memory where
  /-- the loops being run, from the innermost -/
  loops : List LoopFrame
  /-- what statements have bound outside of loops -/
  locals : Entries Value
  context : Entries Value

namespace Memory

/-- The name under which the whole context is found. -/
def contextName : Text := "context".toList

/-- The value of a name. -/
def lookup (m : Memory) (name : Text) : Option Value :=
  (m.loops.findSome? (·.bindings.get? name)).or <| (m.locals.get? name).or <|
    (m.context.get? name).or <| if name = contextName then some (.dict m.context) else none

/-- The innermost loop that binds a name, with the name bound anew. -/
def assignLoop? (name : Text) (value : Value) : List LoopFrame → Option (List LoopFrame)
  | [] => none
  | f :: loops =>
    if f.bindings.has name then some ({ f with bindings := f.bindings.put name value } :: loops)
    else (assignLoop? name value loops).map (f :: ·)

/-- The memory with a name bound to a value. -/
def assign (m : Memory) (name : Text) (value : Value) : Memory :=
  match assignLoop? name value m.loops with
  | some loops => { m with loops := loops }
  | none => { m with locals := m.locals.put name value }

instance : Scope Memory := ⟨lookup, assign⟩

end Memory

/-! ## Steps -/

/-- A plan being run. -/
structure Renderer where
  plan : Plan
  position : Nat
  memory : Memory

namespace Renderer

/-- A plan about to be run. -/
def start (plan : Plan) (context : Entries Value) : Renderer := ⟨plan, 0, ⟨[], [], context⟩⟩

/-- The value of an expression at present. -/
def eval (r : Renderer) (e : Expr) : Except RenderError Value := e.eval r.memory.lookup

/-- Goes on elsewhere. -/
def goto (r : Renderer) (position : Nat) : Renderer := { r with position := position }

/-- Enters a loop over a value, or skips it if it has no items. -/
def enterLoop (r : Renderer) (header : LoopHeader) (otherwise : Nat) :
    Except RenderError Renderer := do
  let items ← (← r.eval header.items).iterate
  match ← LoopFrame.advance ⟨header.targets, items, []⟩ with
  | some frame =>
    return { r.goto (r.position + 1) with
      memory := { r.memory with loops := frame :: r.memory.loops } }
  | none => return r.goto otherwise

/-- Goes back to the body of the innermost loop for its next item, or leaves the loop. -/
def nextItem (r : Renderer) (body exit : Nat) : Except RenderError Renderer :=
  match r.memory.loops with
  | [] => .ok (r.goto exit)
  | f :: loops => do
    match ← f.advance with
    | some f => return { r.goto body with memory := { r.memory with loops := f :: loops } }
    | none => return { r.goto exit with memory := { r.memory with loops := loops } }

/-- Goes on if a condition holds, else elsewhere. -/
def test (r : Renderer) (condition : Expr) (otherwise : Nat) : Except RenderError Renderer := do
  return r.goto (if (← r.eval condition).truthy then r.position + 1 else otherwise)

/-- Runs statements. -/
def exec (r : Renderer) (statements : List Statement) : Except RenderError Renderer := do
  return { r.goto (r.position + 1) with memory := ← Statement.runAll r.memory statements }

/-- The text of a value, escaped for a language if there is one. -/
def write (r : Renderer) (e : Expr) (escape : Option Language) : Except RenderError Text := do
  let text := (← r.eval e).text
  return match escape with
    | some language => language.escape text
    | none => text

/-- A step without output. -/
def silently : Except RenderError Renderer → Pull Renderer
  | .ok r => .busy r
  | .error e => .failed e

/-- Runs one instruction. -/
def step (r : Renderer) : Pull Renderer :=
  match r.plan.get? r.position with
  | none => .finished
  | some (.literal text) => .fragment text (r.goto (r.position + 1))
  | some (.output e escape) =>
    match r.write e escape with
    | .ok text => .fragment text (r.goto (r.position + 1))
    | .error e => .failed e
  | some (.branch condition otherwise) => silently (r.test condition otherwise)
  | some (.jump target) => .busy (r.goto target)
  | some (.each header otherwise) => silently (r.enterLoop header otherwise)
  | some (.next body exit) => silently (r.nextItem body exit)
  | some (.repetition condition exit) => silently (r.test condition exit)
  | some (.exec statements) => silently (r.exec statements)

instance : Source Renderer := ⟨step⟩

end Renderer

end TemplateEngine

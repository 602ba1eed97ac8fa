import TemplateEngine.Context
import TemplateEngine.Outline
import TemplateEngine.Renderer

/-!
# What an outline means

An outline is run by recursion over its pieces. There are no positions and no jumps, and nothing
is kept of a loop but the names it binds: the items still to come are the argument of a
recursion (`Trace.eachItem`), and so are the rounds of a `while` (`Trace.rounds`).

A `while` may go on for ever, so a run is given the greatest number of rounds that any one
`while` may take at a time. A run that takes more is *cut*: the fragments up to there are
known, and nothing about what follows. Each run has one of three ends (`Finish`), and
`Trace.answers?` is what someone sees of it who asks for its items one by one.
-/

namespace TemplateEngine

/-! ## Scopes -/

/-- The names in scope. -/
structure Scopes where
  /-- the names bound by the loops around, from the innermost -/
  loops : List (Entries Value)
  /-- the names that statements have bound outside of loops -/
  locals : Entries Value
  context : Context

namespace Scopes

/-- The value of a name. -/
def lookup (s : Scopes) (name : Text) : Option Value :=
  (s.loops.findSome? (·.get? name)).or <| (s.locals.get? name).or <|
    (s.context.get? name).or <| if name = Memory.contextName then some s.context.toValue else none

/-- The innermost loop that binds a name, with the name bound anew. -/
def assignLoop? (name : Text) (value : Value) :
    List (Entries Value) → Option (List (Entries Value))
  | [] => none
  | names :: loops =>
    if names.has name then some (names.put name value :: loops)
    else (assignLoop? name value loops).map (names :: ·)

/-- The scopes with a name bound to a value. -/
def assign (s : Scopes) (name : Text) (value : Value) : Scopes :=
  match assignLoop? name value s.loops with
  | some loops => { s with loops := loops }
  | none => { s with locals := s.locals.put name value }

instance : Scope Scopes := ⟨lookup, assign⟩

/-- Whether a condition holds. -/
def test (s : Scopes) (condition : Expr) : Except RenderError Bool := do
  return (← condition.eval s.lookup).truthy

/-- The text of a value, escaped for a language if there is one. -/
def write (s : Scopes) (e : Expr) (escape : Option Language) : Except RenderError Text := do
  let text := (← e.eval s.lookup).text
  return match escape with
    | some language => language.escape text
    | none => text

/-- The items that a loop is over. -/
def items (s : Scopes) (header : LoopHeader) : Except RenderError (List Value) := do
  (← header.items.eval s.lookup).iterate

/-- The scopes inside a loop that has not bound a name yet. -/
def enterLoop (s : Scopes) : Scopes := { s with loops := [] :: s.loops }

/-- The scopes behind the innermost loop. -/
def leaveLoop (s : Scopes) : Scopes := { s with loops := s.loops.tail }

/-- The scopes with the names of the innermost loop bound to an item. -/
def bindItem (targets : List Text) (item : Value) (s : Scopes) : Except RenderError Scopes := do
  return { s with loops := (← LoopFrame.bind targets item (s.loops.headD [])) :: s.loops.tail }

end Scopes

/-! ## Traces -/

/-- How a run ends. -/
inductive Finish where
  | done (scopes : Scopes)
  | failed (error : RenderError)
  /-- a `while` went on for more rounds than it may -/
  | cut

/-- The fragments of a run, and its end. -/
structure Trace where
  fragments : List Text
  finish : Finish

namespace Trace

/-- A run without fragments that leaves some names in scope. -/
def done (s : Scopes) : Trace := ⟨[], .done s⟩

/-- A run that yields a fragment. -/
def write (s : Scopes) (text : Text) : Trace := ⟨[text], .done s⟩

/-- One run after another, which starts with the names that the first leaves in scope. -/
def andThen (t : Trace) (next : Scopes → Trace) : Trace :=
  match t.finish with
  | .done s => ⟨t.fragments ++ (next s).fragments, (next s).finish⟩
  | .failed _ | .cut => t

/-- A run that needs a result. -/
def attempt {α : Type} (result : Except RenderError α) (next : α → Trace) : Trace :=
  match result with
  | .ok a => next a
  | .error e => ⟨[], .failed e⟩

/-- Runs the body of a loop for each of its items, and leaves the loop. -/
def eachItem (targets : List Text) (body : Scopes → Trace) : List Value → Scopes → Trace
  | [], s => done s.leaveLoop
  | item :: items, s =>
    attempt (s.bindItem targets item) fun s => (body s).andThen (eachItem targets body items)

/-- Runs the body of a `while` as long as its condition holds, for some number of rounds at
most. -/
def rounds (condition : Expr) (body : Scopes → Trace) : (most : Nat) → Scopes → Trace
  | 0, _ => ⟨[], .cut⟩
  | most + 1, s =>
    attempt (s.test condition) fun holds =>
      if holds then (body s).andThen (rounds condition body most) else done s

end Trace

/-! ## Running outlines -/

mutual

/-- Runs a piece. -/
def Piece.run (most : Nat) : Piece → Scopes → Trace
  | .literal text, s => .write s text
  | .output value escape, s => .attempt (s.write value escape) (.write s)
  | .exec statements, s => .attempt (Statement.runAll s statements) .done
  | .branch condition yes none, s =>
    .attempt (s.test condition) fun holds => if holds then Piece.runAll most yes s else .done s
  | .branch condition yes (some no), s =>
    .attempt (s.test condition) fun holds =>
      if holds then Piece.runAll most yes s else Piece.runAll most no s
  | .loop header body none, s =>
    .attempt (s.items header) fun items =>
      if items.isEmpty then .done s
      else .eachItem header.targets (Piece.runAll most body) items s.enterLoop
  | .loop header body (some empty), s =>
    .attempt (s.items header) fun items =>
      if items.isEmpty then Piece.runAll most empty s
      else .eachItem header.targets (Piece.runAll most body) items s.enterLoop
  | .repetition condition body, s => .rounds condition (Piece.runAll most body) most s

/-- Runs pieces from left to right. -/
def Piece.runAll (most : Nat) : List Piece → Scopes → Trace
  | [], s => .done s
  | piece :: pieces, s => (Piece.run most piece s).andThen (Piece.runAll most pieces)

end

/-- Runs an outline in a context, with some number of rounds of each `while` at most. -/
def Outline.run (most : Nat) (outline : Outline) (context : Context) : Trace :=
  Piece.runAll most outline ⟨[], [], context⟩

/-! ## Answers -/

/-- The answers behind the last fragment. -/
def Finish.answers? (count : Nat) : Finish → Option Answers
  | .done _ => some (.replicate count none)
  | .failed e =>
    match count with
    | 0 => some []
    | count + 1 => some (some (.error e) :: .replicate count none)
  | .cut => if count = 0 then some [] else none

/-- The answers to `count` requests, if the run was not cut before. -/
def Trace.answers? (count : Nat) (t : Trace) : Option Answers :=
  (t.finish.answers? (count - t.fragments.length)).map fun rest =>
    (t.fragments.take count).map (some <| .ok ·) ++ rest

end TemplateEngine

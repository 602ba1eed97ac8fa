import TemplateEngine.Comment
import TemplateEngine.Expression.Grammar
import TemplateEngine.Outline.Marks
import TemplateEngine.Plan
import TemplateEngine.Tag.Place
import TemplateEngine.TemplateError

/-!
# Assembling a plan

The marks of a template are read from left to right, and every mark adds its instructions at
the end of the code. Where an instruction must lead to is not known when it is added: it
leads to 0 at first, and its position is kept until its target is reached.

What is open at a place is kept in an `Assembly`. It has one stack of frames, one for each
open construct with the positions that still wait for a target, and three stacks of opening
tags without an end tag, for `if`, `for` and `while` each. An end tag asks only
whether a construct of its kind is open anywhere; what it closes is the innermost frame,
whatever its kind. The tags `elif`, `else` and `empty` ask the same and then need a fitting
innermost frame.
-/

namespace TemplateEngine

/-! ## Assemblies -/

/-- An open construct, and the positions that wait for a target. -/
inductive Frame where
  /-- `if`: the branch of the last arm, unless that is an `else`, and the jumps behind the arms
  before it -/
  | branch (pending : Option Nat) (exits : List Nat)
  /-- `for`: its first instruction, and the last one of its body once it has an `empty` part -/
  | loop (head : Nat) (next : Option Nat)
  /-- `while`: its first instruction -/
  | repetition (head : Nat)
  deriving DecidableEq

/-- What has been read of a template. -/
structure Assembly where
  code : Array Instruction := #[]
  /-- the open constructs, from the innermost -/
  frames : List Frame := []
  /-- the `if` tags without an end tag, from the last -/
  branches : List Tag.Found := []
  /-- the `for` tags without an end tag, from the last -/
  loops : List Tag.Found := []
  /-- the `while` tags without an end tag, from the last -/
  repetitions : List Tag.Found := []
  /-- the modes of open autoescape sections, from the innermost -/
  modes : List Bool := []

namespace Assembly

/-! ### Code -/

/-- The position of the next instruction. -/
def here (a : Assembly) : Nat := a.code.size

/-- Adds an instruction. -/
def push (a : Assembly) (i : Instruction) : Assembly := { a with code := a.code.push i }

@[simp] theorem code_push (a : Assembly) (i : Instruction) : (a.push i).code = a.code.push i := rfl

/-- Leads the instructions at some positions to what comes next. -/
def land (a : Assembly) (positions : List Nat) : Assembly :=
  { a with
    code := positions.foldl (fun code position => code.modify position (·.lead a.here)) a.code }

/-! ### Constructs -/

/-- Opens a construct that begins with an instruction. -/
def enter (a : Assembly) (i : Instruction) (frame : Frame) : Assembly :=
  { a.push i with frames := frame :: a.frames }

/-- Ends an arm of an `if`, whose frame has been taken from the stack, and begins another. -/
def beginArm (a : Assembly) (pending : Nat) (exits : List Nat) (condition : Option Expr) :
    Assembly :=
  let b := (a.push (.jump 0)).land [pending]
  match condition with
  | some e => b.enter (.branch e 0) (.branch (some b.here) (exits ++ [a.here]))
  | none => { b with frames := .branch none (exits ++ [a.here]) :: b.frames }

/-- Ends the body of a loop, whose frame has been taken from the stack, and begins its `empty`
part. -/
def beginEmpty (a : Assembly) (head : Nat) : Assembly :=
  let b := (a.push (.next (head + 1) 0)).land [head]
  { b with frames := .loop head (some a.here) :: b.frames }

/-- Ends the code of a construct whose frame has been taken from the stack. -/
def conclude (a : Assembly) : Frame → Assembly
  | .branch pending exits => a.land (pending.toList ++ exits)
  | .loop head none => (a.push (.next (head + 1) 0)).land [a.here, head]
  | .loop _ (some next) => a.land [next]
  | .repetition head => (a.push (.jump head)).land [head]

/-- Closes the innermost construct. -/
def leave (a : Assembly) : Assembly :=
  match a.frames with
  | [] => a
  | frame :: frames => { a with frames := frames }.conclude frame

/-- The opening tags of a construct that have no end tag yet. -/
def opens (a : Assembly) : Construct → List Tag.Found
  | .branch => a.branches
  | .loop => a.loops
  | .repetition => a.repetitions
  | _ => []

/-- Forgets the last opening tag of a construct. -/
def forget (a : Assembly) : Construct → Assembly
  | .branch => { a with branches := a.branches.tail }
  | .loop => { a with loops := a.loops.tail }
  | .repetition => { a with repetitions := a.repetitions.tail }
  | _ => a

/-! ### Reading tags -/

section

variable (text : Text) (found : Tag.Found)

/-- The error of a tag in the wrong place. -/
def misuse {α : Type} (fault : SyntaxFault) : Except TemplateError α :=
  .error (.misuse (found.span text) fault)

/-- What was parsed from the tag. -/
def parsed {α : Type} (result : Except ParseError α) : Except TemplateError α :=
  match result with
  | .ok a => .ok a
  | .error e => misuse text found (.invalidExpression e)

/-- Closes the innermost construct for the end tag of a construct. -/
def close (a : Assembly) (construct : Construct) : Except TemplateError Assembly :=
  match a.opens construct with
  | [] => misuse text found (.notOpen construct)
  | _ :: _ => .ok (a.forget construct).leave

/-- Ends an arm of the innermost `if` and begins another, which has a condition unless it is an
`else`. -/
def nextArm (a : Assembly) (arm : Arm) (condition : Option Expr) :
    Except TemplateError Assembly :=
  if a.branches.isEmpty then misuse text found (.notOpen .branch)
  else match a.frames with
    | .branch (some pending) exits :: frames =>
      .ok ({ a with frames := frames }.beginArm pending exits condition)
    | _ => misuse text found (.misplaced arm)

/-- Ends the body of the innermost loop and begins its `empty` part. -/
def emptyArm (a : Assembly) : Except TemplateError Assembly :=
  if a.loops.isEmpty then misuse text found (.notOpen .loop)
  else match a.frames with
    | .loop head none :: frames => .ok ({ a with frames := frames }.beginEmpty head)
    | _ => misuse text found (.misplaced .empty)

/-- Reads a statement tag. -/
def directive (a : Assembly) : Directive → Except TemplateError Assembly
  | .openIf condition => do
    let e ← parsed text found (Expr.parse condition)
    return { a.enter (.branch e 0) (.branch (some a.here) []) with
      branches := found :: a.branches }
  | .elif condition => do
    let e ← parsed text found (Expr.parse condition)
    a.nextArm text found .elif (some e)
  | .otherwise => a.nextArm text found .otherwise none
  | .endIf => a.close text found .branch
  | .openFor header => do
    let header ← parsed text found (LoopHeader.parse header)
    return { a.enter (.each header 0) (.loop a.here none) with loops := found :: a.loops }
  | .empty => a.emptyArm text found
  | .endFor => a.close text found .loop
  | .openWhile condition => do
    let e ← parsed text found (Expr.parse condition)
    return { a.enter (.repetition e 0) (.repetition a.here) with
      repetitions := found :: a.repetitions }
  | .endWhile => a.close text found .repetition
  | .exec code => do
    let statements ← parsed text found (Statement.parseAll code)
    return a.push (.exec statements)
  | .autoescape mode =>
    if mode = "on".toList then .ok { a with modes := true :: a.modes }
    else if mode = "off".toList then .ok { a with modes := false :: a.modes }
    else .error (.unknownAutoescapeMode mode)
  | .endAutoescape =>
    match a.modes with
    | [] => misuse text found (.notOpen .autoescape)
    | _ :: modes => .ok { a with modes := modes }
  | .strayEndBlock => misuse text found (.notOpen .block)
  | .strayExtends => misuse text found .misusedExtends
  | .unknown => misuse text found (.unknown found.tag.content)

end

/-! ### Reading templates -/

/-- Reads a mark. -/
def mark (o : Options) (text : Text) (a : Assembly) : Mark → Except TemplateError Assembly
  | .text literal => .ok (a.push (.literal literal))
  | .expression found body => do
    let e ← parsed text found (Expr.parse body)
    return a.push (.output e (o.escape a.modes))
  | .statement found directive => a.directive text found directive

/-- Reads marks. -/
def read (o : Options) (text : Text) (a : Assembly) (marks : List Mark) :
    Except TemplateError Assembly :=
  marks.foldlM (mark o text) a

/-- The oldest opening tag without an end tag, of an `if` if there is one, else of a `for`, else
of a `while`. -/
def unclosed? (a : Assembly) : Option (Construct × Tag.Found) :=
  [Construct.branch, .loop, .repetition].findSome? fun construct =>
    (a.opens construct).getLast?.map fun found => (construct, found)

/-- The plan, if nothing is left open. -/
def finish (text : Text) (a : Assembly) : Except TemplateError Plan :=
  match a.unclosed? with
  | some (construct, found) => misuse text found (.notClosed construct)
  | none => .ok ⟨a.code⟩

end Assembly

namespace Plan

/-- The plan of a template without comments. -/
def read (o : Options) (text : Text) : Except TemplateError Plan := do
  let a ← Assembly.read o text {} (Outline.marks o text)
  a.finish text

/-- The plan of a composed template. -/
def compile (o : Options) (source : Text) : Except TemplateError Plan :=
  read o (source.stripComments o)

end Plan

end TemplateEngine

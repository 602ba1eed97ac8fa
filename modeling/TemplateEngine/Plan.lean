import TemplateEngine.Expression
import TemplateEngine.Language

/-!
# Plans

A plan is what a renderer runs: a flat list of instructions in which control structures are
jumps to absolute positions. It lays out the constructs of a template like this:

    if:     a  branch → b    yes …    jump → e
            b  branch → c    yes …    jump → e
            c  no …
            e
    for:    h  each → m      body …   next → h + 1 or e
            m  empty …
            e
    while:  h  repetition → e   body …   jump → h
            e

The last arm of an `if` has no jump behind it, and without an `else` part the last branch
leads to the end; without an `empty` part the loop leads to the end.
-/

namespace TemplateEngine

/-- Instructions. -/
inductive Instruction where
  | literal (text : Text)
  | output (value : Expr) (escape : Option Language)
  /-- go on if the condition holds, else elsewhere -/
  | branch (condition : Expr) (otherwise : Nat)
  | jump (target : Nat)
  /-- start a loop, or go elsewhere if it has no items -/
  | each (header : LoopHeader) (otherwise : Nat)
  /-- go back to the body for the next item, or leave the loop -/
  | next (body exit : Nat)
  /-- go on if the condition holds, else leave -/
  | repetition (condition : Expr) (exit : Nat)
  | exec (statements : List Statement)

/-- The instruction with its way out led to another position. The way from `next` back to the
body stays as it is. -/
def Instruction.lead (target : Nat) : Instruction → Instruction
  | branch condition _ => branch condition target
  | jump _ => jump target
  | each header _ => each header target
  | next body _ => next body target
  | repetition condition _ => repetition condition target
  | other => other

/-- Instructions at the positions 0, 1, … -/
structure Plan where
  instructions : Array Instruction

namespace Plan

/-- The number of instructions. -/
def size (p : Plan) : Nat := p.instructions.size

/-- The instruction at a position. -/
def get? (p : Plan) (position : Nat) : Option Instruction := p.instructions[position]?

end Plan

end TemplateEngine

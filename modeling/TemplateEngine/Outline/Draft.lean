import TemplateEngine.Expression.Grammar
import TemplateEngine.Outline.Layout
import TemplateEngine.Plan.Assembly

/-!
# Drafts

A draft is an outline that is still being read: the pieces read so far, and a *part* for every
construct that is open. It follows the same marks as an assembly does, and every end tag
closes the innermost part; but where an assembly has instructions that wait for a target, a
draft has the pieces themselves.

`Draft.code` lays a draft out as far as it goes. What is closed has its targets, and what still
waits leads to 0. `Draft.frames` gives the positions that wait.
-/

namespace TemplateEngine

/-! ## Parts -/

/-- The form of an open construct. -/
inductive Opened where
  /-- an `if` or `elif`, behind its earlier arms -/
  | branch (earlier : List (Expr × List Piece)) (condition : Expr)
  /-- an `else`, behind the arms with a condition -/
  | otherwise (arms : List (Expr × List Piece))
  | loop (header : LoopHeader)
  /-- an `empty`, behind the body of its loop -/
  | empty (header : LoopHeader) (body : List Piece)
  | repetition (condition : Expr)

/-- An open construct, and the pieces read for its last arm. -/
structure Part where
  opened : Opened
  pieces : List Piece := []

/-- Arms with a condition, and what follows the last of them: each arm is an `if` in the `else`
part of the one before it. -/
def Piece.chain : (arms : List (Expr × List Piece)) → (no : List Piece) → List Piece
  | [], no => no
  | (condition, yes) :: arms, no => [.branch condition yes (some (chain arms no))]

/-- What a part becomes when it is closed. -/
def Part.close (part : Part) : List Piece :=
  match part.opened with
  | .branch earlier condition => Piece.chain earlier [.branch condition part.pieces none]
  | .otherwise arms => Piece.chain arms part.pieces
  | .loop header => [.loop header part.pieces none]
  | .empty header body => [.loop header body (some part.pieces)]
  | .repetition condition => [.repetition condition part.pieces]

/-! ## Drafts -/

/-- What has been read of an outline. -/
structure Draft where
  /-- the pieces outside all open constructs -/
  pieces : List Piece := []
  /-- the open constructs, from the innermost -/
  parts : List Part := []
  /-- the modes of open autoescape sections, from the innermost -/
  modes : List Bool := []

namespace Draft

/-- Adds pieces to what is read at present. -/
def add (d : Draft) (pieces : List Piece) : Draft :=
  match d.parts with
  | [] => { d with pieces := d.pieces ++ pieces }
  | part :: parts => { d with parts := { part with pieces := part.pieces ++ pieces } :: parts }

/-- Opens a construct. -/
def enter (d : Draft) (opened : Opened) : Draft := { d with parts := ⟨opened, []⟩ :: d.parts }

/-- Closes the innermost construct. -/
def leave : Draft → Option Draft
  | ⟨_, [], _⟩ => none
  | ⟨pieces, part :: parts, modes⟩ => some ((⟨pieces, parts, modes⟩ : Draft).add part.close)

/-- Ends an arm of the innermost `if` and begins another. -/
def nextArm (begin : List (Expr × List Piece) → Opened) : Draft → Option Draft
  | ⟨pieces, ⟨.branch earlier condition, yes⟩ :: parts, modes⟩ =>
    some ⟨pieces, ⟨begin (earlier ++ [(condition, yes)]), []⟩ :: parts, modes⟩
  | _ => none

/-- Ends the body of the innermost loop and begins its `empty` part. -/
def emptyArm : Draft → Option Draft
  | ⟨pieces, ⟨.loop header, body⟩ :: parts, modes⟩ =>
    some ⟨pieces, ⟨.empty header body, []⟩ :: parts, modes⟩
  | _ => none

/-- Reads a statement tag. -/
def directive (d : Draft) (directive : Directive) : Option Draft :=
  match directive with
  | .openIf condition => do return d.enter (.branch [] (← (Expr.parse condition).toOption))
  | .elif condition => do
    let e ← (Expr.parse condition).toOption
    d.nextArm (.branch · e)
  | .otherwise => d.nextArm .otherwise
  | .openFor header => do return d.enter (.loop (← (LoopHeader.parse header).toOption))
  | .empty => d.emptyArm
  | .openWhile condition => do
    return d.enter (.repetition (← (Expr.parse condition).toOption))
  | .endIf | .endFor | .endWhile => d.leave
  | .exec code => do return d.add [.exec (← (Statement.parseAll code).toOption)]
  | .autoescape _ | .endAutoescape => do return { d with modes := ← directive.modes? d.modes }
  | .strayEndBlock | .strayExtends | .unknown => none

/-- Reads a mark. -/
def mark (o : Options) (d : Draft) : Mark → Option Draft
  | .text literal => some (d.add [.literal literal])
  | .expression _ body => do
    return d.add [.output (← (Expr.parse body).toOption) (o.escape d.modes)]
  | .statement _ directive => d.directive directive

/-- Reads marks. -/
def read (o : Options) (d : Draft) (marks : List Mark) : Option Draft := marks.foldlM (mark o) d

end Draft

/-! ## The layout of a draft -/

namespace Piece

/-- The number of instructions of arms that have another arm behind them. -/
def widthArms : List (Expr × List Piece) → Nat
  | [] => 0
  | (_, yes) :: arms => widthAll yes + widthArms arms + 2

/-- The instructions of arms that have another arm behind them, with the jumps behind the arms
led to `exit`. -/
def emitArms (exit start : Nat) : List (Expr × List Piece) → List Instruction
  | [] => []
  | (condition, yes) :: arms =>
    let other := start + widthAll yes + 2
    .branch condition other :: (emitAll (start + 1) yes ++ .jump exit :: emitArms exit other arms)

/-- Where the jumps behind these arms stand. -/
def exits (start : Nat) : List (Expr × List Piece) → List Nat
  | [] => []
  | (_, yes) :: arms => (start + widthAll yes + 1) :: exits (start + widthAll yes + 2) arms

end Piece

namespace Part

/-- The instructions of a part that begins at position `start`. -/
def code (start : Nat) (part : Part) : List Instruction :=
  match part.opened with
  | .branch earlier condition =>
    let last := start + Piece.widthArms earlier
    Piece.emitArms 0 start earlier ++ .branch condition 0 :: Piece.emitAll (last + 1) part.pieces
  | .otherwise arms =>
    Piece.emitArms 0 start arms ++ Piece.emitAll (start + Piece.widthArms arms) part.pieces
  | .loop header => .each header 0 :: Piece.emitAll (start + 1) part.pieces
  | .empty header body =>
    let other := start + Piece.widthAll body + 2
    .each header other :: (Piece.emitAll (start + 1) body
      ++ .next (start + 1) 0 :: Piece.emitAll other part.pieces)
  | .repetition condition => .repetition condition 0 :: Piece.emitAll (start + 1) part.pieces

/-- The positions that wait in a part that begins at position `start`. -/
def frame (start : Nat) (part : Part) : Frame :=
  match part.opened with
  | .branch earlier _ =>
    .branch (some (start + Piece.widthArms earlier)) (Piece.exits start earlier)
  | .otherwise arms => .branch none (Piece.exits start arms)
  | .loop _ => .loop start none
  | .empty _ body => .loop start (some (start + Piece.widthAll body + 1))
  | .repetition _ => .repetition start

end Part

namespace Draft

/-- The instructions of pieces and of the parts open behind them. -/
def codeOf (pieces : List Piece) : List Part → List Instruction
  | [] => Piece.emitAll 0 pieces
  | part :: parts => codeOf pieces parts ++ part.code (codeOf pieces parts).length

/-- The positions that wait in parts open behind some pieces. -/
def framesOf (pieces : List Piece) : List Part → List Frame
  | [] => []
  | part :: parts => part.frame (codeOf pieces parts).length :: framesOf pieces parts

/-- The instructions of a draft. -/
def code (d : Draft) : List Instruction := codeOf d.pieces d.parts

/-- The positions that wait in a draft. -/
def frames (d : Draft) : List Frame := framesOf d.pieces d.parts

end Draft

end TemplateEngine

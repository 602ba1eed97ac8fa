import TemplateEngine.Outline
import TemplateEngine.Plan

/-!
# The layout of an outline

Where the instructions of an outline stand in a plan is fixed by how many instructions each
piece takes (`Piece.width`). `Piece.emit` writes them down with all jumps led to their targets,
as the module on plans draws it. An `elif` is an `if` that stands alone in the `else` part of
another, so the jump behind every arm leads to the end of the whole.

`Outline.induct` is how statements about outlines are proved: piece by piece, with the pieces
inside a piece and those behind it as the smaller outlines.
-/

namespace TemplateEngine

/-! ## Induction -/

/-- Induction over outlines, with one case for each form of the first piece. -/
@[elab_as_elim]
theorem Outline.induct {motive : List Piece → Prop} (nil : motive [])
    (literal : ∀ text rest, motive rest → motive (.literal text :: rest))
    (output : ∀ value escape rest, motive rest → motive (.output value escape :: rest))
    (exec : ∀ statements rest, motive rest → motive (.exec statements :: rest))
    (single : ∀ condition yes rest, motive yes → motive rest →
      motive (.branch condition yes none :: rest))
    (double : ∀ condition yes no rest, motive yes → motive no → motive rest →
      motive (.branch condition yes (some no) :: rest))
    (plain : ∀ header body rest, motive body → motive rest →
      motive (.loop header body none :: rest))
    (guarded : ∀ header body empty rest, motive body → motive empty → motive rest →
      motive (.loop header body (some empty) :: rest))
    (repetition : ∀ condition body rest, motive body → motive rest →
      motive (.repetition condition body :: rest)) :
    ∀ outline, motive outline
  | [] => nil
  | .literal text :: rest => literal text rest (go rest)
  | .output value escape :: rest => output value escape rest (go rest)
  | .exec statements :: rest => exec statements rest (go rest)
  | .branch condition yes none :: rest => single condition yes rest (go yes) (go rest)
  | .branch condition yes (some no) :: rest =>
    double condition yes no rest (go yes) (go no) (go rest)
  | .loop header body none :: rest => plain header body rest (go body) (go rest)
  | .loop header body (some empty) :: rest =>
    guarded header body empty rest (go body) (go empty) (go rest)
  | .repetition condition body :: rest => repetition condition body rest (go body) (go rest)
where
  /-- The induction hypothesis of a smaller outline. -/
  go (outline : List Piece) : motive outline :=
    Outline.induct nil literal output exec single double plain guarded repetition outline

/-! ## Widths -/

mutual

/-- The number of instructions of a piece. -/
def Piece.width : Piece → Nat
  | .literal _ | .output _ _ | .exec _ => 1
  | .branch _ yes none => Piece.widthAll yes + 1
  | .branch _ yes (some no) => Piece.widthAll yes + Piece.widthAll no + 2
  | .loop _ body none => Piece.widthAll body + 2
  | .loop _ body (some empty) => Piece.widthAll body + Piece.widthAll empty + 2
  | .repetition _ body => Piece.widthAll body + 2

/-- The number of instructions of pieces. -/
def Piece.widthAll : List Piece → Nat
  | [] => 0
  | piece :: pieces => Piece.width piece + Piece.widthAll pieces

end

/-! ## Instructions -/

mutual

/-- The instructions of a piece that begins at position `start`. -/
def Piece.emit (start : Nat) : Piece → List Instruction
  | .literal text => [.literal text]
  | .output value escape => [.output value escape]
  | .exec statements => [.exec statements]
  | .branch condition yes none =>
    .branch condition (start + Piece.widthAll yes + 1) :: Piece.emitAll (start + 1) yes
  | .branch condition yes (some no) =>
    let other := start + Piece.widthAll yes + 2
    .branch condition other :: (Piece.emitAll (start + 1) yes
      ++ .jump (other + Piece.widthAll no) :: Piece.emitAll other no)
  | .loop header body none =>
    let stop := start + Piece.widthAll body + 2
    .each header stop :: (Piece.emitAll (start + 1) body ++ [.next (start + 1) stop])
  | .loop header body (some empty) =>
    let other := start + Piece.widthAll body + 2
    .each header other :: (Piece.emitAll (start + 1) body
      ++ .next (start + 1) (other + Piece.widthAll empty) :: Piece.emitAll other empty)
  | .repetition condition body =>
    .repetition condition (start + Piece.widthAll body + 2)
      :: (Piece.emitAll (start + 1) body ++ [.jump start])

/-- The instructions of pieces that begin at position `start`. -/
def Piece.emitAll (start : Nat) : List Piece → List Instruction
  | [] => []
  | piece :: pieces =>
    Piece.emit start piece ++ Piece.emitAll (start + Piece.width piece) pieces

end

/-- The plan of an outline. -/
def Outline.plan (outline : Outline) : Plan := ⟨(Piece.emitAll 0 outline).toArray⟩

namespace Piece

@[simp] theorem length_emitAll (start : Nat) (pieces : List Piece) :
    (emitAll start pieces).length = widthAll pieces := by
  induction pieces using Outline.induct generalizing start with
  | nil => rfl
  | literal _ _ ih | output _ _ _ ih | exec _ _ ih =>
    simp only [emitAll, emit, widthAll, width, List.length_append, List.length_singleton, ih]
  | single _ _ _ ihb ih | plain _ _ _ ihb ih | repetition _ _ _ ihb ih =>
    simp only [emitAll, emit, widthAll, width, List.length_append, List.length_cons,
      List.length_nil, ihb, ih]
  | double _ _ _ _ ihb ihe ih | guarded _ _ _ _ ihb ihe ih =>
    simp only [emitAll, emit, widthAll, width, List.length_append, List.length_cons, ihb, ihe, ih]
    omega

@[simp] theorem length_emit (start : Nat) (piece : Piece) :
    (emit start piece).length = piece.width := by
  have h := length_emitAll start [piece]
  simpa [emitAll, widthAll] using h

/-- Where an `if` with an `else` part ends: behind both arms and what leads over them. -/
theorem add_width_double (start : Nat) (condition : Expr) (yes no : List Piece) :
    start + widthAll yes + 2 + widthAll no = start + (branch condition yes (some no)).width := by
  rw [width]
  omega

/-- Where a loop with an `empty` part ends. -/
theorem add_width_guarded (start : Nat) (header : LoopHeader) (body empty : List Piece) :
    start + widthAll body + 2 + widthAll empty
      = start + (loop header body (some empty)).width := by
  rw [width]
  omega

theorem emitAll_append (start : Nat) (before behind : List Piece) :
    emitAll start (before ++ behind)
      = emitAll start before ++ emitAll (start + widthAll before) behind := by
  induction before generalizing start with
  | nil => simp [emitAll, widthAll]
  | cons piece before ih => simp [emitAll, widthAll, ih, Nat.add_assoc]

end Piece

end TemplateEngine

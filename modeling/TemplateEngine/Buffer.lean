import TemplateEngine.Excerpt
import TemplateEngine.Tag.Search
import TemplateEngine.TemplateError

/-!
# Buffers

A piece of a text can be named by the bytes where it begins and ends. That is how tags are handed
on while a text is changed in place: the text is a *buffer*, and a tag is its offsets in it
(`Place`). Nothing keeps such offsets from going stale, so every access checks them: the piece must
lie in the buffer and may not cut a character in two. What fails a check ends in `outOfRange`.

All work on a buffer is a loop over the tags of some kinds (`Buffer.loop`). Every turn must leave
less to search than there was, else the loop ends in `stuck`.
-/

namespace TemplateEngine

/-- Why work on a buffer ends without a result. -/
inductive Halt where
  /-- something is wrong with a template -/
  | error (e : TemplateError)
  /-- an access with offsets that do not fit the buffer -/
  | outOfRange
  /-- a turn that leaves no less to search -/
  | stuck
  deriving DecidableEq

/-- What needs no offsets fails only for a template error. -/
def Halt.lift {α : Type} (result : Except TemplateError α) : Except Halt α :=
  result.mapError .error

/-- A tag and the bytes where it begins and ends. -/
structure Place where
  start : Nat
  stop : Nat
  tag : Tag

/-- The place of a tag that was found from some offset on. -/
def Place.of (offset : Nat) (found : Tag.Found) : Place :=
  ⟨offset + found.gap.byteSize, offset + found.gap.byteSize + found.tag.content.byteSize,
    found.tag⟩

namespace Buffer

/-! ## Accesses -/

/-- The piece of a buffer between two offsets, with what stands on both sides. -/
def span (buffer : Text) (start stop : Nat) : Except Halt Span :=
  match Span.ofBytes? buffer start stop with
  | some s => .ok s
  | none => .error .outOfRange

/-- The piece of a buffer between two offsets. -/
def slice (buffer : Text) (start stop : Nat) : Except Halt Text := do
  return (← span buffer start stop).content

/-- What follows an offset. -/
def behind (buffer : Text) (offset : Nat) : Except Halt Text := slice buffer offset buffer.byteSize

/-- The buffer with another text in place of the piece between two offsets. -/
def replace (buffer : Text) (start stop : Nat) (new : Text) : Except Halt Text := do
  let s ← span buffer start stop
  return s.before ++ new ++ s.after

/-- The first tag of any of the kinds that begins at an offset or behind it. -/
def search (kinds : List TagKind) (buffer : Text) (offset : Nat) : Except Halt (Option Place) := do
  let rest ← behind buffer offset
  return (Tag.find kinds rest).map (.of offset)

/-- The error that blames a tag. -/
def blame {α : Type} (buffer : Text) (place : Place) (fault : SyntaxFault) : Except Halt α := do
  let token ← span buffer place.start place.stop
  throw (.error (.misuse token fault))

/-! ## Loops -/

/-- Where a loop stands. -/
structure Cursor (σ : Type) where
  /-- what has been gathered -/
  state : σ
  buffer : Text
  /-- where the search goes on -/
  offset : Nat

/-- The bytes that are left to search. -/
def Cursor.left {σ : Type} (c : Cursor σ) : Nat := c.buffer.byteSize - c.offset

/-- Takes a turn at each tag of the kinds, and comes to an end behind the last one. -/
def loop {σ α : Type} (kinds : List TagKind) (turn : Cursor σ → Place → Except Halt (Cursor σ))
    (last : Cursor σ → Except Halt α) (c : Cursor σ) : Except Halt α := do
  match ← search kinds c.buffer c.offset with
  | none => last c
  | some place =>
    let next ← turn c place
    if next.left < c.left then loop kinds turn last next else throw .stuck
termination_by c.left

end Buffer

/-- The piece is a tag: searched from where it begins, the text has a tag there that ends where it
ends. -/
def Span.IsTag (s : Span) : Prop := ∃ kind tag, Buffer.search [kind] s.source s.before.byteSize
  = .ok (some ⟨s.before.byteSize, s.before.byteSize + s.content.byteSize, tag⟩)

end TemplateEngine

import TemplateEngine.Buffer
import TemplateEngine.Stream

/-!
# Chunks in place

Fragments as they are regrouped in one buffer. Text that has been handed out is not taken out of the
buffer at once: an offset says where the rest begins, and a fragment that comes in is put behind
that rest alone. A `Chunker` holds no stream. In each turn it hands out a chunk, or asks the stream
for a fragment and is told what it gets (`Chunker.receive`), or has come to its end.
-/

namespace TemplateEngine.Buffer

/-- Where the characters of a text begin that stands at an offset. -/
def starts : (offset : Nat) → Text → List Nat
  | _, [] => []
  | offset, c :: text => offset :: starts (offset + c.utf8Size) text

/-- What regroups fragments into chunks of `size` characters. -/
structure Chunker where
  size : Nat
  size_pos : 0 < size
  buffer : Text
  /-- where the text begins that has not been handed out -/
  start : Nat
  /-- there are no more fragments -/
  done : Bool

namespace Chunker

/-- Before the first fragment. -/
def new (size : Nat) (size_pos : 0 < size) : Chunker := ⟨size, size_pos, [], 0, false⟩

/-- What comes of a turn. -/
inductive Turn where
  /-- a chunk is handed out -/
  | give (chunk : Text) (rest : Chunker)
  /-- the stream is asked for a fragment -/
  | ask
  /-- nothing is left -/
  | over

/-- Splits a full chunk off the rest, if it holds one. It ends where as many characters end, which
is where another one begins or the rest ends. -/
def splitChunk? (c : Chunker) : Except Halt (Option (Text × Chunker)) := do
  let pending ← behind c.buffer c.start
  match (starts 0 pending ++ [pending.byteSize])[c.size]? with
  | some stop => return some (← slice pending 0 stop, { c with start := c.start + stop })
  | none => return none

/-- All that is left is handed out, if there is anything. -/
def takeRest (c : Chunker) : Except Halt Turn := do
  let pending ← behind c.buffer c.start
  return if pending.isEmpty then .over else .give pending { c with buffer := [], start := 0 }

/-- One turn. -/
def turn (c : Chunker) : Except Halt Turn := do
  match ← c.splitChunk? with
  | some (chunk, rest) => return .give chunk rest
  | none => if c.done then c.takeRest else return .ask

/-- Puts a fragment behind the rest. What has been handed out is dropped. -/
def fill (c : Chunker) (fragment : Text) : Except Halt Chunker := do
  return { c with buffer := (← behind c.buffer c.start) ++ fragment, start := 0 }

/-- Takes what the stream gives: a fragment, an error, or nothing at its end. -/
def receive (c : Chunker) : Option (Except RenderError Text) → Except Halt Chunker
  | some (.ok fragment) => c.fill fragment
  | some (.error _) => return { c with buffer := [], start := 0, done := true }
  | none => return { c with done := true }

end Chunker

end TemplateEngine.Buffer

import TemplateEngine.Stream

/-!
# Chunks

A stream of fragments regrouped into pieces of a fixed number of characters. Only the last
piece may be shorter. Text that has been received and not delivered waits in a buffer; the
source behind it is asked only when the buffer holds less than a chunk. If the source
fails, the text in the buffer is lost.
-/

namespace TemplateEngine

/-- A source regrouped into chunks. -/
structure Chunks (σ : Type) where
  /-- the number of characters of a chunk -/
  size : Nat
  size_pos : 0 < size
  /-- text received and not delivered -/
  buffer : Text
  /-- what is regrouped, until it has ended -/
  source : Option σ

namespace Chunks

variable {σ : Type}

/-- The chunks of a source. -/
def ofSource (s : σ) (size : Nat) (size_pos : 0 < size) : Chunks σ := ⟨size, size_pos, [], some s⟩

/-- One step: deliver a full chunk, or ask the source, or deliver what is left. -/
def pull [Source σ] (c : Chunks σ) : Pull (Chunks σ) :=
  if c.size ≤ c.buffer.length then
    .fragment (c.buffer.take c.size) { c with buffer := c.buffer.drop c.size }
  else match c.source with
    | none => if c.buffer.isEmpty then .finished else .fragment c.buffer { c with buffer := [] }
    | some s =>
      match Source.pull s with
      | .fragment text rest => .busy { c with buffer := c.buffer ++ text, source := some rest }
      | .failed e => .failed e
      | .finished => .busy { c with source := none }
      | .busy rest => .busy { c with source := some rest }

instance [Source σ] : Source (Chunks σ) := ⟨pull⟩

end Chunks

end TemplateEngine

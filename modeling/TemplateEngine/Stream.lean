import TemplateEngine.RenderError
import TemplateEngine.Text

/-!
# Streams of fragments

Output is produced piece by piece and on demand. A *source* is asked by `pull`, which does
one bounded step of work; a step can end without output (`Pull.busy`). How many steps the
next fragment takes cannot be known beforehand, since a template may loop for ever, so
everything that runs a source to some point takes a number of steps it may use at most:

* `Source.next?` runs to the next fragment, the error or the end;
* `Source.answers?` asks for a number of items one by one, also beyond the end;
* `Source.collect?` runs to the end and gives all fragments and the error, if one ended the
  stream.

A result obtained with some number of steps is obtained with every greater one
(`next?_succ`).
-/

namespace TemplateEngine

/-- What one step of a source gives. After an error or the end there is no more source. -/
inductive Pull (σ : Type) where
  /-- a fragment, and the source behind it -/
  | fragment (text : Text) (rest : σ)
  | failed (error : RenderError)
  | finished
  /-- no output yet -/
  | busy (rest : σ)

/-- Types whose values can be asked for fragments. -/
class Source (σ : Type) where
  pull : σ → Pull σ

/-- A list of fragments, ended by an error or by its end. -/
instance : Source (List (Except RenderError Text)) where
  pull
    | [] => .finished
    | .ok text :: rest => .fragment text rest
    | .error e :: _ => .failed e

/-- What someone gets who asks for items one by one: fragments, then perhaps an error, and nothing
once the stream has ended. -/
abbrev Answers : Type := List (Option (Except RenderError Text))

namespace Source

variable {σ : Type} [Source σ]

/-- The next fragment, the error, or nothing at the end; and the source behind it, if there is
more to come. -/
def next? : (steps : Nat) → σ → Option (Option (Except RenderError Text) × Option σ)
  | 0, _ => none
  | steps + 1, s =>
    match pull s with
    | .fragment text rest => some (some (.ok text), some rest)
    | .failed e => some (some (.error e), none)
    | .finished => some (none, none)
    | .busy rest => next? steps rest

/-- The answers to `count` requests, each of which may take `steps` steps. -/
def answers? (steps : Nat) : (count : Nat) → Option σ → Option Answers
  | 0, _ => some []
  | count + 1, none => some (.replicate (count + 1) none)
  | count + 1, some s => do
    let (item, rest) ← next? steps s
    return item :: (← answers? steps count rest)

/-- All fragments from here on behind those in `done`, which is in reverse, and the error
that ends the stream. -/
def collectFrom? : (steps : Nat) → (done : List Text) → σ →
    Option (List Text × Option RenderError)
  | 0, _, _ => none
  | steps + 1, done, s =>
    match pull s with
    | .fragment text rest => collectFrom? steps (text :: done) rest
    | .failed e => some (done.reverse, some e)
    | .finished => some (done.reverse, none)
    | .busy rest => collectFrom? steps done rest

/-- All fragments, and the error that ends the stream. -/
def collect? (steps : Nat) (s : σ) : Option (List Text × Option RenderError) :=
  collectFrom? steps [] s

/-- The whole output, or the error that ends the stream. -/
def join? (steps : Nat) (s : σ) : Option (Except RenderError Text) :=
  (collect? steps s).map fun
    | (_, some e) => .error e
    | (texts, none) => .ok texts.flatten

/-- More steps give the same answer. -/
theorem next?_succ {steps : Nat} {s : σ} {r : Option (Except RenderError Text) × Option σ}
    (h : next? steps s = some r) : next? (steps + 1) s = some r := by
  induction steps generalizing s with
  | zero => simp [next?] at h
  | succ steps ih =>
    rw [next?] at h ⊢
    cases hp : pull s with
    | fragment text rest => simpa [hp] using h
    | failed e => simpa [hp] using h
    | finished => simpa [hp] using h
    | busy rest =>
      simp only [hp] at h ⊢
      exact ih h

end Source

end TemplateEngine

import TemplateEngine.Chunks
import TemplateEngine.Composition
import TemplateEngine.Context
import TemplateEngine.Plan.Assembly
import TemplateEngine.Renderer

/-!
# Templates

A template is compiled once and rendered any number of times: composition puts everything
into one text, comments are taken out of it, and its tags are assembled into a plan.
Rendering runs the plan against a context, as a stream of fragments or of chunks.
-/

namespace TemplateEngine

/-- A compiled template. -/
structure Template where
  plan : Plan
  options : Options

namespace Template

/-- Compiles a template. `origin` is the path of the source, if it has one. -/
def compile (r : Resolver) (o : Options) (origin : Option Text) (source : Text) :
    Except TemplateError Template := do
  let composition ← r.compose origin source
  return ⟨← Plan.compile o composition.source, o⟩

/-- Compiles the template that a path leads to. -/
def compilePath (r : Resolver) (o : Options) (path : Text) : Except TemplateError Template := do
  compile r o (some path) (← r.load path)

/-- The stream of fragments of a rendering. -/
def fragments (t : Template) (context : Context) : Renderer := .start t.plan context

/-- The stream of chunks of a rendering. -/
def chunks (t : Template) (context : Context) (size : Nat) (size_pos : 0 < size) :
    Chunks Renderer :=
  .ofSource (t.fragments context) size size_pos

/-- The whole output of a rendering, if it takes no more than `steps` steps. -/
def render? (steps : Nat) (t : Template) (context : Context) : Option (Except RenderError Text) :=
  Source.join? steps (t.fragments context)

end Template

/-! ## Renderings -/

/-- A rendering, by fragments or by chunks. -/
inductive Rendering where
  | fragments (r : Renderer)
  | chunks (c : Chunks Renderer)

namespace Rendering

/-- A rendering in chunks of `size` characters if a positive size is given, else in
fragments. -/
def start (t : Template) (context : Context) (size : Option Nat) : Rendering :=
  match size with
  | some size => if h : 0 < size then .chunks (t.chunks context size h)
    else .fragments (t.fragments context)
  | none => .fragments (t.fragments context)

/-- A step with another state. -/
def lift {σ : Type} (f : σ → Rendering) : Pull σ → Pull Rendering
  | .fragment text rest => .fragment text (f rest)
  | .failed e => .failed e
  | .finished => .finished
  | .busy rest => .busy (f rest)

instance : Source Rendering where
  pull
    | .fragments r => lift .fragments (Source.pull r)
    | .chunks c => lift .chunks (Source.pull c)

end Rendering

end TemplateEngine

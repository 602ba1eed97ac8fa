import TemplateEngine.Block
import TemplateEngine.Composition

/-!
# What a template inherits

A second account of composition, which replaces nothing in place. A template with a parent
begins a *chain* of texts (`Resolver.Chain`): those that only contribute the bodies of their
blocks, and the root. The bodies that a chain has for one name form a list (`Block.bodies`).
What stands for a block of the root is the first of them, into which the others were put one
after the other, and the body in the root last (`Overrides.inherited`).
-/

namespace TemplateEngine

/-- The blocks of several texts, in the order in which they are met. -/
def Block.all (texts : List Text) : List Block := texts.flatMap fun text => (Cut.of text).blocks

/-- The bodies of the blocks of a name. -/
def Block.bodies (blocks : List Block) (name : Text) : List Text :=
  (blocks.filter (·.name = name)).map Block.body

/-- What stands for a block of the root, given the bodies of that name in the other texts and
its own. -/
def Overrides.inherited : (bodies : List Text) → (default : Text) → Text
  | [], default => default
  | first :: others, default =>
    (others.foldl (·.substitute superTag ·) first).substitute superTag default

/-- The texts that a template is composed from, all of them with their includes: what follows
the extends tag in each text that has a parent, and then the root. -/
inductive Resolver.Chain (r : Resolver) : Text → List Text → Text → Prop
  /-- a template without a parent is the root -/
  | root {text : Text} {whole : Spliced} (alone : Tag.find [.inherits] text = none)
    (includes : r.includes text = .ok whole) : Chain r text [] whole.text
  /-- a template is followed by the chain of its parent -/
  | child {text before after parent : Text} {path path' : Quoted} {whole : Spliced}
    {before' child root : Text} {children : List Text}
    (inherits : Tag.find [.inherits] text = some ⟨before, .inherits path, after⟩)
    (load : r.load path.text = .ok parent) (includes : r.includes text = .ok whole)
    (keeps : Tag.find [.inherits] whole.text = some ⟨before', .inherits path', child⟩)
    (chain : Chain r parent children root) : Chain r text (child :: children) root
  /-- a template whose extends tag was part of a text replaced by an include has no parent -/
  | orphan {text before after : Text} {path : Quoted} {whole again : Spliced}
    (inherits : Tag.find [.inherits] text = some ⟨before, .inherits path, after⟩)
    (includes : r.includes text = .ok whole) (lost : Tag.find [.inherits] whole.text = none)
    (includesAgain : r.includes whole.text = .ok again) : Chain r text [] again.text

end TemplateEngine

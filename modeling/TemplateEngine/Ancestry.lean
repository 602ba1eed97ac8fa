import TemplateEngine.Block
import TemplateEngine.Composition

/-!
# Ancestry

What comes of following the extends tags from parent to parent, for as long as that goes on.
`Loader.Composes` takes the rounds of a composition until one of them ends it, and gives no
result where they never end. `Loader.Leads` follows the tags alone, and `Loader.Reads` lists what
is read on the way. Templates in which composition finds no fault whatever they inherit are
`Text.Tidy`.
-/

namespace TemplateEngine

/-! ## Rounds until the end -/

/-- A composition that ends, and its result. -/
inductive Loader.Composes (l : Loader) : Ascent → Except TemplateError Composition → Prop
  | failed {a : Ascent} {e : TemplateError} (h : l.round a = .error e) : Composes l a (.error e)
  | finished {a : Ascent} {composition : Composition}
    (h : l.round a = .ok (.finished composition)) : Composes l a (.ok composition)
  | onward {a next : Ascent} {result : Except TemplateError Composition}
    (h : l.round a = .ok (.onward next)) (rest : Composes l next result) : Composes l a result

/-! ## Parents -/

/-- Following extends targets, all of which can be loaded, leads from one text to another. -/
inductive Loader.Leads (l : Loader) : Text → (targets : List Text) → Text → Prop
  | here (text : Text) : Leads l text [] text
  | parent {text before after parent last : Text} {path : Quoted} {targets : List Text}
    (inherits : Tag.find [.inherits] text = some ⟨before, .inherits path, after⟩)
    (load : l.load path.text = .ok parent) (rest : Leads l parent targets last) :
    Leads l text (path.text :: targets) last

namespace Cut

/-- All blocks are closed, and none is inside another. -/
def Flat (cut : Cut) : Prop :=
  ∀ b ∈ cut.blocks, b.closed.isSome ∧ Tag.find [.block] b.body = none

/-- No tags stand outside the blocks. -/
structure Bare (cut : Cut) : Prop where
  gaps : ∀ b ∈ cut.blocks, Tag.find [.expression, .statement] b.gap = none
  last : Tag.find [.expression, .statement] cut.last = none

instance (cut : Cut) : Decidable cut.Flat :=
  inferInstanceAs (Decidable (∀ b ∈ cut.blocks, b.closed.isSome ∧ Tag.find [.block] b.body = none))

instance (cut : Cut) : Decidable cut.Bare :=
  decidable_of_iff ((∀ b ∈ cut.blocks, Tag.find [.expression, .statement] b.gap = none)
      ∧ Tag.find [.expression, .statement] cut.last = none)
    ⟨fun h => ⟨h.1, h.2⟩, fun h => ⟨h.gaps, h.last⟩⟩

end Cut

/-- A template without includes in which all blocks are as they should be. If it has a parent, only
what follows its extends tag matters, and there only the blocks. -/
structure Text.Tidy (text : Text) : Prop where
  whole : Tag.find [.inclusion] text = none
  root : Tag.find [.inherits] text = none → (Cut.of text).Flat
  child : ∀ found, Tag.find [.inherits] text = some found →
    Tag.find [.inherits] found.rest = none ∧ (Cut.of found.rest).Flat ∧ (Cut.of found.rest).Bare

instance (text : Text) : Decidable text.Tidy :=
  decidable_of_iff (Tag.find [.inclusion] text = none
      ∧ (Tag.find [.inherits] text = none → (Cut.of text).Flat)
      ∧ ∀ found ∈ Tag.find [.inherits] text, Tag.find [.inherits] found.rest = none
        ∧ (Cut.of found.rest).Flat ∧ (Cut.of found.rest).Bare)
    ⟨fun h => ⟨h.1, h.2.1, h.2.2⟩, fun h => ⟨h.whole, h.root, h.child⟩⟩

/-- All texts that following extends targets leads to are tidy. -/
def Loader.AllTidy (l : Loader) (text : Text) : Prop :=
  ∀ targets last, l.Leads text targets last → last.Tidy

/-! ## What is read -/

/-- The paths read for the include tags of a text: each tag's own, and then those for the include
tags of the template it names. -/
inductive Loader.ReadsWithin (l : Loader) : List Tag.Found → List Text → Prop
  | nil : ReadsWithin l [] []
  | cons {before after target : Text} {path : Quoted} {tags : List Tag.Found}
    {inner others : List Text} (load : l.load path.text = .ok target)
    (within : ReadsWithin l (Tag.split [.inclusion] target).1 inner)
    (behind : ReadsWithin l tags others) :
    ReadsWithin l (⟨before, .inclusion path, after⟩ :: tags) (path.text :: inner ++ others)

/-- The paths read for a composition: for each text with a parent first the parent and then what
the text includes, and in the end what the root includes. -/
inductive Loader.Reads (l : Loader) : Text → List Text → Prop
  | root {text : Text} {reads : List Text} (alone : Tag.find [.inherits] text = none)
    (within : l.ReadsWithin (Tag.split [.inclusion] text).1 reads) : Reads l text reads
  /-- a text that loses its extends tag to an include is the root, and is searched again -/
  | orphan {text before after parent : Text} {path : Quoted} {whole : Spliced}
    {inner again : List Text}
    (inherits : Tag.find [.inherits] text = some ⟨before, .inherits path, after⟩)
    (load : l.load path.text = .ok parent)
    (within : l.ReadsWithin (Tag.split [.inclusion] text).1 inner)
    (includes : l.includes text = .ok whole) (lost : Tag.find [.inherits] whole.text = none)
    (withinAgain : l.ReadsWithin (Tag.split [.inclusion] whole.text).1 again) :
    Reads l text (path.text :: inner ++ again)
  | child {text before after parent : Text} {path : Quoted} {whole : Spliced}
    {inner others : List Text}
    (inherits : Tag.find [.inherits] text = some ⟨before, .inherits path, after⟩)
    (load : l.load path.text = .ok parent)
    (within : l.ReadsWithin (Tag.split [.inclusion] text).1 inner)
    (includes : l.includes text = .ok whole) (keeps : Tag.find [.inherits] whole.text ≠ none)
    (rest : Reads l parent others) : Reads l text (path.text :: inner ++ others)

/-- Loaders that give the same answers about some paths. -/
def Loader.AgreeOn (l : Loader) (paths : List Text) (l' : Loader) : Prop :=
  ∀ path ∈ paths, l'.isFile path = l.isFile path ∧ l'.read path = l.read path

end TemplateEngine

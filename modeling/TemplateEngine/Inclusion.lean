import TemplateEngine.Composition

/-!
# Inclusion

A second account of includes, in which nothing is edited in place. A text is cut at its include
tags once and for all, and put together again with other texts in their places
(`Text.interleave`). What stands for a tag depends on the template it names and on how deep the
text is inside others, and on nothing else in the text (`Loader.Includes`, `Loader.Refuses`).

With the templates that are put in cut in turn, a text with its includes is a list of pieces
(`Loader.Pieces`).
-/

namespace TemplateEngine

namespace Loader

/-- The text that stands for an include tag, if the tag is inside of `depth` templates: the
template it names, which is there and can be read, with its own includes. -/
inductive Includes (l : Loader) (depth : Nat) : Tag.Found → Text → Prop
  | intro {before after target : Text} {path : Quoted} {whole : Spliced}
    (shallow : depth < maxIncludeDepth) (isFile : l.isFile path.text = true)
    (read : l.read path.text = .ok target)
    (within : l.splice (maxIncludeDepth - (depth + 1)) target = .ok whole) :
    Includes l depth ⟨before, .inclusion path, after⟩ whole.text

/-- Why nothing can stand for an include tag of `text`. -/
inductive Refuses (l : Loader) (depth : Nat) (text : Text) : Tag.Found → TemplateError → Prop
  | tooDeep {found : Tag.Found} (deep : maxIncludeDepth ≤ depth) :
    Refuses l depth text found (.misuse (found.span text) .includeTooDeep)
  | missing {before after : Text} {path : Quoted} (shallow : depth < maxIncludeDepth)
    (isFile : l.isFile path.text = false) :
    Refuses l depth text ⟨before, .inclusion path, after⟩ (.notFound path.text)
  | unreadable {before after : Text} {path : Quoted} {e : TemplateError}
    (shallow : depth < maxIncludeDepth) (isFile : l.isFile path.text = true)
    (read : l.read path.text = .error e) :
    Refuses l depth text ⟨before, .inclusion path, after⟩ e
  /-- the template that the tag names cannot be put together itself -/
  | within {before after target : Text} {path : Quoted} {e : TemplateError}
    (shallow : depth < maxIncludeDepth) (isFile : l.isFile path.text = true)
    (read : l.read path.text = .ok target)
    (within : l.splice (maxIncludeDepth - (depth + 1)) target = .error e) :
    Refuses l depth text ⟨before, .inclusion path, after⟩ e

/-- The pieces that a text with its includes is put together from, in order: what stands between
the include tags, and for each tag the pieces of the template it names. -/
inductive Pieces (l : Loader) : Text → List Text → Prop
  | whole {text : Text} (alone : Tag.find [.inclusion] text = none) : Pieces l text [text]
  | splice {text gap rest target : Text} {path : Quoted} {inner outer : List Text}
    (first : Tag.find [.inclusion] text = some ⟨gap, .inclusion path, rest⟩)
    (load : l.load path.text = .ok target)
    (inside : Pieces l target inner) (behind : Pieces l rest outer) :
    Pieces l text (gap :: (inner ++ outer))

end Loader

end TemplateEngine

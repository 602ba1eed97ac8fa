import TemplateEngine.Entries
import TemplateEngine.Resolver
import TemplateEngine.Tag.Place

/-!
# Composition

Before a template is compiled, everything it takes from other templates is put into one
text. There are two ways to take:

* `include` puts a whole template in place of a tag (`Loader.splice`);
* `extends` names a *parent*. Of the template itself only the bodies of its blocks stay, as
  *overrides* of the blocks of the same name in the parent, which may have a parent in
  turn. At the root of this chain the blocks are replaced (`Overrides.replaceIn`). An
  override may refer to the body it replaces by `block.super`.

`Resolver.compose` does both and lists the templates it has read.
-/

namespace TemplateEngine

/-- A text, and the paths of the templates read for it, in the order of reading. -/
structure Spliced where
  text : Text
  loads : List Text

/-! ## Includes -/

namespace Text

/-- What is left of a text behind a replaced part is shorter than what the part stood in. -/
theorem length_lt_of_replaceRange {kinds : List TagKind} {text : Text} {start : Nat}
    {found : Tag.Found} (h : Tag.find kinds (text.drop start) = some found) (new : Text) :
    let first := start + found.gap.length
    let behind := first + found.tag.content.length
    (text.replaceRange first behind new).length - (first + new.length) < text.length - start := by
  intro first behind
  have htag := List.length_pos_iff.2 found.tag.content_ne_nil
  have hlength := congrArg List.length (Tag.eq_of_find h)
  simp only [List.length_drop, List.length_append] at hlength
  simp only [replaceRange, List.length_append, List.length_take, List.length_drop]
  omega

/-- The text with the include tags from `start` on replaced, one after the other and in place.
`part` is what stands for a tag of the text as it is by then; the search goes on behind it. -/
def spliceFrom (part : Text → Tag.Found → Except TemplateError Spliced) (start : Nat)
    (text : Text) : Except TemplateError Spliced :=
  match h : Tag.find [.inclusion] (text.drop start) with
  | none => .ok ⟨text, []⟩
  | some found => do
    let first := start + found.gap.length
    let behind := first + found.tag.content.length
    let new ← part text found
    have := length_lt_of_replaceRange h new.text
    let whole ← spliceFrom part (first + new.text.length) (text.replaceRange first behind new.text)
    return ⟨whole.text, new.loads ++ whole.loads⟩
termination_by text.length - start

end Text

/-- How many templates may be inside one another by `include`. -/
def maxIncludeDepth : Nat := 64

namespace Loader

/-- The text with every include tag replaced by the template it names, whose own include tags are
replaced before. `levels` bounds how deep this goes. -/
def splice (l : Loader) : (levels : Nat) → Text → Except TemplateError Spliced
  | 0 => Text.spliceFrom (fun text found => .error (.misuse (found.span text) .includeTooDeep)) 0
  | levels + 1 =>
    Text.spliceFrom (fun _ found => do
      let path := found.tag.argument?.getD []
      let included ← l.splice levels (← l.load path)
      return ⟨included.text, path :: included.loads⟩) 0

/-- The text with all its includes. -/
def includes (l : Loader) (text : Text) : Except TemplateError Spliced :=
  l.splice maxIncludeDepth text

end Loader

/-- The text with all its includes. -/
def Resolver.includes (r : Resolver) (text : Text) : Except TemplateError Spliced :=
  r.loader.includes text

/-! ## Blocks -/

/-- The bodies that replace the blocks of a parent, by the names of the blocks. -/
abbrev Overrides : Type := Entries Text

namespace Overrides

/-- How an override refers to the body it replaces. -/
def superTag : Text := "\x7b\x7b block.super \x7d\x7d".toList

/-- Adds a body met on the way to the root. An override that is already there comes from
nearer to the start of the chain and wins; the new body is what it replaces. -/
def add (overrides : Overrides) (name body : Text) : Overrides :=
  match overrides.get? name with
  | none => overrides.put name body
  | some override => overrides.put name (override.substitute superTag body)

/-- What stands in the end for a block with a default body. -/
def resolve (overrides : Overrides) (name default : Text) : Text :=
  match overrides.get? name with
  | none => default
  | some override => override.substitute superTag default

/-- The end of a block of `template` in what follows its header. No other block may begin
before it. -/
def blockEnd (template : Text) (header : Tag.Found) (name : Text) :
    Except TemplateError Tag.Found :=
  match Tag.findEndBlock name true header.rest, Tag.find [.block] header.rest with
  | some stop, some nested =>
    if nested.gap.length < stop.gap.length then
      .error (.misuse (nested.span template) .nestedBlocks)
    else .ok stop
  | some stop, none => .ok stop
  | none, some nested =>
    if (Tag.find [.endBlock] nested.rest).isSome then
      .error (.misuse (nested.span template) .nestedBlocks)
    else .error (.misuse (header.span template) (.notClosed .block))
  | none, none => .error (.misuse (header.span template) (.notClosed .block))

/-- Outside the blocks of a template with a parent there may be no tags: none in `gap`, which
`after` follows. -/
def checkGap (template gap after : Text) : Except TemplateError Unit :=
  match Tag.find [.expression, .statement] gap with
  | none => .ok ()
  | some stray =>
    .error (.misuse ({ stray with rest := stray.rest ++ after }.span template) .betweenBlocks)

/-- The end of a block is found by the search for it. -/
theorem findEndBlock_of_blockEnd {template name : Text} {header stop : Tag.Found}
    (h : blockEnd template header name = .ok stop) :
    Tag.findEndBlock name true header.rest = some stop := by
  unfold blockEnd at h
  split at h
  · split at h
    · simp at h
    · simp_all
  · simp_all
  · split at h <;> simp at h
  · simp at h

/-- What follows a block is shorter than the text its header was found in. -/
theorem length_lt_of_block {text name : Text} {header stop : Tag.Found}
    (hh : Tag.find [.block] text = some header)
    (hs : Tag.findEndBlock name true header.rest = some stop) :
    stop.rest.length < text.length := by
  have := Tag.length_lt_of_find hh
  have := Tag.length_lt_of_findEndBlock hs
  omega

/-- The overrides with the bodies of all blocks added that a template has in its last part
`text`. -/
def collect (overrides : Overrides) (template text : Text) : Except TemplateError Overrides :=
  match hh : Tag.find [.block] text with
  | none => (checkGap template text []).map fun _ => overrides
  | some header =>
    match checkGap template header.gap (header.tag.content ++ header.rest) with
    | .error e => .error e
    | .ok _ =>
      let name := header.tag.argument?.getD []
      match hs : blockEnd template header name with
      | .error e => .error e
      | .ok stop =>
        have : stop.rest.length < text.length :=
          length_lt_of_block hh (findEndBlock_of_blockEnd hs)
        collect (overrides.add name stop.gap) template stop.rest
termination_by text.length

/-- A text with its blocks replaced, where `passed` is what stands before it in the result. A
block without an end is its header alone. -/
def replaceIn (overrides : Overrides) (passed text : Text) : Except TemplateError Text :=
  match hh : Tag.find [.block] text with
  | none => .ok (passed ++ text)
  | some header =>
    let name := header.tag.argument?.getD []
    match hs : Tag.findEndBlock name true header.rest with
    | none =>
      have : header.rest.length < text.length := Tag.length_lt_of_find hh
      replaceIn overrides (passed ++ header.gap ++ overrides.resolve name []) header.rest
    | some stop =>
      match (Tag.find [.block] header.rest).filter (·.gap.length < stop.gap.length) with
      | some nested => .error (.misuse (nested.span (passed ++ text)) .nestedBlocks)
      | none =>
        have : stop.rest.length < text.length := length_lt_of_block hh hs
        replaceIn overrides (passed ++ header.gap ++ overrides.resolve name stop.gap) stop.rest
termination_by text.length

end Overrides

/-! ## Parents -/

/-- A composed template: its text, and the templates read for it. -/
structure Composition where
  source : Text
  /-- the paths of the templates read, each once, in the order of the first reading -/
  dependencies : List Text

/-- Where a composition stands on the way to the root. -/
structure Ascent where
  /-- the paths of the parents so far, and of the template itself if it has one -/
  visited : List Text
  overrides : Overrides
  /-- the paths of the templates read so far -/
  loads : List Text
  /-- the template reached -/
  text : Text

/-- How a round of a composition ends without an error. -/
inductive Round where
  | finished (composition : Composition)
  /-- there is a parent to go on with -/
  | onward (ascent : Ascent)

namespace Loader

/-- The last steps of a composition: includes and blocks of the root. -/
def finish (l : Loader) (overrides : Overrides) (loads : List Text) (text : Text) :
    Except TemplateError Composition := do
  let root ← l.includes text
  let source ← overrides.replaceIn [] root.text
  return ⟨source, (loads ++ root.loads).eraseDups⟩

/-- A round of a composition. A text without a parent is the root. Of any other the overrides
stay, and its parent is next. -/
def round (l : Loader) (a : Ascent) : Except TemplateError Round :=
  match Tag.find [.inherits] a.text with
  | none => (l.finish a.overrides a.loads a.text).map .finished
  | some found =>
    let path := found.tag.argument?.getD []
    if ¬l.isFile path then .error (.notFound path)
    else if path ∈ a.visited then .error (.misuse (found.span a.text) .circularExtends)
    else do
      let parent ← l.load path
      let whole ← l.includes a.text
      let loads := a.loads ++ path :: whole.loads
      match Tag.find [.inherits] whole.text with
      | none => (l.finish a.overrides loads whole.text).map .finished
      | some found =>
        match Tag.find [.inherits] found.rest with
        | some second => .error (.misuse (second.span whole.text) .misusedExtends)
        | none =>
          let overrides ← a.overrides.collect whole.text found.rest
          return .onward ⟨path :: a.visited, overrides, loads, parent⟩

/-- Goes from a text to its parent, and on to the root, with no more parents than `fuel`. -/
def climb (l : Loader) : (fuel : Nat) → Ascent → Except TemplateError Composition
  | 0, a =>
    match Tag.find [.inherits] a.text with
    | none => l.finish a.overrides a.loads a.text
    | some found => .error (.misuse (found.span a.text) .circularExtends)
  | fuel + 1, a =>
    match l.round a with
    | .error e => .error e
    | .ok (.finished composition) => .ok composition
    | .ok (.onward next) => l.climb fuel next

end Loader

/-- The start of a composition. `origin` is the path of the text itself, if it has one. -/
def Ascent.start (origin : Option Text) (text : Text) : Ascent :=
  ⟨origin.toList, [], origin.toList, text⟩

/-- Composes a template from its text. `origin` is the path of the text itself, if it has one. A
chain of parents can only go on for as long as there are files; then it has met a parent
twice. -/
def Resolver.compose (r : Resolver) (origin : Option Text) (text : Text) :
    Except TemplateError Composition :=
  r.loader.climb (r.files.length + 2) (.start origin text)

end TemplateEngine

import TemplateEngine.Block
import TemplateEngine.Buffer
import TemplateEngine.Composition

/-!
# Composing in place

Composition as it goes on in a buffer: included templates are put in place of their tags and
blocks are replaced where they stand, and the search goes on behind what was put there. Offsets
found in a piece of the buffer are moved to where the piece begins.
-/

namespace TemplateEngine.Buffer

/-! ## Includes -/

/-- Puts what a template holds in place of an include tag. -/
def spliceTurn (c : Cursor (List Text)) (place : Place) (path : Text) (included : Spliced) :
    Except Halt (Cursor (List Text)) := do
  let buffer ← replace c.buffer place.start place.stop included.text
  return ⟨c.state ++ path :: included.loads, buffer, place.start + included.text.byteSize⟩

/-- Behind the last include tag the buffer is whole. -/
def spliceLast (c : Cursor (List Text)) : Except Halt Spliced := .ok ⟨c.buffer, c.state⟩

/-- The buffer with every include tag replaced in place. `levels` bounds how deep this goes. -/
def splice (l : Loader) : (levels : Nat) → Text → Except Halt Spliced
  | 0, text =>
    loop [.inclusion] (fun c place => blame c.buffer place .includeTooDeep) spliceLast ⟨[], text, 0⟩
  | levels + 1, text =>
    loop [.inclusion] (fun c place => do
      let path := place.tag.argument?.getD []
      let included ← splice l levels (← Halt.lift (l.load path))
      spliceTurn c place path included) spliceLast ⟨[], text, 0⟩

/-! ## Blocks -/

/-- Whether an end tag may end the block `name`, where `next` is the next header: it gives the name
of the block, or it gives none and stands before that header. -/
def ends (name : Text) (next : Option Place) (stop : Place) : Bool :=
  match stop.tag.argument? with
  | some closing => closing == name
  | none => next.all fun header => stop.start < header.start

/-- The end of the block `name` whose header ends at an offset. -/
def endBlock (buffer : Text) (offset : Nat) (name : Text) : Except Halt (Option Place) := do
  let next ← search [.block] buffer offset
  let rest ← behind buffer offset
  return ((Tag.all [.endBlock] rest).map (.of offset)).find? (ends name next)

/-- The end of a block with a body. No other block may begin before it. -/
def blockEnd (buffer : Text) (header : Place) (name : Text) : Except Halt Place := do
  let nested ← search [.block] buffer header.stop
  match ← endBlock buffer header.stop name, nested with
  | some stop, some nested =>
    if nested.start < stop.start then blame buffer nested .nestedBlocks else return stop
  | some stop, none => return stop
  | none, some nested =>
    if (← search [.endBlock] buffer nested.stop).isSome then blame buffer nested .nestedBlocks
    else blame buffer header (.notClosed .block)
  | none, none => blame buffer header (.notClosed .block)

/-- Between two offsets there may be no tags. -/
def checkGap (buffer : Text) (start stop : Nat) : Except Halt Unit := do
  let gap ← slice buffer start stop
  match ← search [.expression, .statement] gap 0 with
  | none => return ()
  | some stray =>
    blame buffer ⟨start + stray.start, start + stray.stop, stray.tag⟩ .betweenBlocks

/-- Adds the body of a block. -/
def collectTurn (c : Cursor Overrides) (header : Place) : Except Halt (Cursor Overrides) := do
  checkGap c.buffer c.offset header.start
  let name := header.tag.argument?.getD []
  let stop ← blockEnd c.buffer header name
  let body ← slice c.buffer header.stop stop.start
  return ⟨c.state.add name body, c.buffer, stop.stop⟩

/-- The overrides with the bodies of all blocks added that begin behind an offset. -/
def collect (overrides : Overrides) (buffer : Text) (offset : Nat) : Except Halt Overrides :=
  loop [.block] collectTurn (fun c => do
    checkGap c.buffer c.offset c.buffer.byteSize
    return c.state) ⟨overrides, buffer, offset⟩

/-- Replaces a block in place. A block without an end is its header alone. -/
def replaceTurn (overrides : Overrides) (c : Cursor Unit) (header : Place) :
    Except Halt (Cursor Unit) := do
  let name := header.tag.argument?.getD []
  match ← endBlock c.buffer header.stop name with
  | none =>
    let new := overrides.resolve name []
    let buffer ← replace c.buffer header.start header.stop new
    return ⟨(), buffer, header.start + new.byteSize⟩
  | some stop =>
    match (← search [.block] c.buffer header.stop).filter (·.start < stop.start) with
    | some nested => blame c.buffer nested .nestedBlocks
    | none =>
      let default ← slice c.buffer header.stop stop.start
      let new := overrides.resolve name default
      let buffer ← replace c.buffer header.start stop.stop new
      return ⟨(), buffer, header.start + new.byteSize⟩

/-- The buffer with its blocks replaced in place. -/
def replaceBlocks (overrides : Overrides) (buffer : Text) : Except Halt Text :=
  loop [.block] (replaceTurn overrides) (fun c => .ok c.buffer) ⟨(), buffer, 0⟩

/-! ## Parents -/

variable (l : Loader)

/-- The last steps of a composition: includes and blocks of the root. -/
def finish (overrides : Overrides) (loads : List Text) (text : Text) : Except Halt Composition := do
  let root ← splice l maxIncludeDepth text
  let source ← replaceBlocks overrides root.text
  return ⟨source, (loads ++ root.loads).eraseDups⟩

/-- A round of a composition. -/
def round (a : Ascent) : Except Halt Round := do
  match ← search [.inherits] a.text 0 with
  | none => return .finished (← finish l a.overrides a.loads a.text)
  | some place =>
    let path := place.tag.argument?.getD []
    if ¬l.isFile path then throw (.error (.notFound path))
    else if a.visited.contains path then blame a.text place .circularExtends
    else
      let parent ← Halt.lift (l.load path)
      let whole ← splice l maxIncludeDepth a.text
      let loads := a.loads ++ path :: whole.loads
      match ← search [.inherits] whole.text 0 with
      | none => return .finished (← finish l a.overrides loads whole.text)
      | some place =>
        match ← search [.inherits] whole.text place.stop with
        | some second => blame whole.text second .misusedExtends
        | none =>
          let overrides ← collect a.overrides whole.text place.stop
          return .onward ⟨path :: a.visited, overrides, loads, parent⟩

/-- Goes from a text to its parent, and on to the root, with no more parents than `fuel`. -/
def climb : (fuel : Nat) → Ascent → Except Halt Composition
  | 0, a => do
    match ← search [.inherits] a.text 0 with
    | none => finish l a.overrides a.loads a.text
    | some place => blame a.text place .circularExtends
  | fuel + 1, a => do
    match ← round l a with
    | .finished composition => return composition
    | .onward next => climb fuel next

/-- Composes a template in place. `origin` is the path of the text itself, if it has one. -/
def compose (r : Resolver) (origin : Option Text) (text : Text) : Except Halt Composition :=
  climb r.loader (r.files.length + 2) (.start origin text)

end TemplateEngine.Buffer

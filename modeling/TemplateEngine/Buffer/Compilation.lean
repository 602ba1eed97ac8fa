import TemplateEngine.Buffer.Lexing
import TemplateEngine.Plan.Assembly

/-!
# Compiling in place

Compilation as it goes on in a buffer: comments are cut out with the whitespace they take along,
then the buffer is read tag by tag. What stands between two tags and what stands between the marks
of an expression are pieces of it. The code that grows on the way is a buffer of its own, and what
waits for a target in it is named by position (`Assembly.waiting`).
-/

namespace TemplateEngine

/-- The positions that wait for a target. -/
def Frame.waiting : Frame → List Nat
  | .branch pending exits => pending.toList ++ exits
  | .loop head none => [head]
  | .loop _ (some next) => [next]
  | .repetition head => [head]

/-- The positions of instructions that wait for a target. -/
def Assembly.waiting (a : Assembly) : List Nat := a.frames.flatMap Frame.waiting

namespace Buffer

/-! ## Comments -/

/-- The buffer without the comment between two offsets, and without the whitespace that it takes
along. -/
def removeComment (o : Options) (buffer : Text) (start stop : Nat) : Except Halt Text := do
  let before ← slice buffer 0 start
  let after ← behind buffer stop
  let start := if o.lstripBlocks && before.endsInIndent then (before.trimEnd (· == ' ')).byteSize
    else start
  let stop := if o.trimBlocks && after.head? == some '\n' then stop + 1 else stop
  replace buffer start stop []

/-- Takes a comment out. The next search begins anew at the start of the buffer. -/
def stripTurn (o : Options) (c : Cursor Unit) (place : Place) : Except Halt (Cursor Unit) := do
  let buffer ← removeComment o c.buffer place.start place.stop
  return ⟨(), buffer, 0⟩

/-- The buffer without the comments of one kind. -/
def stripTags (kind : TagKind) (o : Options) (buffer : Text) : Except Halt Text :=
  loop [kind] (stripTurn o) (fun c => .ok c.buffer) ⟨(), buffer, 0⟩

/-- The buffer without its comments. -/
def stripComments (o : Options) (buffer : Text) : Except Halt Text := do
  let buffer ← stripTags .hashComment o buffer
  stripTags .blockComment o buffer

/-! ## Tags -/

/-- The number of bytes of either mark of an expression. -/
def markSize : Nat := 3

/-- What a tag is a mark of. The body of an expression is what stands between its marks. All text
that will be parsed is split in place before. -/
def readTag (token : Span) (found : Tag.Found) : Except Halt (List Mark) :=
  match found.tag with
  | .expression _ => do
    let body ← slice token.content markSize (token.content.byteSize - markSize)
    scan body
    return [.expression found body]
  | .statement body => do
    let directive := Directive.ofBody body
    directive.parsed?.forM scan
    return [.statement found directive]
  | _ => return []

/-- What has been read of a template: whether a statement came last, and the assembly. -/
structure Progress where
  afterStatement : Bool := false
  assembly : Assembly := {}

/-- Reads a tag and the text before it. Each position that waits for a target must be one of an
instruction, since the tag may lead it somewhere. -/
def readTurn (o : Options) (c : Cursor Progress) (place : Place) :
    Except Halt (Cursor Progress) := do
  let a := c.state.assembly
  let gap ← slice c.buffer c.offset place.start
  let token ← span c.buffer place.start place.stop
  let marks ← readTag token ⟨gap, place.tag, token.after⟩
  let text := Mark.ofText (o.keepBetween c.state.afterStatement place.tag.isStatement gap)
  if a.waiting.any (a.here ≤ ·) then throw .outOfRange
  let a ← Halt.lift (a.read o c.buffer (text ++ marks))
  return ⟨⟨place.tag.isStatement, a⟩, c.buffer, place.stop⟩

/-- Reads the text behind the last tag. -/
def readLast (o : Options) (c : Cursor Progress) : Except Halt Plan := do
  let last ← behind c.buffer c.offset
  let text := Mark.ofText (o.keepBetween c.state.afterStatement false last)
  let a ← Halt.lift (c.state.assembly.read o c.buffer text)
  Halt.lift (a.finish c.buffer)

/-- The plan of a template without comments. -/
def read (o : Options) (buffer : Text) : Except Halt Plan :=
  loop Outline.tagKinds (readTurn o) (readLast o) ⟨{}, buffer, 0⟩

/-- The plan of a composed template. -/
def compile (o : Options) (source : Text) : Except Halt Plan := do
  let buffer ← stripComments o source
  read o buffer

end Buffer

end TemplateEngine

import TemplateEngine.Directive
import TemplateEngine.Options
import TemplateEngine.Outline
import TemplateEngine.Tag.Search
import TemplateEngine.TemplateError

/-!
# Marks

Before its constructs are looked at, a template without comments is a sequence of *marks*:
its expression tags and statement tags from left to right, and the text between them, less
the whitespace that the options drop.
-/

namespace TemplateEngine

/-- The tag is a statement. -/
def Tag.isStatement (t : Tag) : Bool := t.kind == .statement

/-- What stays of the text between two tags, each of which may be a statement. -/
def Options.keepBetween (o : Options) (afterStatement beforeStatement : Bool) (gap : Text) :
    Text :=
  let gap := if beforeStatement then o.keepBefore gap else gap
  if afterStatement then o.keepAfter gap else gap

/-! ## Autoescape sections -/

/-- The language that values are escaped for inside of autoescape sections with these modes,
from the innermost. -/
def Options.escape (o : Options) : (modes : List Bool) → Option Language
  | false :: _ => none
  | _ => some o.language

/-- The modes of open autoescape sections behind a statement that opens or ends one. -/
def Directive.modes? (modes : List Bool) : Directive → Option (List Bool)
  | .autoescape mode =>
    if mode = "on".toList then some (true :: modes)
    else if mode = "off".toList then some (false :: modes)
    else none
  | .endAutoescape =>
    match modes with
    | [] => none
    | _ :: modes => some modes
  | _ => none

/-! ## Constructs -/

/-- The construct that an opening tag opens. -/
def Directive.begins? : Directive → Option Construct
  | .openIf _ => some .branch
  | .openFor _ => some .loop
  | .openWhile _ => some .repetition
  | _ => none

/-- The construct that an end tag names. -/
def Directive.ends? : Directive → Option Construct
  | .endIf => some .branch
  | .endFor => some .loop
  | .endWhile => some .repetition
  | _ => none

/-! ## Marks -/

/-- What a template is a sequence of. -/
inductive Mark where
  /-- text as it stands -/
  | text (text : Text)
  /-- an expression tag and what is between its marks -/
  | expression (found : Tag.Found) (body : Text)
  /-- a statement tag and what it says -/
  | statement (found : Tag.Found) (directive : Directive)

namespace Mark

/-- A text, unless it is empty. -/
def ofText (text : Text) : List Mark := if text.isEmpty then [] else [.text text]

/-- A tag of a compiled template. -/
def ofTag (found : Tag.Found) : List Mark :=
  match found.tag with
  | .expression body => [.expression found body]
  | .statement body => [.statement found (Directive.ofBody body)]
  | _ => []

/-- The marks of tags with the text before each, and of the text behind the last. -/
def ofTags (o : Options) : (afterStatement : Bool) → List Tag.Found → (last : Text) → List Mark
  | afterStatement, [], last => ofText (o.keepBetween afterStatement false last)
  | afterStatement, found :: tags, last =>
    ofText (o.keepBetween afterStatement found.tag.isStatement found.gap) ++ ofTag found
      ++ ofTags o found.tag.isStatement tags last

end Mark

namespace Outline

/-- The tags that a compiled template is made of. -/
def tagKinds : List TagKind := [.expression, .statement]

/-- The marks of a template without comments. -/
def marks (o : Options) (text : Text) : List Mark :=
  Mark.ofTags o false (Tag.split tagKinds text).1 (Tag.split tagKinds text).2

end Outline

end TemplateEngine

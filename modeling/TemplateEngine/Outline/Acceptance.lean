import TemplateEngine.Brackets
import TemplateEngine.Outline.Grammar

/-!
# Which templates are accepted

The language of templates, said of their tags alone. Two ways of pairing tags count at the same
time. For each kind of construct by itself, opening tags and end tags are balanced
(`Construct.brackets`), whatever stands between them; so end tags of different kinds may
interleave. And among all constructs together (`Mark.brackets`), an end tag closes what was
opened last, whatever its kind: that decides which construct `elif`, `else` and `empty` belong
to.
-/

namespace TemplateEngine

/-! ## What a tag is for -/

/-- What stands between the marks of a statement tag can be read. -/
def Directive.Parses : Directive → Prop
  | .openIf condition | .elif condition | .openWhile condition =>
    ∃ e, Expr.parse condition = .ok e
  | .openFor text => ∃ header, LoopHeader.parse text = .ok header
  | .exec code => ∃ statements, Statement.parseAll code = .ok statements
  | .autoescape mode => mode = "on".toList ∨ mode = "off".toList
  | .otherwise | .endIf | .empty | .endFor | .endWhile | .endAutoescape => True
  | .strayEndBlock | .strayExtends | .unknown => False

/-- The construct that a tag begins another arm of. -/
def Directive.arm? : Directive → Option Construct
  | .elif _ | .otherwise => some .branch
  | .empty => some .loop
  | _ => none

/-- The construct that a tag begins the last arm of. -/
def Directive.lastArm? : Directive → Option Construct
  | .otherwise => some .branch
  | .empty => some .loop
  | _ => none

namespace Mark

/-- The mark is a tag. -/
def isTag : Mark → Bool
  | .text _ => false
  | .expression _ _ | .statement _ _ => true

/-- What stands between the marks of a tag can be read. -/
def Parses : Mark → Prop
  | .text _ => True
  | .expression _ body => ∃ e, Expr.parse body = .ok e
  | .statement _ directive => directive.Parses

/-- The construct that a mark begins. -/
def begins? : Mark → Option Construct
  | .text _ | .expression _ _ => none
  | .statement _ directive => directive.begins?

/-- The construct that a mark begins another arm of. -/
def arm? : Mark → Option Construct
  | .text _ | .expression _ _ => none
  | .statement _ directive => directive.arm?

/-- The construct that a mark begins the last arm of. -/
def lastArm? : Mark → Option Construct
  | .text _ | .expression _ _ => none
  | .statement _ directive => directive.lastArm?

/-! ## Pairs of tags -/

theorem ends?_of_begins? {m : Mark} {construct : Construct} (h : m.begins? = some construct) :
    m.ends? = none := by
  cases m with
  | text | expression => cases h
  | statement found directive => cases directive <;> first | rfl | cases h

/-- The opening tags and end tags of all constructs. -/
def brackets : Brackets Mark where
  opens m := m.begins?.isSome
  closes m := m.ends?.isSome
  not_closes m h := by
    obtain ⟨construct, hconstruct⟩ := Option.isSome_iff_exists.mp h
    rw [ends?_of_begins? hconstruct]
    rfl

/-- The tags that open and end autoescape sections. -/
def sections : Brackets Mark where
  opens
    | .statement _ (.autoescape _) => true
    | _ => false
  closes
    | .statement _ .endAutoescape => true
    | _ => false
  not_closes m h := by
    cases m with
    | text | expression => rfl
    | statement found directive => cases directive <;> first | rfl | cases h

end Mark

namespace Construct

/-- The opening tags and end tags of one construct. -/
def brackets (construct : Construct) : Brackets Mark where
  opens m := m.begins? == some construct
  closes m := m.ends? == some construct
  not_closes m h := by
    rw [Mark.ends?_of_begins? (beq_iff_eq.mp h)]
    rfl

/-- There are more opening tags than end tags of the construct. -/
def IsOpen (construct : Construct) (before : List Mark) : Prop :=
  before.countP construct.brackets.closes < before.countP construct.brackets.opens

/-- The last arm of a construct has begun directly in it, with no other construct around that is
open. -/
def HasLastArm (construct : Construct) (inside : List Mark) : Prop :=
  ∃ front m back, inside = front ++ m :: back ∧ m.lastArm? = some construct
    ∧ Mark.brackets.Balanced front

/-- Another arm of the construct can begin behind some marks: the innermost open construct is
such a one and its last arm has not begun, and by the tags of the construct alone one is open. -/
structure TakesArm (construct : Construct) (before : List Mark) : Prop where
  isOpen : construct.IsOpen before
  directly : ∃ outer opening inside, Mark.brackets.Innermost before outer opening inside
    ∧ opening.begins? = some construct ∧ ¬construct.HasLastArm inside

end Construct

/-! ## The language -/

namespace Outline

/-- The expression and statement tags of a template without comments, from left to right. -/
def tags (text : Text) : List Mark := (Tag.split tagKinds text).1.flatMap Mark.ofTag

/-- The tags of a template that is accepted. -/
structure Accepted (tags : List Mark) : Prop where
  /-- the tags of each construct are balanced -/
  balanced : ∀ construct : Construct, construct.brackets.Balanced tags
  /-- each further arm belongs to the innermost open construct, before its last arm -/
  arms : ∀ before m after construct, tags = before ++ m :: after →
    m.arm? = some construct → construct.TakesArm before
  /-- no autoescape section is ended that was not opened -/
  sections : Mark.sections.Covered tags
  /-- every tag is one that there is, and can be read -/
  parses : ∀ m ∈ tags, m.Parses

end Outline

end TemplateEngine

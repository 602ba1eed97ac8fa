import TemplateEngine.Options
import TemplateEngine.Tag.Search

/-!
# Comments

Comments are taken out of a template before it is compiled: first all `{# … #}`, then all
comment sections. A comment can take the whitespace around it along, as the options say.
After each removal the search begins anew from the start of the text, so a tag that only
arises when a comment inside it disappears counts as well.
-/

namespace TemplateEngine

namespace Text

/-- Taking out a tag makes the text shorter. -/
theorem length_lt_of_takeOut {kinds : List TagKind} {text : Text} {found : Tag.Found} (o : Options)
    (h : Tag.find kinds text = some found) :
    (o.keepBefore found.gap ++ o.keepAfter found.rest).length < text.length := by
  have h1 := congrArg List.length (Tag.eq_of_find h)
  have h2 := List.length_pos_iff.2 found.tag.content_ne_nil
  have h3 := o.length_keepBefore_le found.gap
  have h4 := o.length_keepAfter_le found.rest
  simp only [List.length_append] at h1 ⊢
  omega

/-- The text without the comments of one kind. -/
def stripTags (kind : TagKind) (o : Options) (text : Text) : Text :=
  match h : Tag.find [kind] text with
  | none => text
  | some found =>
    have := length_lt_of_takeOut o h
    stripTags kind o (o.keepBefore found.gap ++ o.keepAfter found.rest)
termination_by text.length
decreasing_by assumption

/-- The text without its comments. -/
def stripComments (o : Options) (text : Text) : Text :=
  (text.stripTags .hashComment o).stripTags .blockComment o

end Text

end TemplateEngine

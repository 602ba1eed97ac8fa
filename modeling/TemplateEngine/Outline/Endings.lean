import TemplateEngine.Outline.Grammar

/-!
# End tags that name what they close

An end tag closes the construct that was opened last, whatever its kind. `Outline.matchEnds` is the
template with each end tag written as that of the construct it closes, and with all else as it
stands.
-/

namespace TemplateEngine

/-- What stands between the marks of the end tag of a construct. -/
def Construct.ending (construct : Construct) : Text := "end".toList ++ construct.keyword.toList

/-- What stands between the marks of a statement tag, where some constructs are open. An end tag of
any construct becomes that of the innermost one. -/
def Directive.matchEnd (opened : List Construct) (body : Text) : Text :=
  match (ofBody body).ends?, opened with
  | some _, construct :: _ => construct.ending
  | _, _ => body

/-- A tag, with the end tag of the innermost construct in place of any end tag. -/
def Tag.matchEnd (opened : List Construct) : Tag → Tag
  | statement body => statement (Directive.matchEnd opened body)
  | t => t

/-- The constructs that are open behind a tag, from the innermost. -/
def Tag.Found.openBehind (opened : List Construct) (found : Found) : List Construct :=
  (Mark.ofTag found).foldl Mark.openBehind opened

namespace Outline

/-- A text that has been cut at its tags, with each end tag as that of the innermost construct. -/
def matchEndsFrom : (opened : List Construct) → List Tag.Found → (last : Text) → Text
  | _, [], last => last
  | opened, found :: tags, last =>
    found.gap ++ (found.tag.matchEnd opened).content
      ++ matchEndsFrom (found.openBehind opened) tags last

/-- A template without comments, with each end tag as that of the innermost construct. -/
def matchEnds (text : Text) : Text :=
  matchEndsFrom [] (Tag.split tagKinds text).1 (Tag.split tagKinds text).2

end Outline

end TemplateEngine

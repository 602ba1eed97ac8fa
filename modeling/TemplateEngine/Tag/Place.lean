import TemplateEngine.Excerpt
import TemplateEngine.Tag.Search

/-!
# Where a tag stands

A search hands out what follows a tag, not what precedes it. The place of the tag in the
whole text is recovered from that: the text ends with the tag and what follows it.
-/

namespace TemplateEngine

namespace Tag.Found

/-- Where a tag stands in a text that ends with it and what follows it. -/
def span (text : Text) (found : Found) : Span :=
  ⟨text.take (text.length - (found.tag.content.length + found.rest.length)), found.tag.content,
    found.rest⟩

/-- The place of a tag lies in the text it was found in. -/
theorem source_span {text before : Text} {found : Found}
    (h : text = before ++ found.tag.content ++ found.rest) :
    found.span text = ⟨before, found.tag.content, found.rest⟩ := by
  have hn : text.length - (found.tag.content.length + found.rest.length) = before.length := by
    rw [h]
    simp only [List.length_append]
    omega
  simp only [span, hn]
  rw [h, List.append_assoc, List.take_left]

end Tag.Found

end TemplateEngine

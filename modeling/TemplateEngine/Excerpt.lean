import TemplateEngine.Text

/-!
# Excerpts

An error in a template is reported by an excerpt of the text around it. A `Span` is a piece
of a text together with what stands on both sides, so it needs no offsets and no text beside
it. `Span.underline` shows the line of the piece with a line of marks under it and a number
of lines above and below:

    [8 lines skipped]
        Shopping list:
        {% for item in items %}
        ^^^^^^^^^^^^^^^^^^^^^^^
            <li>{{ item.name }}</li>
    [5 lines skipped]
-/

namespace TemplateEngine

/-- A piece of a text, and what stands on both sides of it. -/
structure Span where
  before : Text
  content : Text
  after : Text
  deriving DecidableEq

namespace Span

/-- The whole text. -/
def source (s : Span) : Text := s.before ++ s.content ++ s.after

/-- The piece of a text between two byte offsets. -/
def ofBytes? (text : Text) (start stop : Nat) : Option Span := do
  let (head, after) ← text.splitAtByte? stop
  let (before, content) ← head.splitAtByte? start
  return ⟨before, content, after⟩

/-- The line that stands for lines left out. -/
def skipped (n : Nat) : List Text :=
  if n = 0 then []
  else [('[' :: (toString n).toList) ++ (if n = 1 then " line" else " lines").toList
    ++ " skipped]".toList]

/-- What stands before the piece on its line. -/
def lead (s : Span) : Text := s.before.lines.getLastD []

/-- The lines above the line of the piece. -/
def above (s : Span) : List Text := s.before.lines.dropLast

/-- What stands behind the piece on its line. -/
def trail (s : Span) : Text := s.after.lines.headD []

/-- The lines below the line of the piece. -/
def below (s : Span) : List Text := s.after.lines.tail

/-- The marks under the piece. Tabs before it are kept, so that the marks stand under it. -/
def marks (mark : Char) (s : Span) : Text :=
  s.lead.map (fun c => if c = '\t' then '\t' else ' ') ++ s.content.map fun _ => mark

/-- The piece with marks under it and up to `around` lines above and below. -/
def underline (around : Nat) (mark : Char) (s : Span) : Text :=
  let hidden := s.above.length - around
  ['\n'].intercalate (skipped hidden ++ s.above.drop hidden
    ++ [s.lead ++ s.content ++ s.trail, s.marks mark]
    ++ s.below.take around ++ skipped (s.below.length - around))

/-- The number of lines that error messages show above and below. -/
def linesAround : Nat := 4

/-- The mark of error messages. -/
def errorMark : Char := '^'

/-- The excerpt of error messages. -/
def excerpt (s : Span) : Text := s.underline linesAround errorMark

end Span

end TemplateEngine

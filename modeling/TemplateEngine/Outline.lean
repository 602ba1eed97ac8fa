import TemplateEngine.Expression
import TemplateEngine.Language

/-!
# Outlines

The outline of a template is the tree of its constructs: pieces of text, output and control
structures with pieces inside them. An `elif` is an `if` that stands alone in the `else` part of
another.
-/

namespace TemplateEngine

/-- A piece of a template. -/
inductive Piece where
  /-- text as it stands -/
  | literal (text : Text)
  /-- the text of a value, escaped unless escaping is off -/
  | output (value : Expr) (escape : Option Language)
  /-- statements -/
  | exec (statements : List Statement)
  /-- `if`, with or without an `else` part -/
  | branch (condition : Expr) (yes : List Piece) (no : Option (List Piece))
  /-- `for`, with or without an `empty` part -/
  | loop (header : LoopHeader) (body : List Piece) (empty : Option (List Piece))
  /-- `while` -/
  | repetition (condition : Expr) (body : List Piece)

/-- The pieces of a template from left to right. -/
abbrev Outline : Type := List Piece

end TemplateEngine

import TemplateEngine.Text

/-!
# Tags

A template is text with *tags* in it. Each kind of tag has one written form with exact
spacing: `{{ x }}` is an expression and `{{x}}` is plain text. `Tag.content` is a tag as it
is written; all tags of a kind begin with the same text, its `TagKind.opening`.
-/

namespace TemplateEngine

/-- The kinds of tags. -/
inductive TagKind where
  | expression
  | statement
  | hashComment
  | blockComment
  /-- `extends` -/
  | inherits
  | block
  | endBlock
  /-- `include` -/
  | inclusion
  deriving DecidableEq, Repr

namespace TagKind

/-- How the tags of a kind begin. -/
def opening : TagKind → Text
  | expression => "\x7b\x7b ".toList
  | statement => "\x7b% ".toList
  | hashComment => "\x7b# ".toList
  | blockComment => "\x7b% comment ".toList
  | inherits => "\x7b% extends ".toList
  | block => "\x7b% block ".toList
  | endBlock => "\x7b% endblock ".toList
  | inclusion => "\x7b% include ".toList

/-- How the tags of a kind end. -/
def closing : TagKind → Text
  | expression => " \x7d\x7d".toList
  | hashComment => " #\x7d".toList
  | _ => " %\x7d".toList

/-- How a tag ends right behind its opening. -/
def bareClosing : Text := "%\x7d".toList

theorem opening_ne_nil (k : TagKind) : k.opening ≠ [] := by cases k <;> decide

end TagKind

/-- A text in quotes. Either quote can be used, and the text may contain it. -/
structure Quoted where
  quote : Char
  text : Text
  deriving DecidableEq

/-- A quoted text with its quotes. -/
def Quoted.content (q : Quoted) : Text := q.quote :: q.text ++ [q.quote]

/-- Tags. A comment section is one tag from its opening tag to its end. -/
inductive Tag where
  | expression (body : Text)
  | statement (body : Text)
  | hashComment (body : Text)
  | blockComment (label : Option Quoted) (body : Text)
  | inherits (path : Quoted)
  | block (name : Text)
  | endBlock (name : Option Text)
  | inclusion (path : Quoted)
  deriving DecidableEq

namespace Tag

/-- The kind of a tag. -/
def kind : Tag → TagKind
  | expression _ => .expression
  | statement _ => .statement
  | hashComment _ => .hashComment
  | blockComment _ _ => .blockComment
  | inherits _ => .inherits
  | block _ => .block
  | endBlock _ => .endBlock
  | inclusion _ => .inclusion

/-- The path or name in a tag. -/
def argument? : Tag → Option Text
  | inherits path | inclusion path => some path.text
  | block name => some name
  | endBlock name => name
  | _ => none

/-- The end of a comment section. -/
def endComment : Text := "\x7b% endcomment %\x7d".toList

/-- What stands behind the opening of a tag. -/
def inner (t : Tag) : Text :=
  match t with
  | expression body | statement body | hashComment body => body ++ t.kind.closing
  | blockComment none body => TagKind.bareClosing ++ body ++ endComment
  | blockComment (some label) body => label.content ++ t.kind.closing ++ body ++ endComment
  | inherits path | inclusion path => path.content ++ t.kind.closing
  | block name => name ++ t.kind.closing
  | endBlock none => TagKind.bareClosing
  | endBlock (some name) => name ++ t.kind.closing

/-- A tag as it is written. -/
def content (t : Tag) : Text := t.kind.opening ++ t.inner

theorem content_ne_nil (t : Tag) : t.content ≠ [] := by
  simp [content, t.kind.opening_ne_nil]

end Tag

end TemplateEngine

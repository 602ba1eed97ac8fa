import TemplateEngine.Text

/-!
# Output languages and their escaping

A template produces a text in some *language*, and the values it writes are escaped for that
language so that they cannot be taken for markup:

* in HTML every punctuation character becomes a named entity;
* in XML the five predefined entities are written;
* in Markdown a backslash stands before every character that could begin markup.

Escaping goes character by character (`Language.escape_append`) and leaves every character
alone that the language does not list.
-/

namespace TemplateEngine

/-- The languages a template can produce. -/
inductive Language where
  | html
  | xml
  | markdown
  deriving DecidableEq, Repr

namespace Language

/-! ## Names -/

/-- The name of a language, in lower case. -/
def name : Language → Text
  | html => "html".toList
  | xml => "xml".toList
  | markdown => "markdown".toList

/-- The language with exactly this name. -/
def ofName? (text : Text) : Option Language :=
  [html, xml, markdown].find? (·.name = text)

/-- Reads the name of a language in any case; Markdown has a short name too. A text that
names no language is handed back in lower case. -/
def read (text : Text) : Except Text Language :=
  let text := text.map Char.toLower
  match ofName? text with
  | some language => .ok language
  | none => if text = "md".toList then .ok markdown else .error text

/-- What is reported for a text that names no language. -/
def unknownMessage (text : Text) : String := "unknown language " ++ String.ofList text

@[simp] theorem ofName?_name (l : Language) : ofName? l.name = some l := by
  cases l <;> decide

/-! ## Escaping -/

/-- The characters that HTML writes as entities, with the names of these. -/
def htmlEntities : List (Char × Text) :=
  [('&', "amp".toList), (';', "semi".toList), ('"', "quot".toList), ('_', "lowbar".toList),
    ('-', "minus".toList), (',', "comma".toList), (':', "colon".toList), ('!', "excl".toList),
    ('?', "quest".toList), ('.', "period".toList), ('\x27', "apos".toList),
    ('(', "lpar".toList), (')', "rpar".toList), ('[', "lsqb".toList), (']', "rsqb".toList),
    ('{', "lcub".toList), ('}', "rcub".toList), ('@', "commat".toList), ('*', "ast".toList),
    ('/', "sol".toList), ('\\', "bsol".toList), ('#', "num".toList), ('%', "percnt".toList),
    ('\x60', "grave".toList), ('^', "Hat".toList), ('+', "plus".toList), ('<', "lt".toList),
    ('=', "equals".toList), ('>', "gt".toList), ('|', "vert".toList), ('~', "tilde".toList),
    ('$', "dollar".toList)]

/-- The characters that XML writes as entities, with the names of these. -/
def xmlEntities : List (Char × Text) :=
  [('&', "amp".toList), ('"', "quot".toList), ('\x27', "apos".toList), ('<', "lt".toList),
    ('>', "gt".toList)]

/-- The characters before which Markdown writes a backslash. -/
def markdownSpecials : List Char :=
  ['\\', '_', '-', '!', '(', ')', '[', ']', '*', '&', '#', '\x60', '+', '<', '>', '|', '~']

/-- A character as its entity, if the table has one for it. -/
def encode (entities : List (Char × Text)) (c : Char) : Text :=
  match entities.lookup c with
  | some entity => '&' :: entity ++ [';']
  | none => [c]

/-- What is written for one character. -/
def escapeChar : Language → Char → Text
  | html, c => encode htmlEntities c
  | xml, c => encode xmlEntities c
  | markdown, c => if c ∈ markdownSpecials then ['\\', c] else [c]

/-- A text as it is written in the language. -/
def escape (l : Language) (text : Text) : Text := text.flatMap l.escapeChar

@[simp] theorem escape_nil (l : Language) : l.escape [] = [] := rfl

@[simp] theorem escape_cons (l : Language) (c : Char) (text : Text) :
    l.escape (c :: text) = l.escapeChar c ++ l.escape text := rfl

@[simp] theorem escape_singleton (l : Language) (c : Char) : l.escape [c] = l.escapeChar c := by
  rw [escape_cons, escape_nil, List.append_nil]

/-- Escaping a joined text joins the escaped texts. -/
theorem escape_append (l : Language) (s t : Text) : l.escape (s ++ t) = l.escape s ++ l.escape t :=
  List.flatMap_append

end Language

end TemplateEngine

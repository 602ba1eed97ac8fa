import TemplateEngine.Text

/-!
# Directives

What a statement tag says. The first word between its marks decides; what follows that word
and a space is the argument. Words that take an argument may also stand alone, with an empty
argument, and words that take none must stand alone.
-/

namespace TemplateEngine

/-- What a statement tag says. -/
inductive Directive where
  | openIf (condition : Text)
  | elif (condition : Text)
  | otherwise
  | endIf
  | openFor (header : Text)
  | empty
  | endFor
  | openWhile (condition : Text)
  | endWhile
  | exec (code : Text)
  | autoescape (mode : Text)
  | endAutoescape
  /-- the end of a block, which only composition understands -/
  | strayEndBlock
  /-- the name of a parent, which only composition understands -/
  | strayExtends
  | unknown
  deriving DecidableEq

namespace Directive

/-- The argument of a word at the start of a body. -/
def argument? (body word : Text) : Option Text :=
  if body = word then some [] else body.after? (word ++ [' '])

/-- The words that take an argument. -/
def withArgument : List (Text × (Text → Directive)) :=
  [("if".toList, openIf), ("elif".toList, elif), ("for".toList, openFor),
    ("while".toList, openWhile), ("exec".toList, exec), ("autoescape".toList, autoescape),
    ("endblock".toList, fun _ => strayEndBlock), ("extends".toList, fun _ => strayExtends)]

/-- The words that stand alone. -/
def alone : List (Text × Directive) :=
  [("else".toList, otherwise), ("endif".toList, endIf), ("empty".toList, empty),
    ("endfor".toList, endFor), ("endwhile".toList, endWhile),
    ("endautoescape".toList, endAutoescape)]

/-- Reads what stands between the marks of a statement tag. -/
def ofBody (body : Text) : Directive :=
  match alone.lookup body with
  | some directive => directive
  | none =>
    (withArgument.findSome? fun (word, directive) => (argument? body word).map directive).getD
      unknown

end Directive

end TemplateEngine

import TemplateEngine.Excerpt
import TemplateEngine.Expression.ParseError

/-!
# What can be wrong with a template

Composing and compiling a template can fail in four ways: a template it refers to does not
exist or cannot be read, an autoescape mode is unknown, or a tag stands where it must not
(`SyntaxFault`). The last is reported with an excerpt of the text around the tag. The
wording of each cause is in `message`.
-/

namespace TemplateEngine

/-- The constructs that have an opening tag and an end tag. -/
inductive Construct where
  | branch
  | loop
  | repetition
  | autoescape
  | block
  deriving DecidableEq, Repr

namespace Construct

/-- The word in the opening tag. -/
def keyword : Construct → String
  | branch => "if"
  | loop => "for"
  | repetition => "while"
  | autoescape => "autoescape"
  | block => "block"

end Construct

/-- The tags that begin a further arm of an open construct. -/
inductive Arm where
  | elif
  | otherwise
  | empty
  deriving DecidableEq, Repr

/-- Why a tag must not stand where it does. -/
inductive SyntaxFault where
  /-- an end or an arm of a construct that is not open -/
  | notOpen (construct : Construct)
  /-- a construct that is never closed -/
  | notClosed (construct : Construct)
  /-- an arm that the innermost construct does not have, or not any more -/
  | misplaced (arm : Arm)
  /-- a parent named a second time, or too late -/
  | misusedExtends
  /-- a statement that there is not -/
  | unknown (tag : Text)
  /-- a tag whose body cannot be parsed -/
  | invalidExpression (error : ParseError)
  /-- a template that is its own ancestor -/
  | circularExtends
  /-- a tag outside the blocks of a template that has a parent -/
  | betweenBlocks
  /-- a block inside a block -/
  | nestedBlocks
  /-- includes inside includes without end -/
  | includeTooDeep
  deriving DecidableEq

/-- The wording of a syntax fault. -/
def SyntaxFault.message : SyntaxFault → String
  | notOpen construct => "No matching \x7b% " ++ construct.keyword ++ " ... %\x7d"
  | notClosed construct => "No matching \x7b% end" ++ construct.keyword ++ " %\x7d"
  | misplaced .elif => "Misplaced \x7b% elif ... %\x7d"
  | misplaced .otherwise => "Misplaced \x7b% else %\x7d"
  | misplaced .empty => "Misplaced \x7b% empty %\x7d"
  | misusedExtends => "Incorrect use of \x7b% extends ... %\x7d"
  | unknown tag => "Unknown token: " ++ String.ofList tag
  | invalidExpression error => "Invalid expression: " ++ error.message
  | circularExtends => "Circular extends"
  | betweenBlocks => "Token between blocks"
  | nestedBlocks => "Nested blocks are not supported"
  | includeTooDeep => "\x7b% include ... %\x7d nested too deeply, possible include cycle"

/-- Why a file cannot be read. -/
inductive ReadFault where
  | missing
  | notDirectory
  | isDirectory
  | nameTooLong
  | zeroByte
  | notUtf8
  deriving DecidableEq, Repr

/-- The wording of a read fault. -/
def ReadFault.message : ReadFault → String
  | missing => "No such file or directory (os error 2)"
  | notDirectory => "Not a directory (os error 20)"
  | isDirectory => "Is a directory (os error 21)"
  | nameTooLong => "File name too long (os error 36)"
  | zeroByte => "file name contained an unexpected NUL byte"
  | notUtf8 => "stream did not contain valid UTF-8"

/-- The causes for which there is no template. -/
inductive TemplateError where
  /-- a path that leads to no template -/
  | notFound (path : Text)
  /-- a tag in the wrong place -/
  | misuse (place : Span) (fault : SyntaxFault)
  /-- an autoescape mode other than `on` and `off` -/
  | unknownAutoescapeMode (mode : Text)
  /-- a template that exists but cannot be read -/
  | unreadable (path : Text) (fault : ReadFault)
  deriving DecidableEq

namespace TemplateError

/-- The wording of the fault of a tag. -/
def reason? : TemplateError → Option String
  | misuse _ fault => some fault.message
  | _ => none

/-- The wording of a template error. -/
def message : TemplateError → String
  | notFound path => s!"Template file not found: {String.ofList path}"
  | misuse place fault => s!"{String.ofList place.excerpt}\n\n{fault.message}"
  | unknownAutoescapeMode mode => s!"Unknown autoescape mode: {String.ofList mode}"
  | unreadable path fault => s!"Failed to read template {String.ofList path}: {fault.message}"

end TemplateError

end TemplateEngine

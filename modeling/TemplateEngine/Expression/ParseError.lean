import TemplateEngine.Expression.Token

/-!
# Parse errors

Why the text inside a tag is no expression, and where. The place is kept as the text that
begins there, and a message quotes the start of it.
-/

namespace TemplateEngine

/-- Why a text is no expression. -/
inductive ParseFault where
  | integerTooLarge
  | unterminatedString
  | unexpectedCharacter (c : Char)
  | expectedSymbol (s : Symbol)
  | expectedKeyword (k : Keyword)
  | expectedName
  | expectedExpression
  | expectedStatement
  | unexpectedKeyword (k : Keyword)
  | unexpectedInput
  | notCallable
  | tooDeep
  deriving DecidableEq

/-- The wording of a parse fault. -/
def ParseFault.message : ParseFault → String
  | integerTooLarge => "integer too large"
  | unterminatedString => "unterminated string"
  | unexpectedCharacter c => s!"unexpected character '{c}'"
  | expectedSymbol s => s!"expected '{String.ofList s.spelling}'"
  | expectedKeyword k => s!"expected '{String.ofList k.spelling}'"
  | expectedName => "expected a name"
  | expectedExpression => "expected an expression"
  | expectedStatement => "expected a statement"
  | unexpectedKeyword k => s!"unexpected '{String.ofList k.spelling}'"
  | unexpectedInput => "unexpected input"
  | notCallable => "only functions and methods can be called"
  | tooDeep => "expression nested too deeply"

/-- A fault and the text from the place where it was found. -/
structure ParseError where
  fault : ParseFault
  rest : Text
  deriving DecidableEq

/-- The number of bytes of the text that a parse error quotes at most. -/
def ParseError.quotedBytes : Nat := 32

/-- The wording of a parse error: the fault, and the text near it. -/
def ParseError.message (e : ParseError) : String :=
  let place :=
    if e.rest.isEmpty then "end of expression"
    else "\"" ++ String.ofList (e.rest.takeBytes quotedBytes) ++ "\""
  s!"{e.fault.message} near {place}"

end TemplateEngine

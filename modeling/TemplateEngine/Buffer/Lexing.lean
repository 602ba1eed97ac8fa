import TemplateEngine.Buffer
import TemplateEngine.Directive
import TemplateEngine.Expression.Lexeme

/-!
# Splitting in place

The text inside a tag is split into lexemes where it stands. Where a lexeme ends is counted in
bytes, and its characters are then a piece of the text. A parse error names a place in the text by
an offset, and quotes what follows it up to a number of bytes, cut back to whole characters.
-/

namespace TemplateEngine

namespace Buffer

/-! ## Ends of lexemes -/

/-- The character at an offset, unless the buffer ends there. -/
def peek (buffer : Text) (offset : Nat) : Except Halt (Option Char) := do
  return (← behind buffer offset).head?

/-- Where the characters of a class end that begin at an offset. -/
def classEnd (p : Char → Bool) (buffer : Text) (offset : Nat) : Except Halt Nat := do
  return offset + Text.byteSize ((← behind buffer offset).takeWhile p)

/-- Where the digits end that begin at an offset, if there are any. -/
def digitsEnd? (buffer : Text) (offset : Nat) : Except Halt (Option Nat) := do
  let digits := (Token.digits (← behind buffer offset)).1
  return if digits.isEmpty then none else some (offset + digits.byteSize)

/-- Where a fraction ends that may begin at an offset. -/
def fractionEnd (buffer : Text) (offset : Nat) : Except Halt Nat := do
  if (← peek buffer offset) = some '.' then
    return (← digitsEnd? buffer (offset + 1)).getD offset
  else return offset

/-- Where a sign ends that may begin at an offset. -/
def signEnd (buffer : Text) (offset : Nat) : Except Halt Nat := do
  let sign ← peek buffer offset
  return if sign = some '+' ∨ sign = some '-' then offset + 1 else offset

/-- Where an exponent ends that may begin at an offset. -/
def exponentEnd (buffer : Text) (offset : Nat) : Except Halt Nat := do
  let mark ← peek buffer offset
  if mark = some 'e' ∨ mark = some 'E' then
    return (← digitsEnd? buffer (← signEnd buffer (offset + 1))).getD offset
  else return offset

/-! ## Lexemes -/

/-- Reads a number at the start of a buffer: its token, and where it ends. -/
def number (buffer : Text) : Except Halt (Except ParseFault (Token × Nat)) := do
  let whole ← classEnd Char.isDigit buffer 0
  let stop ← exponentEnd buffer (← fractionEnd buffer whole)
  let raw ← slice buffer 0 stop
  if whole = stop then
    let value := Decimal.value raw
    if Value.InRange value then return .ok (.int (Int64.ofNat value), stop)
    else return .error .integerTooLarge
  else return .ok (.float ((Decimal.unsigned? raw).getD 0.0), stop)

/-- Reads a token at the start of a buffer that begins with `first`, which `others` follow. -/
def token (buffer : Text) (first : Char) (others : Text) :
    Except Halt (Except ParseFault (Token × Nat)) :=
  if first.isDigit then number buffer
  else if first = '"' ∨ first = '\x27' then
    match Token.string? first others with
    | some (s, rest) => return .ok (.str s, buffer.byteSize - rest.byteSize)
    | none => return .error .unterminatedString
  else if Token.beginsName first then do
    let stop ← classEnd Token.continuesName buffer 0
    return .ok (Token.ofName (← slice buffer 0 stop), stop)
  else
    match Symbol.read? buffer with
    | some (s, _) => return .ok (.symbol s, s.spelling.byteSize)
    | none => return .error (.unexpectedCharacter first)

/-- A lexeme, and the byte where it begins. -/
structure Lexed where
  token : Token
  /-- the characters of the lexeme -/
  raw : Text
  offset : Nat

/-- The lexemes of a buffer from an offset on. -/
def tokenizeFrom (buffer : Text) (offset : Nat) :
    Except Halt (Except ParseError (List Lexed)) := do
  let rest ← behind buffer offset
  let trimmed : Text := rest.dropWhile Character.isBlank
  let start := offset + (rest.byteSize - trimmed.byteSize)
  match trimmed with
  | [] => return .ok []
  | c :: others =>
    match ← token trimmed c others with
    | .error fault => return .error ⟨fault, trimmed⟩
    | .ok (token, size) =>
      let raw ← slice trimmed 0 size
      if buffer.byteSize - (start + size) < buffer.byteSize - offset then
        let lexemes ← tokenizeFrom buffer (start + size)
        return lexemes.map (⟨token, raw, start⟩ :: ·)
      else throw .stuck
termination_by buffer.byteSize - offset

/-- The lexemes of a buffer. -/
def tokenize (buffer : Text) : Except Halt (Except ParseError (List Lexed)) :=
  tokenizeFrom buffer 0

/-! ## Quotations -/

/-- The last place between characters that is not behind an offset. -/
def cutBack (buffer : Text) : (offset : Nat) → Nat
  | 0 => 0
  | offset + 1 =>
    if (buffer.splitAtByte? (offset + 1)).isSome then offset + 1 else cutBack buffer offset

/-- What a parse error quotes of a buffer. -/
def quote (buffer : Text) : Except Halt Text :=
  if ParseError.quotedBytes < buffer.byteSize then
    slice buffer 0 (cutBack buffer ParseError.quotedBytes)
  else return buffer

/-- Splits the text inside a tag, and quotes every place in it that a parse error can name. -/
def scan (buffer : Text) : Except Halt Unit := do
  match ← tokenize buffer with
  | .error e => discard (quote e.rest)
  | .ok lexemes => lexemes.forM fun lexeme => do
    let rest ← behind buffer lexeme.offset
    discard (quote rest)

end Buffer

/-- The text that is parsed for a directive. -/
def Directive.parsed? : Directive → Option Text
  | openIf condition | elif condition | openWhile condition => some condition
  | openFor header => some header
  | exec code => some code
  | _ => none

end TemplateEngine

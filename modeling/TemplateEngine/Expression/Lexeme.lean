import TemplateEngine.Character
import TemplateEngine.Expression.ParseError
import TemplateEngine.Number.Decimal
import TemplateEngine.Value

/-!
# Lexemes

The text inside a tag is read in two steps, and this is the first: it is split into
*lexemes* with blanks between them. A lexeme is the longest piece of its class at its
place, and the first character decides the class:

* a digit begins a number: digits, then a fraction and an exponent if digits follow there;
* a quote begins a string, which ends at the next such quote without a backslash before it;
* a letter or an underscore begins a name, which may be a keyword;
* everything else must be a symbol, of two characters if possible.

A `Token` is what the second step needs to know of a lexeme; a `Lexeme` also keeps its text
and what follows it. `Lexeme.tokenize` is the splitting.
-/

namespace TemplateEngine

/-! ## Reading one token -/

namespace Token

/-- Splits off the digits at the start of a text. -/
def digits (text : Text) : Text × Text :=
  (text.takeWhile Char.isDigit, text.dropWhile Char.isDigit)

/-- Splits off a fraction: a point with digits behind it. -/
def fraction (text : Text) : Text × Text :=
  match text with
  | '.' :: d :: rest =>
    if d.isDigit then ('.' :: (digits (d :: rest)).1, (digits (d :: rest)).2) else ([], text)
  | _ => ([], text)

/-- Splits off a sign. -/
def sign (text : Text) : Text × Text :=
  match text with
  | s :: rest => if s = '+' ∨ s = '-' then ([s], rest) else ([], text)
  | [] => ([], [])

/-- Splits off an exponent: `e`, perhaps a sign, and digits. -/
def exponent (text : Text) : Text × Text :=
  match text with
  | e :: rest =>
    let power := digits (sign rest).2
    if (e = 'e' ∨ e = 'E') ∧ power.1 ≠ [] then (e :: (sign rest).1 ++ power.1, power.2)
    else ([], text)
  | [] => ([], [])

/-- Reads a number. It is a float if it has a fraction or an exponent. -/
def number (text : Text) : Except ParseFault (Token × Text) :=
  let (whole, rest) := digits text
  let (frac, rest) := fraction rest
  let (exp, rest) := exponent rest
  if frac.isEmpty && exp.isEmpty then
    let value := Decimal.value whole
    if Value.InRange value then .ok (.int (Int64.ofNat value), rest)
    else .error .integerTooLarge
  else .ok (.float ((Decimal.unsigned? (whole ++ frac ++ exp)).getD 0.0), rest)

/-- The character a backslash and `c` stand for. -/
def unescape : Char → Char
  | 'n' => '\n'
  | 't' => '\t'
  | 'r' => '\r'
  | c => c

/-- Reads a string up to its closing quote: the text it stands for, and what follows. -/
def string? (quote : Char) : Text → Option (Text × Text)
  | [] => none
  | ['\\'] => none
  | '\\' :: c :: rest => (string? quote rest).map fun (s, after) => (unescape c :: s, after)
  | c :: rest =>
    if c = quote then some ([], rest)
    else (string? quote rest).map fun (s, after) => (c :: s, after)

/-- What a name may begin with. -/
def beginsName (c : Char) : Bool := Character.isLetter c || c == '_'

/-- What a name may go on with. -/
def continuesName (c : Char) : Bool := Character.isAlphanumeric c || c == '_'

/-- The token a name is. -/
def ofName (name : Text) : Token :=
  match Keyword.ofText? name with
  | some k => .keyword k
  | none => .name name

/-- Reads the token at the start of `c :: rest`. -/
def read (c : Char) (rest : Text) : Except ParseFault (Token × Text) :=
  if c.isDigit then number (c :: rest)
  else if c = '"' ∨ c = '\x27' then
    match string? c rest with
    | some (s, rest) => .ok (.str s, rest)
    | none => .error .unterminatedString
  else if beginsName c then
    .ok (ofName (c :: rest.takeWhile continuesName), rest.dropWhile continuesName)
  else
    match Symbol.read? (c :: rest) with
    | some (s, rest) => .ok (.symbol s, rest)
    | none => .error (.unexpectedCharacter c)

/-! ## Nothing is lost

Every splitter gives back its text in two parts, and a token takes at least one character.
-/

@[simp] theorem digits_append (text : Text) : (digits text).1 ++ (digits text).2 = text :=
  List.takeWhile_append_dropWhile

@[simp] theorem fraction_append (text : Text) : (fraction text).1 ++ (fraction text).2 = text := by
  unfold fraction
  split
  · split <;> simp
  · simp

@[simp] theorem sign_append (text : Text) : (sign text).1 ++ (sign text).2 = text := by
  unfold sign
  split
  · split <;> simp
  · simp

@[simp] theorem exponent_append (text : Text) : (exponent text).1 ++ (exponent text).2 = text := by
  unfold exponent
  split
  · dsimp only
    split <;> simp
  · simp

/-- What follows a string ends the text. -/
theorem suffix_of_string? {quote : Char} {text s rest : Text}
    (h : string? quote text = some (s, rest)) : rest <:+ text := by
  fun_induction string? quote text generalizing s with
  | case1 => cases h
  | case2 => cases h
  | case3 c tail ih =>
    obtain ⟨⟨s', rest'⟩, hrest, heq⟩ := Option.map_eq_some_iff.mp h
    obtain ⟨rfl, rfl⟩ := Prod.mk.inj heq
    exact (ih hrest).trans ((List.suffix_cons c tail).trans (List.suffix_cons ..))
  | case4 c tail =>
    obtain ⟨rfl, rfl⟩ := Prod.mk.inj (Option.some.inj h)
    exact List.suffix_cons ..
  | case5 c tail _ _ _ ih =>
    obtain ⟨⟨s', rest'⟩, hrest, heq⟩ := Option.map_eq_some_iff.mp h
    obtain ⟨rfl, rfl⟩ := Prod.mk.inj heq
    exact (ih hrest).trans (List.suffix_cons c tail)

/-- What follows a number ends what follows its first digits. -/
theorem suffix_of_number {text rest : Text} {token : Token}
    (h : number text = .ok (token, rest)) : rest <:+ (digits text).2 := by
  have hrest : rest = (exponent (fraction (digits text).2).2).2 := by
    unfold number at h
    dsimp only at h
    split at h
    · split at h
      · exact (Prod.mk.inj (Except.ok.inj h)).2.symm
      · cases h
    · exact (Prod.mk.inj (Except.ok.inj h)).2.symm
  rw [hrest]
  exact .trans ⟨_, exponent_append _⟩ ⟨_, fraction_append _⟩

/-- What follows a token ends what follows its first character. -/
theorem suffix_of_read {c : Char} {text rest : Text} {token : Token}
    (h : read c text = .ok (token, rest)) : rest <:+ text := by
  unfold read at h
  split at h
  · next hc =>
    have hdigits : (digits (c :: text)).2 = text.dropWhile Char.isDigit := by
      simp [digits, hc]
    exact (hdigits ▸ suffix_of_number h).trans (List.dropWhile_suffix _)
  split at h
  · split at h
    · next hs =>
      obtain ⟨-, rfl⟩ := Prod.mk.inj (Except.ok.inj h)
      exact suffix_of_string? hs
    · cases h
  split at h
  · obtain ⟨-, rfl⟩ := Prod.mk.inj (Except.ok.inj h)
    exact List.dropWhile_suffix _
  split at h
  · next s behind hs =>
    obtain ⟨-, rfl⟩ := Prod.mk.inj (Except.ok.inj h)
    have hlength := s.spelling_length_pos
    obtain ⟨d, more, hspelling⟩ := List.exists_cons_of_length_pos hlength
    have htext := Symbol.eq_of_read? hs
    rw [hspelling, List.cons_append] at htext
    exact ⟨more, (List.cons.inj htext).2.symm⟩
  · cases h

/-- What follows a token is shorter than the text it was read from. -/
theorem length_lt_of_read {c : Char} {text rest : Text} {token : Token}
    (h : read c text = .ok (token, rest)) : rest.length < (c :: text).length :=
  Nat.lt_succ_of_le (suffix_of_read h).length_le

end Token

/-! ## Lexemes -/

/-- A token where it stands in a text. -/
structure Lexeme where
  token : Token
  /-- the characters of the lexeme -/
  raw : Text
  /-- what follows the lexeme -/
  rest : Text

namespace Lexeme

/-- The text from the first character of the lexeme on. -/
def source (l : Lexeme) : Text := l.raw ++ l.rest

/-- Splits a text into lexemes. -/
def tokenize (text : Text) : Except ParseError (List Lexeme) :=
  match h : text.dropWhile Character.isBlank with
  | [] => .ok []
  | c :: tail =>
    match hr : Token.read c tail with
    | .error fault => .error ⟨fault, c :: tail⟩
    | .ok (token, rest) =>
      have : rest.length < text.length := by
        have h1 := Token.length_lt_of_read hr
        have h2 := (List.dropWhile_sublist Character.isBlank (l := text)).length_le
        rw [h] at h2
        omega
      let lexeme := ⟨token, (c :: tail).take ((c :: tail).length - rest.length), rest⟩
      match tokenize rest with
      | .ok lexemes => .ok (lexeme :: lexemes)
      | .error e => .error e
termination_by text.length

/-- The byte offset of a lexeme in the text it was found in. -/
def offset (text : Text) (l : Lexeme) : Nat := text.byteSize - l.source.byteSize

end Lexeme

end TemplateEngine

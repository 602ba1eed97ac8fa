import TemplateEngine.Expression.Lexeme

/-!
# Classes of lexemes

A second account of lexemes, which says what they are and not how they are found. Each of the
four classes is a set of texts (`LexemeClass.Has`), and a text of a class stands for a token
(`LexemeClass.Means`), unless it is an integer out of range. A text is laid out in lexemes
(`Lexeme.Laid`) if it is made of these with blanks between, and each is the longest text of its
class at its place (`Text.Longest`). Where no lexeme can be read, `ParseFault.Stops` says why.
-/

namespace TemplateEngine

/-! ## Longest match -/

namespace Text

/-- A text is the longest of a kind at the start of another. -/
structure Longest (kind : Text → Prop) (front text : Text) : Prop where
  has : kind front
  stands : front <+: text
  length_le : ∀ other, other <+: text → kind other → other.length ≤ front.length

/-- A text is one of a kind and then one of another. -/
def Joins (first second : Text → Prop) (text : Text) : Prop :=
  ∃ front back, first front ∧ second back ∧ text = front ++ back

namespace Longest

variable {kind first second : Text → Prop} {front back text rest a b : Text}

theorem unique (ha : Longest kind a text) (hb : Longest kind b text) : a = b :=
  (List.prefix_of_prefix_length_le ha.stands hb.stands
    (hb.length_le a ha.stands ha.has)).eq_of_length_le (ha.length_le b hb.stands hb.has)

/-- What is longest in a text is so by itself. -/
theorem alone (h : Longest kind front text) : Longest kind front front :=
  ⟨h.has, List.prefix_rfl, fun _ hother _ => hother.length_le⟩

/-- Two longest texts together are longest, if the second kind begins with nothing that the
first text holds: then a shorter first text cannot be followed by one of the second kind. -/
theorem append (hfront : Longest first front text) (hback : Longest second back rest)
    (htext : text = front ++ rest) (hapart : ∀ c later, second (c :: later) → c ∉ front) :
    Longest (Joins first second) (front ++ back) text := by
  refine ⟨⟨front, back, hfront.has, hback.has, rfl⟩, ?_, ?_⟩
  · rw [htext]
    exact (List.prefix_append_right_inj front).mpr hback.stands
  · rintro _ hother ⟨p, q, hp, hq, rfl⟩
    have hstands : p <+: text := (List.prefix_append p q).trans hother
    obtain ⟨more, rfl⟩ : p <+: front :=
      List.prefix_of_prefix_length_le hstands hfront.stands (hfront.length_le p hstands hp)
    rw [htext, List.append_assoc, List.prefix_append_right_inj] at hother
    simp only [List.length_append]
    cases more with
    | nil =>
      have hle := hback.length_le q hother hq
      omega
    | cons d more =>
      cases q with
      | nil => exact Nat.le_add_right_of_le (by simp)
      | cons c later =>
        obtain ⟨rfl, -⟩ := List.cons_prefix_cons.mp hother
        exact absurd (by simp) (hapart c later hq)

end Longest

end Text

/-! ## Classes -/

/-- A class of lexemes. -/
inductive LexemeClass where
  | number
  | string
  /-- names and keywords -/
  | name
  | symbol
  deriving DecidableEq, Repr

namespace LexemeClass

/-- Nothing, or a point with digits behind it. -/
inductive Fraction : Text → Prop
  | without : Fraction []
  | point {digits : Text} (hdigits : Decimal.isNumeral digits) : Fraction ('.' :: digits)

/-- Nothing, or `e`, perhaps a sign, and digits. -/
inductive Exponent : Text → Prop
  | without : Exponent []
  | power {mark : Char} {sign digits : Text} (hmark : mark = 'e' ∨ mark = 'E')
      (hsign : sign = [] ∨ sign = ['+'] ∨ sign = ['-']) (hdigits : Decimal.isNumeral digits) :
      Exponent (mark :: (sign ++ digits))

/-- What follows the quote that begins a string, up to and with the first such quote that has no
backslash before it, and the text it stands for. -/
inductive Quoted (quote : Char) : (body value : Text) → Prop
  | close : Quoted quote [quote] []
  | escaped {c : Char} {body value : Text} (h : Quoted quote body value) :
      Quoted quote ('\\' :: c :: body) (Token.unescape c :: value)
  | plain {c : Char} {body value : Text} (hquote : c ≠ quote) (hslash : c ≠ '\\')
      (h : Quoted quote body value) : Quoted quote (c :: body) (c :: value)

/-- The texts of a class. -/
def Has : LexemeClass → Text → Prop
  | number => Text.Joins (Text.Joins (Decimal.isNumeral ·) Fraction) Exponent
  | string => fun text =>
    ∃ quote body value, Character.IsQuote quote ∧ Quoted quote body value ∧ text = quote :: body
  | name => fun text => ∃ c rest, Token.beginsName c ∧ (∀ d ∈ rest, Token.continuesName d)
    ∧ text = c :: rest
  | symbol => fun text => ∃ s : Symbol, text = s.spelling

/-- The token that a text of a class stands for. An integer out of range stands for none. -/
inductive Means : LexemeClass → Text → Token → Prop
  | int {raw : Text} (hraw : Decimal.isNumeral raw) (hrange : Value.InRange (Decimal.value raw)) :
      Means number raw (.int (.ofNat (Decimal.value raw)))
  | float {raw : Text} {x : Float} (hraw : Decimal.isNumeral raw = false)
      (hx : Decimal.unsigned? raw = some x) : Means number raw (.float x)
  | string {quote : Char} {body value : Text} (h : Quoted quote body value) :
      Means string (quote :: body) (.str value)
  | name {raw : Text} : Means name raw (Token.ofName raw)
  | symbol {raw : Text} {s : Symbol} (hraw : raw = s.spelling) : Means symbol raw (.symbol s)

/-- The class of the lexemes that begin with a character. -/
def of (c : Char) : LexemeClass :=
  if c.isDigit then number
  else if c = '"' ∨ c = '\x27' then string
  else if Token.beginsName c then name
  else symbol

end LexemeClass

/-! ## Whole texts -/

/-- A text begins with these lexemes, and blanks between them. Nothing is skipped up to `rest`. -/
inductive Lexeme.Laid : (text : Text) → List Lexeme → (rest : Text) → Prop
  | nil {blanks rest : Text} (hblanks : ∀ c ∈ blanks, Character.isBlank c) :
      Laid (blanks ++ rest) [] rest
  | cons {blanks rest : Text} {l : Lexeme} {lexemes : List Lexeme} {cls : LexemeClass}
      (hblanks : ∀ c ∈ blanks, Character.isBlank c)
      (hlongest : Text.Longest cls.Has l.raw l.source) (hmeans : cls.Means l.raw l.token)
      (hlater : Laid l.rest lexemes rest) : Laid (blanks ++ l.source) (l :: lexemes) rest

/-- Why no lexeme can be read at the start of a text. -/
inductive ParseFault.Stops : ParseFault → Text → Prop
  | unterminatedString {quote : Char} {rest : Text} (hquote : Character.IsQuote quote)
      (hnone : ∀ front, front <+: quote :: rest → ¬LexemeClass.string.Has front) :
      Stops .unterminatedString (quote :: rest)
  | integerTooLarge {digits text : Text}
      (hlongest : Text.Longest LexemeClass.number.Has digits text)
      (hdigits : Decimal.isNumeral digits) (hlarge : 9223372036854775807 < Decimal.value digits) :
      Stops .integerTooLarge text
  | unexpectedCharacter {c : Char} {rest : Text} (hblank : Character.isBlank c = false)
      (hquote : ¬Character.IsQuote c)
      (hnone : ∀ (cls : LexemeClass) (front : Text), front <+: c :: rest → ¬cls.Has front) :
      Stops (.unexpectedCharacter c) (c :: rest)

end TemplateEngine

import TemplateEngine.Character.Table
import TemplateEngine.Text

/-!
# Character classes

Four classes of characters decide where words end, and all of them reach past ASCII:

* `isBlank`: what separates the lexemes of an expression and the fields of a string;
* `isLetter`: what a name may begin with;
* `isAlphanumeric`: what a name may go on with, beside the underscore;
* `isWord`: what the name of a block is made of.

Each predicate decides an ASCII character directly and looks others up in the ranges of
`Character.Table`. Words are one edition of the Unicode standard behind names, so a letter
belongs to words unless it is a recent one.
-/

namespace TemplateEngine.Character

/-- Blank characters: the property White_Space. -/
def isBlank (c : Char) : Bool :=
  c.toNat ∈ [0x9, 0xa, 0xb, 0xc, 0xd, 0x20, 0x85, 0xa0, 0x1680, 0x2000, 0x2001, 0x2002, 0x2003,
    0x2004, 0x2005, 0x2006, 0x2007, 0x2008, 0x2009, 0x200a, 0x2028, 0x2029, 0x202f, 0x205f,
    0x3000]

/-- Letters of any script. -/
def isLetter (c : Char) : Bool :=
  if c.toNat < 0x80 then c.isAlpha else letters.has c.toNat

/-- Letters and numbers of any script. -/
def isAlphanumeric (c : Char) : Bool :=
  if c.toNat < 0x80 then c.isAlphanum else letters.has c.toNat || digits.has c.toNat

/-- What words are made of: letters, marks, decimal digits and connecting punctuation, the
underscore among them. -/
def isWord (c : Char) : Bool :=
  if c.toNat < 0x80 then c.isAlphanum || c == '_'
  else letters.has c.toNat && !recentLetters.has c.toNat || joiners.has c.toNat

/-- The quotes around a string, and around a path or a label in a tag. -/
def IsQuote (c : Char) : Prop := c = '"' ∨ c = '\x27'

/-- A letter is alphanumeric. -/
theorem isAlphanumeric_of_isLetter {c : Char} (h : isLetter c) : isAlphanumeric c := by
  unfold isLetter at h
  unfold isAlphanumeric
  split <;> simp_all [Char.isAlphanum]

end TemplateEngine.Character

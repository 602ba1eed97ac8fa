import TemplateEngine.Text

/-!
# Tokens

What the text inside a tag is made of: constants, names, keywords, and symbols, which are
operators and punctuation. Keywords and symbols have a fixed spelling. `Symbol.read?` takes
a symbol of two characters before one of a single character.
-/

namespace TemplateEngine

/-- Names with a meaning of their own. -/
inductive Keyword where
  | and
  | or
  | not
  | isIn
  | is
  | ifThen
  | otherwise
  | true
  | false
  | none
  deriving DecidableEq, Repr

namespace Keyword

/-- How a keyword is written. The three constants may also begin with a small letter. -/
def spelling : Keyword → Text
  | and => "and".toList
  | or => "or".toList
  | not => "not".toList
  | isIn => "in".toList
  | is => "is".toList
  | ifThen => "if".toList
  | otherwise => "else".toList
  | true => "True".toList
  | false => "False".toList
  | none => "None".toList

/-- All spellings of all keywords. -/
def spellings : List (Text × Keyword) :=
  [and, or, not, isIn, is, ifThen, otherwise, true, false, none].map (fun k => (k.spelling, k))
    ++ [("true".toList, true), ("false".toList, false), ("none".toList, none)]

/-- The keyword a name is, if it is one. -/
def ofText? (name : Text) : Option Keyword := spellings.lookup name

end Keyword

/-- Operators and punctuation. -/
inductive Symbol where
  | equalEqual
  | bangEqual
  | lessEqual
  | greaterEqual
  | slashSlash
  | plusEqual
  | minusEqual
  | starEqual
  | slashEqual
  | plus
  | minus
  | star
  | slash
  | percent
  | less
  | greater
  | equal
  | openParen
  | closeParen
  | openBracket
  | closeBracket
  | openBrace
  | closeBrace
  | comma
  | colon
  | dot
  | semicolon
  deriving DecidableEq, Repr

namespace Symbol

/-- How a symbol is written. -/
def spelling : Symbol → Text
  | equalEqual => ['=', '=']
  | bangEqual => ['!', '=']
  | lessEqual => ['<', '=']
  | greaterEqual => ['>', '=']
  | slashSlash => ['/', '/']
  | plusEqual => ['+', '=']
  | minusEqual => ['-', '=']
  | starEqual => ['*', '=']
  | slashEqual => ['/', '=']
  | plus => ['+']
  | minus => ['-']
  | star => ['*']
  | slash => ['/']
  | percent => ['%']
  | less => ['<']
  | greater => ['>']
  | equal => ['=']
  | openParen => ['(']
  | closeParen => [')']
  | openBracket => ['[']
  | closeBracket => [']']
  | openBrace => ['{']
  | closeBrace => ['}']
  | comma => [',']
  | colon => [':']
  | dot => ['.']
  | semicolon => [';']

/-- All symbols, the longer ones first. -/
def all : List Symbol :=
  [equalEqual, bangEqual, lessEqual, greaterEqual, slashSlash, plusEqual, minusEqual, starEqual,
    slashEqual, plus, minus, star, slash, percent, less, greater, equal, openParen, closeParen,
    openBracket, closeBracket, openBrace, closeBrace, comma, colon, dot, semicolon]

/-- The longest symbol at the start of a text, and what follows it. -/
def read? (text : Text) : Option (Symbol × Text) :=
  all.findSome? fun s => (text.after? s.spelling).map fun rest => (s, rest)

/-- A symbol is read off the front of the text. -/
theorem eq_of_read? {text rest : Text} {s : Symbol} (h : read? text = some (s, rest)) :
    text = s.spelling ++ rest := by
  simp only [read?, List.findSome?_eq_some_iff, Option.map_eq_some_iff, Prod.mk.injEq] at h
  obtain ⟨_, _, _, -, ⟨_, hr, rfl, rfl⟩, -⟩ := h
  exact Text.after?_eq_some.1 hr

theorem spelling_length_pos (s : Symbol) : 0 < s.spelling.length := by
  cases s <;> decide

end Symbol

/-- What a lexeme means. -/
inductive Token where
  | int (i : Int64)
  | float (x : Float)
  /-- a string literal, by the text it stands for -/
  | str (s : Text)
  | name (name : Text)
  | keyword (k : Keyword)
  | symbol (s : Symbol)

end TemplateEngine

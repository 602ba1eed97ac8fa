import TemplateEngine.Number.Decimal
import TemplateEngine.Number.Shortest
import TemplateEngine.Value

/-!
# The text of a value

A value has two texts. `Value.text` is what a template writes for it; a string is written as
it is. `Value.quoted` is the form inside lists and dictionaries and in messages; there a
string stands in single quotes, with a backslash before quotes and backslashes and `\n` for
a newline. Both agree on everything but strings.
-/

namespace TemplateEngine

/-- What stands for a character between quotes. -/
def Text.quotedChar : Char → Text
  | '\x27' => ['\\', '\x27']
  | '\\' => ['\\', '\\']
  | '\n' => ['\\', 'n']
  | c => [c]

/-- A text in single quotes. -/
def Text.quoted (text : Text) : Text := '\x27' :: text.flatMap quotedChar ++ ['\x27']

namespace Value

mutual

/-- The text of a value inside a list or dictionary. -/
def quoted : Value → Text
  | null => "None".toList
  | bool true => "True".toList
  | bool false => "False".toList
  | int i => Decimal.ofInt i.toInt
  | float x => Binary.text x
  | str s => Text.quoted s
  | list items => '[' :: ", ".toList.intercalate (quotedItems items) ++ [']']
  | dict entries => '{' :: ", ".toList.intercalate (quotedEntries entries) ++ ['}']

/-- The texts of the items of a list. -/
def quotedItems : List Value → List Text
  | [] => []
  | v :: items => quoted v :: quotedItems items

/-- The texts of the entries of a dictionary. -/
def quotedEntries : List (Text × Value) → List Text
  | [] => []
  | (key, v) :: entries => (Text.quoted key ++ ": ".toList ++ quoted v) :: quotedEntries entries

end

/-- What a template writes for a value. -/
def text : Value → Text
  | str s => s
  | v => v.quoted

theorem quotedItems_eq_map (items : List Value) : quotedItems items = items.map quoted := by
  induction items with
  | nil => rfl
  | cons v items ih => simp [quotedItems, ih]

end Value

end TemplateEngine

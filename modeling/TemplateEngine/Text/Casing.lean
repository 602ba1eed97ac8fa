import TemplateEngine.Character
import TemplateEngine.Character.CaseTable

/-!
# Changing the case of a text

`upper` and `lower` map a text character by character, where one character may become
several. The one mapping that looks around is that of the capital sigma: `lower` writes the
final form `ς` where it ends a word. `capitalize` and `title` map each character by itself,
so they never write the final form.
-/

namespace TemplateEngine

namespace Character

/-- The code point a list of runs moves `n` to. -/
def shifted? (runs : List CaseRun) (n : Nat) : Option Nat :=
  (runs.find? (·.has n)).map fun run => (Int.ofNat n + run.shift).toNat

/-- The upper case of a character. -/
def upper (c : Char) : Text :=
  if c.toNat < 0x80 then [c.toUpper]
  else match upperSpecials.lookup c.toNat with
    | some several => several.map Char.ofNat
    | none => [(shifted? upperRuns c.toNat).elim c Char.ofNat]

/-- The lower case of a character that stands by itself. -/
def lower (c : Char) : Text :=
  if c.toNat < 0x80 then [c.toLower]
  else match lowerSpecials.lookup c.toNat with
    | some several => several.map Char.ofNat
    | none => [(shifted? lowerRuns c.toNat).elim c Char.ofNat]

/-- Characters with a case. -/
def isCased (c : Char) : Bool :=
  if c.toNat < 0x80 then c.isAlpha else cased.has c.toNat

/-- Characters that do not end a word although they are no letters with a case: apostrophes,
points, marks and the like. -/
def isPassedOver (c : Char) : Bool :=
  if c.toNat < 0x80 then c ∈ ['\x27', '.', ':', '^', '\x60'] else passedOver.has c.toNat

end Character

namespace Text

/-- The text in upper case. -/
def upper (text : Text) : Text := text.flatMap Character.upper

/-- The next character that counts has a case. -/
def nextIsCased (text : Text) : Bool :=
  ((text.dropWhile Character.isPassedOver).head?.map Character.isCased).getD false

/-- The lower case of what follows `passed`, which is given in reverse. A capital sigma is
final if a letter with a case stands before it and none after it. -/
def lowerAfter (passed : Text) : Text → Text
  | [] => []
  | c :: text =>
    (if c = 'Σ' then if nextIsCased passed && !nextIsCased text then ['ς'] else ['σ']
      else Character.lower c) ++ lowerAfter (c :: passed) text

/-- The text in lower case. -/
def lower (text : Text) : Text := lowerAfter [] text

/-- The text with its first character in upper case and all others in lower case. -/
def capitalize : Text → Text
  | [] => []
  | c :: text => Character.upper c ++ text.flatMap Character.lower

/-- The rest of a title: upper case after anything but a letter, lower case after a
letter. -/
def titleAfter (letterBefore : Bool) : Text → Text
  | [] => []
  | c :: text =>
    (if letterBefore then Character.lower c else Character.upper c)
      ++ titleAfter (Character.isLetter c) text

/-- The text with every word in lower case but for its first letter. -/
def title (text : Text) : Text := titleAfter false text

end Text

end TemplateEngine

import TemplateEngine.Options
import TemplateEngine.Value

/-!
# Settings

Options can be written down as a value. A dictionary holds the options that differ from
their defaults under their names, and names it does not know are ignored; a list holds them
in their order. What is written must have the right type: no value is not a default.

What `toValue` writes is read back by `ofValue?`.
-/

namespace TemplateEngine

/-- The language that a value stands for: its name, or a dictionary with its name as the only
key and nothing under it. -/
def Language.ofValue? : Value → Option Language
  | .str name => ofName? name
  | .dict [(name, .null)] => ofName? name
  | _ => none

/-- The truth value that a value is. -/
def Value.asBool? : Value → Option Bool
  | .bool b => some b
  | _ => none

namespace Options

/-- The name of the setting for the language. -/
def languageName : Text := "language".toList

/-- The name of the setting for newlines behind tags. -/
def trimBlocksName : Text := "trim_blocks".toList

/-- The name of the setting for spaces before tags. -/
def lstripBlocksName : Text := "lstrip_blocks".toList

/-- Reads a setting that may be left out. -/
def setting? {α : Type} (read : Value → Option α) (default : α) : Option Value → Option α
  | none => some default
  | some v => read v

/-- The options of three settings, each of which may be left out. -/
def ofSettings? (language trimBlocks lstripBlocks : Option Value) : Option Options := do
  let defaults : Options := {}
  return {
    language := ← setting? Language.ofValue? defaults.language language
    trimBlocks := ← setting? Value.asBool? defaults.trimBlocks trimBlocks
    lstripBlocks := ← setting? Value.asBool? defaults.lstripBlocks lstripBlocks }

/-- Reads options. -/
def ofValue? : Value → Option Options
  | .dict entries =>
    ofSettings? (Entries.get? languageName entries) (Entries.get? trimBlocksName entries)
      (Entries.get? lstripBlocksName entries)
  | .list items => if items.length ≤ 3 then ofSettings? items[0]? items[1]? items[2]? else none
  | _ => none

/-- Options as a value. -/
def toValue (o : Options) : Value :=
  .dict (Entries.ofList [(languageName, .str o.language.name), (trimBlocksName, .bool o.trimBlocks),
    (lstripBlocksName, .bool o.lstripBlocks)])

/-- Options that are written down are read back. -/
theorem ofValue?_toValue (o : Options) : ofValue? o.toValue = some o := by
  obtain ⟨language, trim, lstrip⟩ := o
  cases language <;> rfl

end Options

end TemplateEngine

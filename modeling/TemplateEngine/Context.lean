import TemplateEngine.Value

/-!
# Contexts

A context is what a template is rendered with: values under names. It is given anew for
every rendering, and no template changes it.
-/

namespace TemplateEngine

/-- Values under names. -/
abbrev Context : Type := Entries Value

namespace Context

/-- The context that a dictionary is. Nothing else is a context; the kind of it is handed
back. -/
def ofValue : Value → Except Kind Context
  | .dict entries => .ok entries
  | v => .error v.kind

/-- What is reported for a value that is no context. -/
def errorMessage (kind : Kind) : String := s!"a template context must be an object, got {kind}"

/-- The context as a value. -/
def toValue (c : Context) : Value := .dict c

end Context

end TemplateEngine

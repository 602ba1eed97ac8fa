import TemplateEngine.TemplateError

/-!
# Where templates come from

A template names others by path. A *loader* is all that composition asks about paths: whether
one leads to a file, and what that file holds. It may go on for ever with new templates.

A *resolver* holds finitely many files under keys, and `locate` gives the key of a path, if the
path leads anywhere. Several paths may lead to one file. A file can exist and still be
unreadable.
-/

namespace TemplateEngine

/-- The answers that composition asks for. -/
structure Loader where
  /-- whether the path leads to a file -/
  isFile : Text → Bool
  /-- what the file holds -/
  read : Text → Except TemplateError Text

/-- The template a path leads to. -/
def Loader.load (l : Loader) (path : Text) : Except TemplateError Text :=
  if l.isFile path then l.read path else .error (.notFound path)

/-- Finitely many files, and the way paths lead to them. -/
structure Resolver where
  /-- the files under their keys: the text, or why it cannot be read -/
  files : List (Text × Except ReadFault Text)
  /-- the key that a path stands for -/
  locate : Text → Option Text

namespace Resolver

/-- The file a path leads to. -/
def file? (r : Resolver) (path : Text) : Option (Except ReadFault Text) :=
  (r.locate path).bind fun key => r.files.lookup key

/-- Whether a path leads to a file. -/
def isFile (r : Resolver) (path : Text) : Bool := (r.file? path).isSome

/-- The template a path leads to. -/
def load (r : Resolver) (path : Text) : Except TemplateError Text :=
  match r.file? path with
  | none => .error (.notFound path)
  | some (.error fault) => .error (.unreadable path fault)
  | some (.ok text) => .ok text

/-- The answers of a resolver. -/
def loader (r : Resolver) : Loader := ⟨r.isFile, r.load⟩

/-- No templates at all. -/
def empty : Resolver := ⟨[], some⟩

/-- Templates under the very paths that lead to them. -/
def ofTemplates (templates : List (Text × Text)) : Resolver :=
  ⟨templates.map fun (path, text) => (path, .ok text), some⟩

/-- Loading succeeds exactly on files that can be read. -/
theorem load_eq_ok {r : Resolver} {path text : Text} :
    r.load path = .ok text ↔ r.file? path = some (.ok text) := by
  unfold load
  split <;> simp_all

/-- Only files are loaded. -/
theorem load_of_not_isFile {r : Resolver} {path : Text} (h : r.isFile path = false) :
    r.load path = .error (.notFound path) := by
  have hnone : r.file? path = none := Option.isNone_iff_eq_none.mp (by simpa [isFile] using h)
  rw [load, hnone]

/-- Nothing is wrong with the tags of a template that cannot be loaded. -/
theorem load_ne_misuse {r : Resolver} {path : Text} {span : Span} {fault : SyntaxFault} :
    r.load path ≠ .error (.misuse span fault) := by
  rw [load]
  split <;> simp

@[simp] theorem load_loader (r : Resolver) (path : Text) : r.loader.load path = r.load path := by
  rw [Loader.load]
  split
  · rfl
  · next h => rw [load_of_not_isFile (Bool.eq_false_iff.mpr h)]

end Resolver

end TemplateEngine

import TemplateEngine.Template

/-!
# Caches

A cache keeps compiled templates. What identifies a template is its source or its path,
together with the options it was compiled with; paths and sources never meet. Only what
compiles is kept, so a template that fails is compiled anew every time.
-/

namespace TemplateEngine

/-- What identifies a template in a cache. -/
inductive CacheKey where
  | source (source : Text) (options : Options)
  | path (path : Text) (options : Options)
  deriving DecidableEq

/-- Compiled templates under their keys, the latest first. -/
structure Cache where
  templates : List (CacheKey × Template) := []

namespace Cache

/-- The template under a key. -/
def get? (c : Cache) (key : CacheKey) : Option Template := c.templates.lookup key

/-- Whether there is a template under a key. -/
def has (c : Cache) (key : CacheKey) : Bool := (c.get? key).isSome

/-- The number of templates. -/
def size (c : Cache) : Nat := c.templates.length

/-- The template under a key, which is compiled and kept if it is not there; and the cache
after that. -/
def getOrCompile (c : Cache) (key : CacheKey) (compile : Unit → Except TemplateError Template) :
    Except TemplateError Template × Cache :=
  match c.get? key with
  | some t => (.ok t, c)
  | none =>
    match compile () with
    | .ok t => (.ok t, ⟨(key, t) :: c.templates⟩)
    | .error e => (.error e, c)

/-- The template of a source. -/
def ofSource (c : Cache) (r : Resolver) (o : Options) (source : Text) :
    Except TemplateError Template × Cache :=
  c.getOrCompile (.source source o) fun _ => Template.compile r o none source

/-- The template that a path leads to. -/
def ofPath (c : Cache) (r : Resolver) (o : Options) (path : Text) :
    Except TemplateError Template × Cache :=
  c.getOrCompile (.path path o) fun _ => Template.compilePath r o path

end Cache

end TemplateEngine

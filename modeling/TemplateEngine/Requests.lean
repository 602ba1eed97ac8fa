import TemplateEngine.Cache

/-!
# Requests

How an application uses templates: it has one rendered to a text or as a stream, named by its
source or by its path and compiled with some options, and it may empty the cache. Every request
also works without a cache; then the template is compiled anew.
-/

namespace TemplateEngine

namespace CacheKey

variable (r : Resolver)

/-- The template that a key names, compiled anew. -/
def compile : CacheKey → Except TemplateError Template
  | source text o => Template.compile r o none text
  | path name o => Template.compilePath r o name

/-- The template that a key names, from the cache if there is one; and the cache after that. -/
def fetch (key : CacheKey) : Option Cache → Except TemplateError Template × Option Cache
  | none => (key.compile r, none)
  | some c =>
    match key with
    | source text o => (c.ofSource r o text).map id some
    | path name o => (c.ofPath r o name).map id some

end CacheKey

/-- What an application asks for. -/
inductive Request where
  /-- the text of a template -/
  | render (key : CacheKey) (context : Context)
  /-- the output of a template piece by piece, in chunks of some size if one is given -/
  | iterate (key : CacheKey) (context : Context) (size : Option Nat)
  /-- an empty cache -/
  | clear

/-- What an application is given. -/
inductive Reply where
  /-- the text after some number of steps, or the error of the rendering -/
  | text (result : Except TemplateError (Nat → Option (Except RenderError Text)))
  | stream (result : Except TemplateError Rendering)
  | cleared

namespace Request

variable (r : Resolver)

/-- The reply to a request, and the cache after it. -/
def answer (cache : Option Cache) : Request → Reply × Option Cache
  | render key context =>
    (key.fetch r cache).map (fun t => .text (t.map fun t steps => t.render? steps context)) id
  | iterate key context size =>
    (key.fetch r cache).map (fun t => .stream (t.map fun t => .start t context size)) id
  | clear => (.cleared, cache.map fun _ => {})

/-- The replies to requests one after the other, and the cache after the last. -/
def answerAll (cache : Option Cache) : List Request → List Reply × Option Cache
  | [] => ([], cache)
  | q :: requests =>
    (answerAll (q.answer r cache).2 requests).map ((q.answer r cache).1 :: ·) id

/-- The reply to a request that is made without a cache. -/
def alone (q : Request) : Reply := (q.answer r none).1

/-- What the request names a template by. -/
def key? : Request → Option CacheKey
  | render key _ | iterate key _ _ => some key
  | clear => none

/-- The requests behind the last one for an empty cache, the latest first. -/
def sinceClear (requests : List Request) : List Request :=
  requests.reverse.takeWhile fun q => q.key?.isSome

/-- The keys of requests whose templates compile. -/
def compiled (requests : List Request) : List CacheKey :=
  (requests.filterMap key?).filter fun key => (key.compile r).isOk

end Request

end TemplateEngine

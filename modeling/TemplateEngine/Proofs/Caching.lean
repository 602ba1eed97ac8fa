import Mathlib.Data.Finset.Card
import TemplateEngine.Requests

/-!
# Caching is transparent

As long as the files stay the same, a cache changes nothing but the work that is done: every reply
is the one that the request has without a cache (`Request.answerAll_cached`). The invariant is that
a cache holds what compiling its keys gives, and just the keys that have compiled since it was
emptied, each of them once (`Cache.Holds`). One request keeps it (`Cache.Holds.answer`), and with it
all requests do.
-/

namespace TemplateEngine

variable {r : Resolver} {c : Cache} {keys : List CacheKey} {key : CacheKey} {t : Template}

/-! ## Hits and misses -/

namespace Cache

/-- A key is looked up among those that are kept. -/
theorem get?_eq_none_iff : c.get? key = none ↔ key ∉ c.templates.map Prod.fst := by
  rw [get?, List.lookup_eq_none_iff, List.mem_map]
  constructor
  · rintro h ⟨entry, hentry, rfl⟩
    exact bne_iff_ne.mp (h entry hentry) rfl
  · intro h entry hentry
    exact bne_iff_ne.mpr fun heq => h ⟨entry, hentry, heq.symm⟩

theorem mem_of_get? (h : c.get? key = some t) : (key, t) ∈ c.templates := by
  obtain ⟨front, back, heq, -⟩ := List.lookup_eq_some_iff.mp h
  rw [heq]
  exact List.mem_append_right _ List.mem_cons_self

/-- **The cache holds** the templates of some keys, and nothing else. -/
structure Holds (r : Resolver) (c : Cache) (keys : List CacheKey) : Prop where
  distinct : (c.templates.map Prod.fst).Nodup
  mem_iff : ∀ key, key ∈ c.templates.map Prod.fst ↔ key ∈ keys
  compiled : ∀ entry ∈ c.templates, entry.1.compile r = .ok entry.2

namespace Holds

theorem empty (r : Resolver) : Holds r {} [] :=
  ⟨List.nodup_nil, fun _ => Iff.rfl, by simp⟩

/-- There are as many templates as different keys. -/
theorem size_eq (h : Holds r c keys) : c.size = keys.toFinset.card := by
  have hkeys : (c.templates.map Prod.fst).toFinset = keys.toFinset := by
    ext key
    rw [List.mem_toFinset, List.mem_toFinset, h.mem_iff]
  rw [← hkeys, List.toFinset_card_of_nodup h.distinct, List.length_map]
  rfl

/-- A template that is kept is what its key compiles to. -/
theorem compile_of_get? (h : Holds r c keys) (hget : c.get? key = some t) :
    key.compile r = .ok t :=
  h.compiled _ (mem_of_get? hget)

/-- A template that has just been compiled is kept. -/
theorem cons (h : Holds r c keys) (hget : c.get? key = none) (hcompile : key.compile r = .ok t) :
    Holds r ⟨(key, t) :: c.templates⟩ (key :: keys) := by
  refine ⟨List.nodup_cons.mpr ⟨get?_eq_none_iff.mp hget, h.distinct⟩, ?_, ?_⟩
  · intro other
    rw [List.map_cons, List.mem_cons, List.mem_cons, h.mem_iff]
  · exact List.forall_mem_cons.mpr ⟨hcompile, h.compiled⟩

/-- A key that is there already counts no more than once. -/
theorem repeated (h : Holds r c keys) (hget : c.get? key = some t) : Holds r c (key :: keys) := by
  refine ⟨h.distinct, ?_, h.compiled⟩
  have hmem : key ∈ keys := (h.mem_iff key).mp (List.mem_map_of_mem (mem_of_get? hget))
  intro other
  rw [h.mem_iff, List.mem_cons]
  constructor
  · exact .inr
  · rintro (rfl | hother)
    · exact hmem
    · exact hother

end Holds

end Cache

namespace CacheKey

theorem fetch_some (r : Resolver) (key : CacheKey) (c : Cache) :
    key.fetch r (some c) = (c.getOrCompile key fun _ => key.compile r).map id some := by
  cases key <;> rfl

/-- **A template is fetched** from a cache as it is compiled without one; and then its key is held,
if it compiles. -/
theorem fetch_of_holds (h : c.Holds r keys) (key : CacheKey) :
    ∃ c', key.fetch r (some c) = (key.compile r, some c')
      ∧ (∀ t, key.compile r = .ok t → c'.Holds r (key :: keys))
      ∧ ∀ e, key.compile r = .error e → c' = c := by
  rw [fetch_some, Cache.getOrCompile]
  cases hget : c.get? key with
  | some t =>
    have hcompile := h.compile_of_get? hget
    rw [hcompile]
    exact ⟨c, rfl, fun _ _ => h.repeated hget, fun _ _ => rfl⟩
  | none =>
    cases hcompile : key.compile r with
    | ok t =>
      refine ⟨⟨(key, t) :: c.templates⟩, rfl, fun _ _ => h.cons hget hcompile, ?_⟩
      intro e he
      cases he
    | error e =>
      refine ⟨c, rfl, ?_, fun _ _ => rfl⟩
      intro t ht
      cases ht

end CacheKey

/-! ## Requests -/

namespace Request

variable {q : Request} {requests : List Request}

/-- What a request does with the template it names does not depend on where that is from. -/
theorem exists_answer_eq (r : Resolver) (hkey : q.key? = some key) :
    ∃ reply : Except TemplateError Template → Reply, ∀ cache,
      q.answer r cache = (reply (key.fetch r cache).1, (key.fetch r cache).2) := by
  cases q with
  | render _ context =>
    cases hkey
    exact ⟨fun t => .text (t.map fun t steps => t.render? steps context), fun _ => rfl⟩
  | iterate _ context size =>
    cases hkey
    exact ⟨fun t => .stream (t.map fun t => .start t context size), fun _ => rfl⟩
  | clear => cases hkey

theorem sinceClear_concat_of_key (hkey : q.key? = some key) :
    sinceClear (requests ++ [q]) = q :: sinceClear requests := by
  rw [sinceClear, List.reverse_append, List.reverse_singleton, List.singleton_append,
    List.takeWhile_cons_of_pos (by rw [hkey]; rfl), sinceClear]

theorem sinceClear_concat_of_clear : sinceClear (requests ++ [clear]) = [] := by
  rw [sinceClear, List.reverse_append]
  rfl

theorem compiled_cons_of_ok (hkey : q.key? = some key) (h : key.compile r = .ok t) :
    compiled r (q :: requests) = key :: compiled r requests := by
  rw [compiled, List.filterMap_cons_some hkey, List.filter_cons_of_pos (by rw [h]; rfl), compiled]

theorem compiled_cons_of_error {e : TemplateError} (hkey : q.key? = some key)
    (h : key.compile r = .error e) : compiled r (q :: requests) = compiled r requests := by
  rw [compiled, List.filterMap_cons_some hkey, List.filter_cons_of_neg, compiled]
  rw [h]
  exact Bool.false_ne_true

/-- **One request** has the reply that it has without a cache, and the invariant is kept. -/
theorem answer_of_holds (h : c.Holds r (compiled r (sinceClear requests))) (q : Request) :
    ∃ c', q.answer r (some c) = (q.alone r, some c')
      ∧ c'.Holds r (compiled r (sinceClear (requests ++ [q]))) := by
  cases hkey : q.key? with
  | none =>
    cases q with
    | clear =>
      refine ⟨{}, rfl, ?_⟩
      rw [sinceClear_concat_of_clear]
      exact Cache.Holds.empty r
    | _ => cases hkey
  | some key =>
    obtain ⟨reply, hreply⟩ := exists_answer_eq r hkey
    obtain ⟨c', hfetch, hok, herror⟩ := key.fetch_of_holds h
    refine ⟨c', ?_, ?_⟩
    · rw [alone, hreply, hreply, hfetch]
      rfl
    · rw [sinceClear_concat_of_key hkey]
      cases hcompile : key.compile r with
      | ok t =>
        rw [compiled_cons_of_ok hkey hcompile]
        exact hok t hcompile
      | error e =>
        rw [compiled_cons_of_error hkey hcompile, herror e hcompile]
        exact h

theorem answerAll_append (r : Resolver) (cache : Option Cache) (front back : List Request) :
    answerAll r cache (front ++ back)
      = (answerAll r (answerAll r cache front).2 back).map
        ((answerAll r cache front).1 ++ ·) id := by
  induction front generalizing cache with
  | nil => rfl
  | cons q front ih =>
    rw [List.cons_append, answerAll, answerAll, ih]
    rfl

theorem holds_answerAll (r : Resolver) (requests : List Request) :
    ∃ c, answerAll r (some {}) requests = (requests.map (·.alone r), some c)
      ∧ c.Holds r (compiled r (sinceClear requests)) := by
  induction requests using List.reverseRecOn with
  | nil => exact ⟨{}, rfl, Cache.Holds.empty r⟩
  | append_singleton requests q ih =>
    obtain ⟨c, hanswers, hholds⟩ := ih
    obtain ⟨c', hanswer, hholds'⟩ := answer_of_holds hholds q
    refine ⟨c', ?_, hholds'⟩
    rw [answerAll_append, hanswers, answerAll, hanswer, List.map_append]
    rfl

/-- **A cache is transparent.** Whatever has been asked for through a new cache, each request has
had the reply that it has without one; there are as many templates in the cache as different keys
have compiled since it was emptied last; and a request for a template that does not compile leaves
it as it is. -/
theorem answerAll_cached (r : Resolver) (requests : List Request) :
    ∃ c, answerAll r (some {}) requests = (requests.map (·.alone r), some c)
      ∧ c.size = (compiled r (sinceClear requests)).toFinset.card
      ∧ ∀ q key e, key? q = some key → key.compile r = .error e →
        (q.answer r (some c)).2 = some c := by
  obtain ⟨c, hanswers, hholds⟩ := holds_answerAll r requests
  refine ⟨c, hanswers, hholds.size_eq, ?_⟩
  intro q key e hkey hcompile
  obtain ⟨reply, hreply⟩ := exists_answer_eq r hkey
  obtain ⟨c', hfetch, -, herror⟩ := key.fetch_of_holds hholds
  rw [hreply, hfetch, herror e hcompile]

/-- A source and a path of equal text are two templates, a repeated one counts once, and a missing
one not at all. -/
theorem answerAll_cached_missing :
    let r : Resolver := ⟨[(['a'], .ok ['b'])], some⟩
    let requests := [render (.source ['c'] {}) [], clear, render (.path ['a'] {}) [],
      iterate (.source ['a'] {}) [] (some 1), render (.path ['a'] {}) []]
    let missing := CacheKey.path ['x'] {}
    missing.compile r = .error (.notFound ['x'])
      ∧ ∃ c, answerAll r (some {}) requests = (requests.map (·.alone r), some c)
        ∧ c.size = 2 ∧ ((render missing []).answer r (some c)).2 = some c := by
  intro r requests missing
  have hmissing : missing.compile r = .error (.notFound ['x']) := rfl
  have hkeys : (compiled r (sinceClear requests)).toFinset.card = 2 := by decide +kernel
  obtain ⟨c, hanswers, hsize, hfails⟩ := answerAll_cached r requests
  have hunchanged := hfails (render missing []) missing _ rfl hmissing
  exact ⟨hmissing, c, hanswers, hsize.trans hkeys, hunchanged⟩

end Request

end TemplateEngine

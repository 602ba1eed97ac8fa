import TemplateEngine.Ancestry
import TemplateEngine.Proofs.Splicing

/-!
# What a round of a composition does

A round that ends without an error finds the root, goes on to a parent, or finds that the extends
tag of the text was part of what an include replaced (`Loader.Step`). Every statement about
compositions that succeed is a case distinction over it, and an induction over the rounds
(`Loader.Composes`).

Where a composition is bounded, its result is that of the rounds unless it has run into the bound
(`Loader.composes_of_climb`). A resolver never runs into it: every round but the first takes away
one of the parents that its files name (`Resolver.composes_climb`), so its compositions are those
of the rounds, and all of them end (`Resolver.composes_compose`).
-/

namespace TemplateEngine

/-- An extends tag gives a path. -/
theorem Tag.eq_inherits_of_find {text : Text} {found : Found}
    (h : find [.inherits] text = some found) :
    ∃ before path after, found = ⟨before, .inherits path, after⟩ := by
  obtain ⟨before, tag, after⟩ := found
  have hkind := List.mem_singleton.mp (kind_mem_of_find h)
  cases tag with
  | inherits path => exact ⟨before, path, after, rfl⟩
  | _ => cases hkind

namespace Loader

variable {l : Loader} {a : Ascent} {round : Round} {composition : Composition}
  {result : Except TemplateError Composition}

/-! ## Steps -/

theorem finish_eq_ok {overrides : Overrides} {loads : List Text} {text : Text}
    (h : l.finish overrides loads text = .ok composition) :
    ∃ root, l.includes text = .ok root
      ∧ overrides.replaceIn [] root.text = .ok composition.source
      ∧ composition.dependencies = (loads ++ root.loads).eraseDups := by
  obtain ⟨root, hroot, h⟩ := exists_of_bind_eq_ok h
  obtain ⟨source, hsource, h⟩ := exists_of_bind_eq_ok h
  obtain rfl := Except.ok.inj h
  exact ⟨root, hroot, hsource, rfl⟩

/-- What a round without an error does. -/
inductive Step (l : Loader) (a : Ascent) : Round → Prop
  /-- a text without an extends tag is the root -/
  | root {composition : Composition} (alone : Tag.find [.inherits] a.text = none)
    (finish : l.finish a.overrides a.loads a.text = .ok composition) :
    Step l a (.finished composition)
  /-- a text that loses its extends tag to an include is the root -/
  | orphan {before after parent : Text} {path : Quoted} {whole : Spliced}
    {composition : Composition}
    (inherits : Tag.find [.inherits] a.text = some ⟨before, .inherits path, after⟩)
    (fresh : path.text ∉ a.visited) (load : l.load path.text = .ok parent)
    (includes : l.includes a.text = .ok whole) (lost : Tag.find [.inherits] whole.text = none)
    (finish : l.finish a.overrides (a.loads ++ path.text :: whole.loads) whole.text
      = .ok composition) :
    Step l a (.finished composition)
  /-- the overrides of a text are collected, and its parent is next -/
  | child {before after parent : Text} {path : Quoted} {whole : Spliced} {inner : Tag.Found}
    {overrides : Overrides}
    (inherits : Tag.find [.inherits] a.text = some ⟨before, .inherits path, after⟩)
    (fresh : path.text ∉ a.visited) (load : l.load path.text = .ok parent)
    (includes : l.includes a.text = .ok whole)
    (keeps : Tag.find [.inherits] whole.text = some inner)
    (once : Tag.find [.inherits] inner.rest = none)
    (collect : a.overrides.collect whole.text inner.rest = .ok overrides) :
    Step l a (.onward ⟨path.text :: a.visited, overrides,
      a.loads ++ path.text :: whole.loads, parent⟩)

/-- A round that ends without an error takes a step. -/
theorem step_of_round (h : l.round a = .ok round) : Step l a round := by
  rw [Loader.round] at h
  split at h
  · next alone =>
    obtain ⟨composition, finish, rfl⟩ := exists_of_map_eq_ok h
    exact .root alone finish
  · next found inherits =>
    obtain ⟨before, path, after, rfl⟩ := Tag.eq_inherits_of_find inherits
    dsimp only at h
    split at h
    · cases h
    split at h
    · cases h
    · next fresh =>
      obtain ⟨parent, load, h⟩ := exists_of_bind_eq_ok h
      obtain ⟨whole, includes, h⟩ := exists_of_bind_eq_ok h
      split at h
      · next lost =>
        obtain ⟨composition, finish, rfl⟩ := exists_of_map_eq_ok h
        exact .orphan inherits fresh load includes lost finish
      · next inner keeps =>
        split at h
        · cases h
        · next once =>
          obtain ⟨overrides, collect, h⟩ := exists_of_bind_eq_ok h
          obtain rfl := Except.ok.inj h
          exact .child inherits fresh load includes keeps once collect

/-- Every step is taken by a round. -/
theorem Step.round_eq (h : Step l a round) : l.round a = .ok round := by
  cases h with
  | root alone finish =>
    simp only [Loader.round, alone, finish]
    rfl
  | orphan inherits fresh load includes lost finish =>
    simp [Loader.round, inherits, Tag.argument?, (load_eq_ok.mp load).1, fresh, load, includes,
      lost, finish, bind, Except.bind, Except.map]
  | child inherits fresh load includes keeps once collect =>
    simp [Loader.round, inherits, Tag.argument?, (load_eq_ok.mp load).1, fresh, load, includes,
      keeps, once, collect, bind, Except.bind, pure, Except.pure]

/-! ## Rounds -/

/-- A composition has one result. -/
theorem Composes.unique {result' : Except TemplateError Composition} (h : l.Composes a result)
    (h' : l.Composes a result') : result = result' := by
  induction h with
  | failed h =>
    cases h' with
    | failed h' => exact congrArg Except.error (Except.error.inj (h.symm.trans h'))
    | finished h' => cases h.symm.trans h'
    | onward h' _ => cases h.symm.trans h'
  | finished h =>
    cases h' with
    | failed h' => cases h.symm.trans h'
    | finished h' =>
      cases h.symm.trans h'
      rfl
    | onward h' _ => cases h.symm.trans h'
  | onward h _ ih =>
    cases h' with
    | failed h' => cases h.symm.trans h'
    | finished h' => cases h.symm.trans h'
    | onward h' rest =>
      cases h.symm.trans h'
      exact ih rest

/-- A composition that is bounded succeeds only if its rounds do. -/
theorem composes_of_climb {fuel : Nat} (h : l.climb fuel a = .ok composition) :
    l.Composes a (.ok composition) := by
  induction fuel generalizing a with
  | zero =>
    rw [climb] at h
    split at h
    · next alone => exact .finished (Step.root alone h).round_eq
    · cases h
  | succ fuel ih =>
    rw [climb] at h
    split at h
    · cases h
    · next hround =>
      obtain rfl := Except.ok.inj h
      exact .finished hround
    · next hround => exact .onward hround (ih h)

end Loader

/-! ## The bound on rounds -/

/-- The path in the extends tag of a text, if there is one. -/
def Text.parent? (text : Text) : Option Text :=
  (Tag.find [.inherits] text).bind (·.tag.argument?)

namespace Resolver

variable {r : Resolver} {origin : Option Text} {path text : Text}

/-- The parents that the files of a resolver name. -/
def parents (r : Resolver) : List Text :=
  r.files.filterMap fun file => file.2.toOption.bind Text.parent?

/-- The parents that a composition has not met yet. -/
def unvisited (r : Resolver) (visited : List Text) : List Text :=
  r.parents.filter fun path => !visited.contains path

theorem length_unvisited_le (r : Resolver) (visited : List Text) :
    (r.unvisited visited).length ≤ r.files.length :=
  Nat.le_trans (List.length_filter_le ..) (List.length_filterMap_le ..)

/-- A template names its parent among those of all files. -/
theorem mem_parents_of_load {parent : Text} (load : r.load path = .ok text)
    (hparent : text.parent? = some parent) : parent ∈ r.parents := by
  obtain ⟨key, -, hlookup⟩ := Option.bind_eq_some_iff.mp (load_eq_ok.mp load)
  obtain ⟨front, back, hfiles, -⟩ := List.lookup_eq_some_iff.mp hlookup
  refine List.mem_filterMap.mpr ⟨(key, .ok text), ?_, hparent⟩
  rw [hfiles]
  exact List.mem_append_right _ (List.mem_cons_self ..)

/-- A parent that is visited is one less to meet. -/
theorem length_unvisited_cons_lt {visited : List Text} (hpath : path ∈ r.parents)
    (fresh : path ∉ visited) :
    (r.unvisited (path :: visited)).length < (r.unvisited visited).length := by
  have hfilter : r.unvisited (path :: visited) = (r.unvisited visited).filter (· ≠ path) := by
    simp [unvisited, List.filter_filter]
  rw [hfilter, List.length_filter_lt_length_iff_exists]
  exact ⟨path, List.mem_filter.mpr ⟨hpath, by simpa using fresh⟩, by simp⟩

/-- The rounds of a composition end before the bound does, where the bound is above the number of
parents that are left. -/
theorem composes_climb {a : Ascent} {fuel : Nat}
    (hknown : ∀ parent, a.text.parent? = some parent → parent ∈ r.parents)
    (hfuel : (r.unvisited a.visited).length < fuel) :
    r.loader.Composes a (r.loader.climb fuel a) := by
  induction fuel generalizing a with
  | zero => exact absurd hfuel (Nat.not_lt_zero _)
  | succ fuel ih =>
    rw [Loader.climb]
    split
    · next hround => exact .failed hround
    · next hround => exact .finished hround
    · next next hround =>
      refine .onward hround ?_
      cases Loader.step_of_round hround with
      | child inherits fresh load =>
        have hpath := hknown _ (by rw [Text.parent?, inherits]; rfl)
        have hless := length_unvisited_cons_lt hpath fresh
        rw [load_loader] at load
        exact ih (fun parent => mem_parents_of_load load)
          (Nat.lt_of_lt_of_le hless (Nat.le_of_lt_succ hfuel))

/-- **Every composition ends.** The rounds from any text end with the result of the bounded
composition, whatever cycles there are. -/
theorem composes_compose (r : Resolver) (origin : Option Text) (text : Text) :
    r.loader.Composes (.start origin text) (r.compose origin text) := by
  rw [compose, Loader.climb]
  split
  · next hround => exact .failed hround
  · next hround => exact .finished hround
  · next next hround =>
    -- the text itself may be no file, but its parent is
    refine .onward hround ?_
    cases Loader.step_of_round hround with
    | child _ _ load =>
      rw [load_loader] at load
      refine composes_climb (fun parent => mem_parents_of_load load) ?_
      exact Nat.lt_succ_of_le (length_unvisited_le ..)

/-- A composition has the result that its rounds end with. -/
theorem composes_iff {result : Except TemplateError Composition} :
    r.loader.Composes (.start origin text) result ↔ r.compose origin text = result := by
  constructor
  · exact fun h => (composes_compose r origin text).unique h
  · rintro rfl
    exact composes_compose r origin text

end Resolver

end TemplateEngine

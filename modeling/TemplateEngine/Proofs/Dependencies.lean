import Mathlib.Data.List.Basic
import Mathlib.Data.List.Induction
import TemplateEngine.Proofs.Rounds

/-!
# What a composition depends on

Every answer that a composition uses is about a path that it then reads, and every path it reads is
in its list of dependencies. So it is determined by the answers about the paths in this list:
a loader that gives the same ones leads to the same composition
(`Loader.dependencies_determine`).

What is read is listed along the way (`Loader.Reads`). Each statement here says of some part of a
composition both what it reads and that it is determined by that: of a text with its includes
(`Loader.determined_of_splice`), of the last steps (`Loader.determined_of_finish`) and, by
induction over the rounds, of the whole (`Loader.determined_of_composes`).
-/

namespace TemplateEngine

section

variable {α : Type} [BEq α] [LawfulBEq α]

theorem eraseDups_concat_of_mem {l : List α} {x : α} (h : x ∈ l) :
    (l ++ [x]).eraseDups = l.eraseDups := by
  simp [List.eraseDups_append, List.removeAll, h]

theorem eraseDups_concat_of_notMem {l : List α} {x : α} (h : x ∉ l) :
    (l ++ [x]).eraseDups = l.eraseDups ++ [x] := by
  simp [List.eraseDups_append, List.removeAll, h, List.eraseDups_cons]

/-- What is left when duplicates are removed is in the order of the first occurrences. -/
theorem pairwise_idxOf_eraseDups (l : List α) :
    l.eraseDups.Pairwise fun a b => l.idxOf a < l.idxOf b := by
  induction l using List.reverseRecOn with
  | nil => exact .nil
  | append_singleton l x ih =>
    have hbefore : l.eraseDups.Pairwise fun a b => (l ++ [x]).idxOf a < (l ++ [x]).idxOf b := by
      refine ih.imp_of_mem fun ha hb hlt => ?_
      rw [List.idxOf_append_of_mem (List.mem_eraseDups.mp ha),
        List.idxOf_append_of_mem (List.mem_eraseDups.mp hb)]
      exact hlt
    by_cases hx : x ∈ l
    · rw [eraseDups_concat_of_mem hx]
      exact hbefore
    · rw [eraseDups_concat_of_notMem hx, List.pairwise_append]
      refine ⟨hbefore, List.pairwise_singleton .., fun a ha b hb => ?_⟩
      obtain rfl := List.mem_singleton.mp hb
      have ha := List.mem_eraseDups.mp ha
      rw [List.idxOf_append_of_mem ha, List.idxOf_append_of_notMem hx]
      exact Nat.lt_add_right _ (List.idxOf_lt_length_of_mem ha)

end

namespace Loader

variable {l l' : Loader} {levels : Nat} {text : Text} {paths others : List Text}

namespace AgreeOn

theorem mono (h : l.AgreeOn paths l') (hsub : ∀ path ∈ others, path ∈ paths) :
    l.AgreeOn others l' :=
  fun path hpath => h path (hsub path hpath)

theorem of_append (h : l.AgreeOn (paths ++ others) l') :
    l.AgreeOn paths l' ∧ l.AgreeOn others l' :=
  List.forall_mem_append.mp h

theorem of_cons {path target : Text} (h : l.AgreeOn (path :: others) l')
    (load : l.load path = .ok target) : l'.load path = .ok target ∧ l.AgreeOn others l' := by
  obtain ⟨hpath, hothers⟩ := List.forall_mem_cons.mp h
  refine ⟨?_, hothers⟩
  rw [load_eq_ok] at load ⊢
  exact ⟨hpath.1.trans load.1, hpath.2.trans load.2⟩

/-- Resolvers with the same files under some paths. -/
theorem of_file? {r r' : Resolver} (h : ∀ path ∈ paths, r'.file? path = r.file? path) :
    r.loader.AgreeOn paths r'.loader := by
  intro path hpath
  have hfile := h path hpath
  simp only [Resolver.loader, Resolver.isFile, Resolver.load, hfile, and_self]

end AgreeOn

/-! ## Includes -/

/-- The step of `determined_of_splice` from one level of includes to the next. -/
theorem determined_of_parts {tags : List Tag.Found} {parts : List Spliced}
    (ih : ∀ {target : Text} {whole : Spliced}, l.splice levels target = .ok whole →
      l.ReadsWithin (Tag.split [.inclusion] target).1 whole.loads
        ∧ ∀ l' : Loader, l.AgreeOn whole.loads l' → l'.splice levels target = .ok whole)
    (inclusions : ∀ found ∈ tags, ∃ before path after, found = ⟨before, .inclusion path, after⟩)
    (h : List.Forall₂ (fun found part => l.part text (levels + 1) found = .ok part) tags parts) :
    l.ReadsWithin tags (parts.flatMap (·.loads))
      ∧ ∀ l' : Loader, l.AgreeOn (parts.flatMap (·.loads)) l' →
        List.Forall₂ (fun found part => l'.part text (levels + 1) found = .ok part) tags parts := by
  induction h with
  | nil => exact ⟨.nil, fun _ _ => .nil⟩
  | cons hpart _ hothers =>
    obtain ⟨hfound, hinclusions⟩ := List.forall_mem_cons.mp inclusions
    obtain ⟨before, path, after, rfl⟩ := hfound
    obtain ⟨target, whole, load, within, rfl⟩ := part_eq_ok.mp hpart
    obtain ⟨hwithin, hwhole⟩ := ih within
    obtain ⟨hreads, hparts⟩ := hothers hinclusions
    rw [List.flatMap_cons]
    refine ⟨.cons load hwithin hreads, fun l' agree => ?_⟩
    obtain ⟨hinner, hbehind⟩ := agree.of_append
    obtain ⟨load', hinner⟩ := hinner.of_cons load
    exact .cons (part_eq_ok.mpr ⟨target, whole, load', hwhole l' hinner, rfl⟩) (hparts l' hbehind)

/-- A text with its includes is determined by what is read for it. -/
theorem determined_of_splice {whole : Spliced} (h : l.splice levels text = .ok whole) :
    l.ReadsWithin (Tag.split [.inclusion] text).1 whole.loads
      ∧ ∀ l' : Loader, l.AgreeOn whole.loads l' → l'.splice levels text = .ok whole := by
  induction levels generalizing text whole with
  | zero =>
    cases hfind : Tag.find [.inclusion] text with
    | none =>
      rw [splice_of_find_eq_none 0 hfind] at h
      obtain rfl := Except.ok.inj h
      rw [Tag.split_of_find_eq_none hfind]
      exact ⟨.nil, fun _ _ => splice_of_find_eq_none 0 hfind⟩
    | some found =>
      rw [splice_eq, Tag.split_of_find hfind] at h
      cases h
  | succ levels ih =>
    rw [splice_eq] at h
    obtain ⟨parts, hparts, rfl⟩ := exists_of_map_eq_ok h
    obtain ⟨hreads, hdetermined⟩ := determined_of_parts ih
      (fun _ => Tag.eq_inclusion_of_mem_split) (mapM_eq_ok.mp hparts)
    refine ⟨hreads, fun l' agree => ?_⟩
    rw [splice_eq, mapM_eq_ok.mpr (hdetermined l' agree)]
    rfl

/-! ## Rounds -/

theorem determined_of_finish {overrides : Overrides} {loads : List Text}
    {composition : Composition} (h : l.finish overrides loads text = .ok composition) :
    ∃ reads, l.ReadsWithin (Tag.split [.inclusion] text).1 reads
      ∧ composition.dependencies = (loads ++ reads).eraseDups
      ∧ ∀ l' : Loader, l.AgreeOn reads l' →
        l'.finish overrides loads text = .ok composition := by
  obtain ⟨root, hincludes, hreplace, hdependencies⟩ := finish_eq_ok h
  obtain ⟨hreads, hdetermined⟩ := determined_of_splice hincludes
  refine ⟨root.loads, hreads, hdependencies, fun l' agree => ?_⟩
  have hincludes' : l'.includes text = l.includes text :=
    (hdetermined l' agree).trans hincludes.symm
  rw [← h, finish, finish, hincludes']

/-- A composition is determined by what is read for it. -/
theorem determined_of_composes {a : Ascent} {composition : Composition}
    (h : l.Composes a (.ok composition)) :
    ∃ reads, l.Reads a.text reads
      ∧ composition.dependencies = (a.loads ++ reads).eraseDups
      ∧ ∀ l' : Loader, l.AgreeOn reads l' → l'.Composes a (.ok composition) := by
  generalize hresult : Except.ok composition = result at h
  induction h with
  | failed => cases hresult
  | finished hround =>
    obtain rfl := Except.ok.inj hresult
    cases step_of_round hround with
    | root alone finish =>
      obtain ⟨reads, hreads, hdependencies, hfinish⟩ := determined_of_finish finish
      exact ⟨reads, .root alone hreads, hdependencies, fun l' agree =>
        .finished (Step.root alone (hfinish l' agree)).round_eq⟩
    | orphan inherits fresh load includes lost finish =>
      obtain ⟨hinner, hincludes⟩ := determined_of_splice includes
      obtain ⟨again, hagain, hdependencies, hfinish⟩ := determined_of_finish finish
      refine ⟨_, .orphan inherits load hinner includes lost hagain, ?_, fun l' agree => ?_⟩
      · rw [hdependencies, List.append_assoc]
      · obtain ⟨agree, hagain⟩ := agree.of_append
        obtain ⟨load', agree⟩ := agree.of_cons load
        exact .finished (Step.orphan inherits fresh load' (hincludes l' agree) lost
          (hfinish l' hagain)).round_eq
  | onward hround _ ih =>
    cases step_of_round hround with
    | child inherits fresh load includes keeps once collect =>
      obtain ⟨hinner, hincludes⟩ := determined_of_splice includes
      obtain ⟨others, hothers, hdependencies, hrest⟩ := ih hresult
      have hkeeps : Tag.find [.inherits] _ ≠ none := keeps ▸ Option.some_ne_none _
      refine ⟨_, .child inherits load hinner includes hkeeps hothers, ?_, fun l' agree => ?_⟩
      · rw [hdependencies, List.append_assoc]
      · obtain ⟨agree, hagain⟩ := agree.of_append
        obtain ⟨load', agree⟩ := agree.of_cons load
        exact .onward (Step.child inherits fresh load' (hincludes l' agree) keeps once
          collect).round_eq (hrest l' hagain)

/-- **What a composition depends on.** The dependencies of a composition are the path of the
template itself, if it has one, and the paths read for it, each once and in the order of the
first reading. Any loader that gives the same answers about these paths, whatever it answers about
others, leads to the same composition. -/
theorem dependencies_determine {l : Loader} {origin : Option Text} {text : Text}
    {composition : Composition} (h : l.Composes (.start origin text) (.ok composition)) :
    composition.dependencies.Nodup
      ∧ (∀ path ∈ origin, composition.dependencies.head? = some path)
      ∧ (∃ reads, l.Reads text reads
        ∧ (∀ path, path ∈ composition.dependencies ↔ path ∈ origin.toList ++ reads)
        ∧ composition.dependencies.Pairwise fun path later =>
          (origin.toList ++ reads).idxOf path < (origin.toList ++ reads).idxOf later)
      ∧ (∀ l' : Loader, l.AgreeOn composition.dependencies l' →
        l'.Composes (.start origin text) (.ok composition))
      ∧ ∀ r : Resolver, l.AgreeOn composition.dependencies r.loader →
        r.compose origin text = .ok composition := by
  obtain ⟨reads, hreads, hdependencies, hdetermined⟩ := determined_of_composes h
  have hmem (path : Text) : path ∈ composition.dependencies ↔ path ∈ origin.toList ++ reads := by
    rw [hdependencies]
    exact List.mem_eraseDups
  have horder : composition.dependencies.Pairwise fun path later =>
      (origin.toList ++ reads).idxOf path < (origin.toList ++ reads).idxOf later := by
    rw [hdependencies]
    exact pairwise_idxOf_eraseDups (origin.toList ++ reads)
  have hcomposes (l' : Loader) (agree : l.AgreeOn composition.dependencies l') :
      l'.Composes (.start origin text) (.ok composition) :=
    hdetermined l' (agree.mono fun path hpath =>
      (hmem path).mpr (List.mem_append_right _ hpath))
  refine ⟨horder.imp fun hlt heq => ?_, fun path horigin => ?_, ⟨reads, hreads, hmem, horder⟩,
    hcomposes, fun r agree => Resolver.composes_iff.mp (hcomposes r.loader agree)⟩
  · rw [heq] at hlt
    exact Nat.lt_irrefl _ hlt
  · obtain rfl := Option.mem_def.mp horigin
    rw [hdependencies]
    simp [Ascent.start, List.eraseDups_cons]

/-- A template that is included twice, and templates that are never asked for. -/
theorem dependencies_determine_page :
    let base := "\x7b% include 'part' %\x7d\x7b% block a %\x7d\x7b% endblock %\x7d".toList
    let text := "\x7b% extends 'base' %\x7d\x7b% block a %\x7d\x7b% include 'part' %\x7d".toList
      ++ "\x7b% endblock %\x7d".toList
    let r := Resolver.ofTemplates [("base".toList, base), ("part".toList, "p".toList)]
    let r' := Resolver.ofTemplates
      [("part".toList, "p".toList), ("other".toList, text), ("base".toList, base)]
    ∃ composition, r.loader.Composes (.start (some "page".toList) text) (.ok composition)
      ∧ composition.dependencies = ["page".toList, "base".toList, "part".toList]
      ∧ composition.dependencies.Nodup
      ∧ r'.compose (some "page".toList) text = .ok composition := by
  intro base text r r'
  have hdependencies : (r.compose (some "page".toList) text).toOption.map (·.dependencies)
      = some ["page".toList, "base".toList, "part".toList] := by
    decide +kernel
  cases h : r.compose (some "page".toList) text with
  | error e =>
    rw [h] at hdependencies
    cases hdependencies
  | ok composition =>
    rw [h] at hdependencies
    have hcomposes : r.loader.Composes (.start (some "page".toList) text) (.ok composition) :=
      Resolver.composes_iff.mpr h
    obtain ⟨hnodup, -, -, -, hcompose⟩ := dependencies_determine hcomposes
    have hlist : composition.dependencies = ["page".toList, "base".toList, "part".toList] :=
      Option.some.inj hdependencies
    refine ⟨composition, hcomposes, hlist, hnodup, hcompose r' ?_⟩
    rw [hlist]
    exact AgreeOn.of_file? (by decide +kernel)

end Loader

end TemplateEngine

import TemplateEngine.Proofs.Inheritance

/-!
# Where parents lead

In templates that are tidy (`Text.Tidy`) composition finds no fault: their blocks can be collected
and replaced. A round then depends on the extends tag alone. It goes on to the parent, unless the
parent does not exist, cannot be read or was visited before (`Loader.fault_of_round`). So a
composition follows the extends tags and ends as they do (`Resolver.composes_as_parents_lead`).

That a chain of parents with a root passes no parent twice needs no check: the way from a parent
to the root is always the same (`Loader.Leads.nodup`). The check matters for the path of the
template itself, whose text need not be the one found there.
-/

namespace TemplateEngine

/-! ## Tidy templates -/

namespace Cut

variable {text : Text} {b : Block} {cut : Cut}

theorem flat_behind : (cut.behind b).Flat
    ↔ (b.closed.isSome ∧ Tag.find [.block] b.body = none) ∧ cut.Flat :=
  List.forall_mem_cons

theorem Bare.of_behind (h : (cut.behind b).Bare) :
    Tag.find [.expression, .statement] b.gap = none ∧ cut.Bare := by
  obtain ⟨hgap, hgaps⟩ := List.forall_mem_cons.mp h.gaps
  exact ⟨hgap, hgaps, h.last⟩

/-- The first block of a text whose blocks are as they should be. -/
theorem exists_of_flat {header : Tag.Found} (flat : (Cut.of text).Flat)
    (hheader : Tag.find [.block] text = some header) :
    ∃ stop, Tag.ending? (header.tag.argument?.getD []) header.rest = some stop
      ∧ Tag.find [.block] stop.gap = none
      ∧ Cut.of text = (Cut.of stop.rest).behind
        ⟨header.gap, header.tag.argument?.getD [], some (stop.gap, stop.tag)⟩
      ∧ (Cut.of stop.rest).Flat := by
  have hof := Cut.of_eq_of_find hheader rfl
  cases hstop : Tag.ending? (header.tag.argument?.getD []) header.rest with
  | none =>
    rw [hof, hstop, flat_behind] at flat
    cases flat.1.1
  | some stop =>
    rw [hstop] at hof
    rw [hof, flat_behind] at flat
    exact ⟨stop, rfl, flat.1.2, hof, flat.2⟩

end Cut

namespace Overrides

variable {text : Text}

/-- The blocks of a tidy child can be collected. -/
theorem exists_collect_eq_ok (overrides : Overrides) (template : Text)
    (flat : (Cut.of text).Flat) (bare : (Cut.of text).Bare) :
    ∃ result, overrides.collect template text = .ok result := by
  fun_induction collect overrides template text with
  | case1 overrides text hnone =>
    have hlast := bare.last
    rw [Cut.of_eq_of_find_eq_none hnone] at hlast
    rw [checkGap, hlast]
    exact ⟨overrides, rfl⟩
  | case2 overrides text header hheader e hgap =>
    obtain ⟨stop, -, -, hof, -⟩ := Cut.exists_of_flat flat hheader
    rw [hof] at bare
    rw [checkGap, bare.of_behind.1] at hgap
    cases hgap
  | case3 overrides text header hheader _ _ name e hend =>
    obtain ⟨stop, hstop, hbody, -, -⟩ := Cut.exists_of_flat flat hheader
    cases hend.symm.trans (blockEnd_eq_ok.mpr ⟨hstop, hbody⟩)
  | case4 overrides text header hheader _ _ name stop hend _ ih =>
    obtain ⟨stop', hstop, -, hof, hflat⟩ := Cut.exists_of_flat flat hheader
    obtain rfl := Option.some.inj (hstop.symm.trans (blockEnd_eq_ok.mp hend).1)
    rw [hof] at bare
    exact ih hflat bare.of_behind.2

/-- The blocks of a tidy root can be replaced. -/
theorem exists_replaceIn_eq_ok (overrides : Overrides) (passed : Text)
    (flat : (Cut.of text).Flat) : ∃ source, overrides.replaceIn passed text = .ok source := by
  fun_induction replaceIn overrides passed text with
  | case1 passed text => exact ⟨passed ++ text, rfl⟩
  | case2 passed text header hheader name hend =>
    obtain ⟨stop, hstop, -⟩ := Cut.exists_of_flat flat hheader
    rw [Tag.findEndBlock_eq_ending?] at hend
    cases hend.symm.trans hstop
  | case3 passed text header hheader name stop hend nested hnested =>
    obtain ⟨stop', hstop, hbody, -⟩ := Cut.exists_of_flat flat hheader
    rw [Tag.findEndBlock_eq_ending?] at hend
    obtain rfl := Option.some.inj (hstop.symm.trans hend)
    obtain ⟨hfind, hbefore⟩ := Option.filter_eq_some_iff.mp hnested
    have hbehind := (Tag.find_gap_eq_none (Tag.eq_of_ending? hstop)).mp hbody nested hfind
    exact absurd (of_decide_eq_true hbefore) (Nat.not_lt.mpr hbehind)
  | case4 passed text header hheader name stop hend _ _ ih =>
    obtain ⟨stop', hstop, -, -, hflat⟩ := Cut.exists_of_flat flat hheader
    rw [Tag.findEndBlock_eq_ending?] at hend
    obtain rfl := Option.some.inj (hstop.symm.trans hend)
    exact ih hflat

end Overrides

/-! ## Rounds of tidy templates -/

namespace Loader

variable {l : Loader} {a : Ascent} {e : TemplateError} {text before after parent : Text}
  {path : Quoted}

/-- What stops a composition of tidy templates at an extends tag. -/
inductive Fault (l : Loader) (a : Ascent) : TemplateError → Prop
  | missing {before after : Text} {path : Quoted}
    (inherits : Tag.find [.inherits] a.text = some ⟨before, .inherits path, after⟩)
    (isFile : l.isFile path.text = false) : Fault l a (.notFound path.text)
  | visited {before after : Text} {path : Quoted}
    (inherits : Tag.find [.inherits] a.text = some ⟨before, .inherits path, after⟩)
    (isFile : l.isFile path.text = true) (visited : path.text ∈ a.visited) :
    Fault l a (.misuse (Tag.Found.span a.text ⟨before, .inherits path, after⟩) .circularExtends)
  | unreadable {before after : Text} {path : Quoted} {e : TemplateError}
    (inherits : Tag.find [.inherits] a.text = some ⟨before, .inherits path, after⟩)
    (isFile : l.isFile path.text = true) (fresh : path.text ∉ a.visited)
    (load : l.load path.text = .error e) : Fault l a e

theorem Fault.round_eq (h : Fault l a e) : l.round a = .error e := by
  cases h with
  | missing inherits isFile => simp [round, inherits, Tag.argument?, isFile]
  | visited inherits isFile visited => simp [round, inherits, Tag.argument?, isFile, visited]
  | unreadable inherits isFile fresh load =>
    simp [round, inherits, Tag.argument?, isFile, fresh, load, bind, Except.bind]

/-- A tidy root ends the composition. -/
theorem exists_round_of_root (tidy : a.text.Tidy) (alone : Tag.find [.inherits] a.text = none) :
    ∃ composition, l.round a = .ok (.finished composition) := by
  obtain ⟨source, hsource⟩ := a.overrides.exists_replaceIn_eq_ok [] (tidy.root alone)
  have hfinish : l.finish a.overrides a.loads a.text
      = .ok ⟨source, (a.loads ++ []).eraseDups⟩ := by
    rw [finish, includes, splice_of_find_eq_none _ tidy.whole]
    simp only [bind, Except.bind, hsource]
    rfl
  exact ⟨_, (Step.root alone hfinish).round_eq⟩

/-- A tidy template with a parent that is new and can be loaded leads to it. -/
theorem exists_round_of_child (tidy : a.text.Tidy)
    (inherits : Tag.find [.inherits] a.text = some ⟨before, .inherits path, after⟩)
    (fresh : path.text ∉ a.visited) (load : l.load path.text = .ok parent) :
    ∃ overrides loads,
      l.round a = .ok (.onward ⟨path.text :: a.visited, overrides, loads, parent⟩) := by
  obtain ⟨once, flat, bare⟩ := tidy.child _ inherits
  obtain ⟨overrides, collect⟩ := a.overrides.exists_collect_eq_ok a.text flat bare
  have includes := splice_of_find_eq_none (l := l) maxIncludeDepth tidy.whole
  exact ⟨_, _, (Step.child inherits fresh load includes inherits once collect).round_eq⟩

/-- In a tidy template only the extends tag can be at fault. -/
theorem fault_of_round (tidy : a.text.Tidy) (h : l.round a = .error e) : Fault l a e := by
  cases hfind : Tag.find [.inherits] a.text with
  | none =>
    obtain ⟨composition, hround⟩ := exists_round_of_root tidy hfind
    cases h.symm.trans hround
  | some found =>
    obtain ⟨before, path, after, rfl⟩ := Tag.eq_inherits_of_find hfind
    suffices hfault : ∃ e', Fault l a e' by
      obtain ⟨e', hfault⟩ := hfault
      obtain rfl := Except.error.inj (h.symm.trans hfault.round_eq)
      exact hfault
    cases isFile : l.isFile path.text with
    | false => exact ⟨_, .missing hfind isFile⟩
    | true =>
      by_cases visited : path.text ∈ a.visited
      · exact ⟨_, .visited hfind isFile visited⟩
      cases load : l.load path.text with
      | error e' => exact ⟨_, .unreadable hfind isFile visited load⟩
      | ok parent =>
        obtain ⟨overrides, loads, hround⟩ := exists_round_of_child tidy hfind visited load
        cases h.symm.trans hround

/-- From a tidy template a composition does not finish but at the root. -/
theorem alone_of_round {composition : Composition} (tidy : a.text.Tidy)
    (h : l.round a = .ok (.finished composition)) : Tag.find [.inherits] a.text = none := by
  cases step_of_round h with
  | root alone => exact alone
  | orphan inherits _ _ includes lost =>
    rw [Loader.includes, splice_of_find_eq_none _ tidy.whole] at includes
    obtain rfl := Except.ok.inj includes
    cases inherits.symm.trans lost

/-! ## Following parents -/

theorem AllTidy.here (tidy : l.AllTidy text) : text.Tidy := tidy [] text (.here text)

theorem AllTidy.of_load (tidy : l.AllTidy text)
    (inherits : Tag.find [.inherits] text = some ⟨before, .inherits path, after⟩)
    (load : l.load path.text = .ok parent) : l.AllTidy parent :=
  fun _ _ leads => tidy _ _ (.parent inherits load leads)

/-- What is closed under going on to parents is all there is. -/
theorem allTidy_of_closed (texts : List Text) (tidy : ∀ text ∈ texts, text.Tidy)
    (closed : ∀ text ∈ texts, ∀ found ∈ Tag.find [.inherits] text,
      ∀ parent ∈ (l.load (found.tag.argument?.getD [])).toOption, parent ∈ texts)
    (h : text ∈ texts) : l.AllTidy text := by
  intro targets last leads
  induction leads with
  | here => exact tidy _ h
  | @parent _ _ _ parent _ path _ inherits load _ ih =>
    have hload : parent ∈ (l.load path.text).toOption := by
      rw [load]
      rfl
    exact ih (closed _ h _ inherits parent hload)

namespace Leads

variable {root root' last : Text} {targets targets' : List Text}

/-- There is one way to a root. -/
theorem unique (h : l.Leads text targets root) (h' : l.Leads text targets' root')
    (alone : Tag.find [.inherits] root = none) (alone' : Tag.find [.inherits] root' = none) :
    targets = targets' := by
  induction h generalizing targets' with
  | here =>
    cases h' with
    | here => rfl
    | parent inherits => cases alone.symm.trans inherits
  | parent inherits load _ ih =>
    cases h' with
    | here => cases alone'.symm.trans inherits
    | parent inherits' load' rest' =>
      cases inherits.symm.trans inherits'
      obtain rfl := Except.ok.inj (load.symm.trans load')
      rw [ih rest' alone]

/-- From each target on the way it is the rest of the way. -/
theorem of_mem {target : Text} (h : l.Leads text targets last) (hmem : target ∈ targets) :
    ∃ front back reached, targets = front ++ target :: back
      ∧ l.load target = .ok reached ∧ l.Leads reached back last := by
  induction h with
  | here => cases hmem
  | parent inherits load rest ih =>
    rcases List.mem_cons.mp hmem with rfl | hmem
    · exact ⟨[], _, _, rfl, load, rest⟩
    · obtain ⟨front, back, reached, rfl, hload, hleads⟩ := ih hmem
      exact ⟨_ :: front, back, reached, rfl, hload, hleads⟩

/-- The way to a root passes no target twice, since it would be as long from the second time on as
from the first. -/
theorem nodup (h : l.Leads text targets root) (alone : Tag.find [.inherits] root = none) :
    targets.Nodup := by
  induction h with
  | here => exact List.nodup_nil
  | parent inherits load rest ih =>
    refine List.nodup_cons.mpr ⟨fun hmem => ?_, ih alone⟩
    obtain ⟨front, back, reached, rfl, hload, hleads⟩ := rest.of_mem hmem
    obtain rfl := Except.ok.inj (load.symm.trans hload)
    have hlength := congrArg List.length (rest.unique hleads alone alone)
    simp only [List.length_append, List.length_cons] at hlength
    omega

/-- A way to a root that passes none of the paths visited is the way of a composition. -/
theorem composes (h : l.Leads text targets root) (alone : Tag.find [.inherits] root = none)
    (tidy : l.AllTidy text) {visited : List Text} (fresh : ∀ path ∈ visited, path ∉ targets)
    (overrides : Overrides) (loads : List Text) :
    ∃ composition, l.Composes ⟨visited, overrides, loads, text⟩ (.ok composition) := by
  have hnodup := h.nodup alone
  induction h generalizing visited overrides loads with
  | here text =>
    obtain ⟨composition, hround⟩ :=
      exists_round_of_root (a := ⟨visited, overrides, loads, text⟩) tidy.here alone
    exact ⟨composition, .finished hround⟩
  | parent inherits load _ ih =>
    obtain ⟨hnew, hnodup⟩ := List.nodup_cons.mp hnodup
    obtain ⟨overrides, loads, hround⟩ := exists_round_of_child
      (a := ⟨visited, overrides, loads, _⟩) tidy.here inherits
      (fun hmem => fresh _ hmem (List.mem_cons_self ..)) load
    obtain ⟨composition, hrest⟩ := ih alone (tidy.of_load inherits load)
      (List.forall_mem_cons.mpr ⟨hnew, fun path hpath hmem =>
        fresh path hpath (List.mem_cons_of_mem _ hmem)⟩) overrides loads hnodup
    exact ⟨composition, .onward hround hrest⟩

/-- A way to a template whose parent was visited, or passed on the way, is one of a composition that
fails there or before. -/
theorem composes_circular (h : l.Leads text targets last)
    (inherits : Tag.find [.inherits] last = some ⟨before, .inherits path, after⟩)
    (isFile : l.isFile path.text = true) (tidy : l.AllTidy text) {visited : List Text}
    (met : path.text ∈ visited ++ targets) (overrides : Overrides) (loads : List Text) :
    ∃ span, l.Composes ⟨visited, overrides, loads, text⟩
      (.error (.misuse span .circularExtends)) := by
  induction h generalizing visited overrides loads with
  | here text =>
    rw [List.append_nil] at met
    exact ⟨_, .failed (Fault.visited (a := ⟨visited, overrides, loads, text⟩) inherits isFile
      met).round_eq⟩
  | @parent text _ _ _ _ first _ inherits' load _ ih =>
    by_cases visited' : first.text ∈ visited
    · exact ⟨_, .failed (Fault.visited (a := ⟨visited, overrides, loads, text⟩) inherits'
        (load_eq_ok.mp load).1 visited').round_eq⟩
    · obtain ⟨overrides, loads, hround⟩ := exists_round_of_child
        (a := ⟨visited, overrides, loads, text⟩) tidy.here inherits' visited' load
      have met' := List.perm_middle.mem_iff.mp met
      rw [← List.cons_append] at met'
      obtain ⟨span, hrest⟩ := ih inherits (tidy.of_load inherits' load) met' overrides loads
      exact ⟨span, .onward hround hrest⟩

end Leads

/-- A composition that succeeds has followed the way to a root. -/
theorem exists_leads_of_composes {composition : Composition} (tidy : l.AllTidy a.text)
    (h : l.Composes a (.ok composition)) :
    ∃ targets root, l.Leads a.text targets root ∧ Tag.find [.inherits] root = none
      ∧ ∀ path ∈ a.visited, path ∉ targets := by
  generalize hresult : Except.ok composition = result at h
  induction h with
  | failed => cases hresult
  | finished hround =>
    exact ⟨[], _, .here _, alone_of_round tidy.here hround, fun _ _ => List.not_mem_nil⟩
  | onward hround _ ih =>
    cases step_of_round hround with
    | child inherits fresh load =>
      obtain ⟨targets, root, leads, alone, hnew⟩ := ih (tidy.of_load inherits load) hresult
      refine ⟨_, root, .parent inherits load leads, alone, fun path hpath hmem => ?_⟩
      rcases List.mem_cons.mp hmem with rfl | hmem
      · exact fresh hpath
      · exact hnew path (List.mem_cons_of_mem _ hpath) hmem

end Loader

namespace Resolver

variable {r : Resolver} {a : Ascent} {origin : Option Text} {text : Text}

/-- A composition that fails with a circular extends tag has followed the way to a parent that was
visited or passed on the way. -/
theorem exists_leads_of_circular {span : Span} (tidy : r.loader.AllTidy a.text)
    (h : r.loader.Composes a (.error (.misuse span .circularExtends))) :
    ∃ targets last before path after, r.loader.Leads a.text targets last
      ∧ Tag.find [.inherits] last = some ⟨before, .inherits path, after⟩
      ∧ r.isFile path.text = true ∧ path.text ∈ a.visited ++ targets := by
  generalize hresult : Except.error (TemplateError.misuse span .circularExtends) = result at h
  induction h with
  | failed hround =>
    obtain rfl := Except.error.inj hresult
    cases Loader.fault_of_round tidy.here hround with
    | visited inherits isFile visited =>
      exact ⟨[], _, _, _, _, .here _, inherits, isFile, List.mem_append_left _ visited⟩
    | unreadable _ _ _ load => exact absurd (r.load_loader _ ▸ load) load_ne_misuse
  | finished => cases hresult
  | onward hround _ ih =>
    cases Loader.step_of_round hround with
    | child inherits _ load =>
      obtain ⟨targets, last, before, path, after, leads, inherits', isFile, met⟩ :=
        ih (tidy.of_load inherits load) hresult
      refine ⟨_, last, before, path, after, .parent inherits load leads, inherits', isFile, ?_⟩
      exact List.perm_middle.mem_iff.mpr met

/-- **Where a composition ends.** Every composition ends after finitely many rounds, whatever
cycles there are. If all templates met are tidy, it succeeds if and only if following the extends
targets leads to a root without meeting the path of the template itself, and it fails with a
circular extends tag if and only if following them meets an existing template again, or the
template itself. -/
theorem composes_as_parents_lead (r : Resolver) (origin : Option Text) (text : Text) :
    r.loader.Composes (.start origin text) (r.compose origin text)
      ∧ (r.loader.AllTidy text →
        ((∃ composition, r.compose origin text = .ok composition)
          ↔ ∃ targets root, r.loader.Leads text targets root
            ∧ Tag.find [.inherits] root = none ∧ ∀ path ∈ origin, path ∉ targets)
        ∧ ((∃ span, r.compose origin text = .error (.misuse span .circularExtends))
          ↔ ∃ targets last before path after, r.loader.Leads text targets last
            ∧ Tag.find [.inherits] last = some ⟨before, .inherits path, after⟩
            ∧ r.isFile path.text = true ∧ path.text ∈ origin.toList ++ targets)) := by
  refine ⟨composes_compose r origin text, fun tidy => ⟨?_, ?_⟩⟩
  · constructor
    · rintro ⟨composition, h⟩
      obtain ⟨targets, root, leads, alone, fresh⟩ :=
        Loader.exists_leads_of_composes tidy (composes_iff.mpr h)
      exact ⟨targets, root, leads, alone, fun path hpath =>
        fresh path (Option.mem_toList.mpr hpath)⟩
    · rintro ⟨targets, root, leads, alone, fresh⟩
      obtain ⟨composition, h⟩ := leads.composes alone tidy
        (fun path hpath => fresh path (Option.mem_toList.mp hpath)) [] origin.toList
      exact ⟨composition, composes_iff.mp h⟩
  · constructor
    · rintro ⟨span, h⟩
      exact exists_leads_of_circular tidy (composes_iff.mpr h)
    · rintro ⟨targets, last, before, path, after, leads, inherits, isFile, met⟩
      obtain ⟨span, h⟩ := leads.composes_circular inherits isFile tidy met [] origin.toList
      exact ⟨span, composes_iff.mp h⟩

/-- Two templates that extend each other. -/
theorem composes_as_parents_lead_circle :
    let a := "\x7b% extends 'b' %\x7d".toList
    let b := "\x7b% extends 'a' %\x7d".toList
    let r := Resolver.ofTemplates [("a".toList, a), ("b".toList, b)]
    r.loader.AllTidy b ∧ ∃ span, r.compose none b = .error (.misuse span .circularExtends) := by
  intro a b r
  have tidy : r.loader.AllTidy b :=
    Loader.allTidy_of_closed [a, b] (by decide +kernel) (by decide +kernel) (by simp)
  have inherits : Tag.find [.inherits] b = some ⟨[], .inherits ⟨'\x27', "a".toList⟩, []⟩ := rfl
  have inherits' : Tag.find [.inherits] a = some ⟨[], .inherits ⟨'\x27', "b".toList⟩, []⟩ := rfl
  have leads : r.loader.Leads b ["a".toList, "b".toList] b :=
    .parent inherits rfl (.parent inherits' rfl (.here b))
  exact ⟨tidy, ((composes_as_parents_lead r none b).2 tidy).2.mpr
    ⟨_, b, _, _, _, leads, inherits, rfl, by decide⟩⟩

/-- The path of a template counts as visited even if another text is found there. -/
theorem not_composed_where_found_again :
    let text := "\x7b% extends 'a' %\x7d".toList
    let root := "x".toList
    let r := Resolver.ofTemplates [("a".toList, root)]
    r.loader.AllTidy text
      ∧ (r.loader.Leads text ["a".toList] root ∧ Tag.find [.inherits] root = none)
      ∧ ¬ ∃ composition, r.compose (some "a".toList) text = .ok composition := by
  intro text root r
  have tidy : r.loader.AllTidy text :=
    Loader.allTidy_of_closed [text, root] (by decide +kernel) (by decide +kernel) (by simp)
  have inherits : Tag.find [.inherits] text = some ⟨[], .inherits ⟨'\x27', "a".toList⟩, []⟩ := rfl
  have hfails : (r.compose (some "a".toList) text).toOption.isNone := by decide +kernel
  refine ⟨tidy, ⟨.parent inherits rfl (.here root), rfl⟩, fun hsucceeds => ?_⟩
  obtain ⟨composition, h⟩ := hsucceeds
  rw [h] at hfails
  cases hfails

end Resolver

end TemplateEngine

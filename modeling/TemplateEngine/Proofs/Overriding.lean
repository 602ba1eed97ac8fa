import TemplateEngine.Proofs.Ancestry

/-!
# What is overridden

The blocks of a template with a parent are collected from its extends tag on. Of what stands behind
the tag nothing is lost (`Resolver.overrides_kept`): if the blocks can be collected, each header is
that of a block (`Cut.headers_of_flat`) and no tag stands outside of the blocks
(`Overrides.bare_of_collect`), and if they cannot, the template is rejected for its tags
(`Loader.misuse_of_round`). What stands before the tag is passed over, and a block there is lost
(`Resolver.override_lost`).
-/

namespace TemplateEngine

/-! ## Headers -/

namespace Tag

variable {kinds : List TagKind} {text : Text} {found : Found}

/-- Each of the tags is read where it stands. -/
theorem findSome?_of_mem_all (h : found ∈ all kinds text) :
    kinds.findSome? (·.read? (found.tag.content ++ found.rest)) = some (found.tag, found.rest) := by
  fun_induction all kinds text generalizing found with
  | case1 => cases h
  | case2 text first hfirst _ ih =>
    rcases List.mem_cons.mp h with rfl | h
    · exact (skips_of_find hfirst).2
    · obtain ⟨later, hlater, rfl⟩ := List.mem_map.mp h
      exact @ih later hlater

/-- No header stands in the end of a block. -/
theorem skips_ending {name : Text} {stop : Found} (h : ending? name text = some stop) :
    Skips [.block] stop.tag.content stop.rest := by
  have hread := findSome?_of_mem_all (List.mem_of_find?_eq_some h)
  rw [List.findSome?_singleton] at hread
  refine skips_content (.inr rfl) hread ?_
  obtain ⟨closing, -, htag⟩ := TagKind.exists_of_read?_endBlock hread
  rw [List.findSome?_singleton, htag, TagKind.read?_block_endBlock]

end Tag

namespace Cut

variable {text : Text}

/-- If no block is inside another, then the headers in a text are those of its blocks. -/
theorem headers_of_flat (flat : (of text).Flat) :
    (Tag.all [.block] text).map (·.tag) = (of text).blocks.map fun b => .block b.name := by
  fun_induction of text with
  | case1 text hnone =>
    rw [Tag.all_of_find_eq_none hnone]
    rfl
  | case2 text header hheader _ name hstop =>
    cases (flat_behind.mp flat).1.1
  | case3 text header hheader _ name stop hstop _ ih =>
    obtain ⟨⟨-, hbody⟩, hflat⟩ := flat_behind.mp flat
    have hskips : Tag.Skips [.block] (stop.gap ++ stop.tag.content) stop.rest :=
      Tag.skips_append.mpr ⟨(Tag.find_eq_none.mp hbody).lengthen .., Tag.skips_ending hstop⟩
    have hbehind : Tag.all [.block] header.rest = _ :=
      Tag.eq_of_ending? hstop ▸ Tag.all_append hskips
    have hname : header.tag = .block name := Tag.eq_block_of_find hheader
    rw [Tag.all_of_find hheader, hbehind, List.map_cons, List.map_map, List.map_map, hname]
    exact congrArg _ (ih hflat)

end Cut

/-! ## Collecting -/

namespace Overrides

variable {overrides result : Overrides} {template text gap after : Text} {e : TemplateError}

theorem find_of_checkGap {u : Unit} (h : checkGap template gap after = .ok u) :
    Tag.find [.expression, .statement] gap = none := by
  rw [checkGap] at h
  split at h
  · assumption
  · cases h

theorem misuse_of_checkGap (h : checkGap template gap after = .error e) :
    ∃ span fault, e = .misuse span fault := by
  rw [checkGap] at h
  split at h
  · cases h
  · exact ⟨_, _, (Except.error.inj h).symm⟩

theorem misuse_of_blockEnd {header : Tag.Found} {name : Text}
    (h : blockEnd template header name = .error e) : ∃ span fault, e = .misuse span fault := by
  rw [blockEnd] at h
  split at h
  · split at h
    · exact ⟨_, _, (Except.error.inj h).symm⟩
    · cases h
  · cases h
  · split at h
    · exact ⟨_, _, (Except.error.inj h).symm⟩
    · exact ⟨_, _, (Except.error.inj h).symm⟩
  · exact ⟨_, _, (Except.error.inj h).symm⟩

/-- Where the blocks can be collected, no tag stands outside of them. -/
theorem bare_of_collect (h : overrides.collect template text = .ok result) :
    (Cut.of text).Bare := by
  fun_induction collect overrides template text with
  | case1 overrides text hnone =>
    obtain ⟨u, hgap, -⟩ := exists_of_map_eq_ok h
    rw [Cut.of_eq_of_find_eq_none hnone]
    exact ⟨fun b hb => (List.not_mem_nil hb).elim, find_of_checkGap hgap⟩
  | case2 => cases h
  | case3 => cases h
  | case4 overrides text header hheader u hgap name stop hend _ ih =>
    obtain ⟨hgaps, hlast⟩ := ih h
    rw [Cut.of_eq_of_find hheader rfl, (blockEnd_eq_ok.mp hend).1]
    exact ⟨List.forall_mem_cons.mpr ⟨find_of_checkGap hgap, hgaps⟩, hlast⟩

/-- Blocks that cannot be collected are misused tags. -/
theorem misuse_of_collect (h : overrides.collect template text = .error e) :
    ∃ span fault, e = .misuse span fault := by
  fun_induction collect overrides template text with
  | case1 overrides text hnone =>
    cases hgap : checkGap template text [] with
    | ok u =>
      rw [hgap] at h
      cases h
    | error e' =>
      rw [hgap] at h
      obtain rfl := Except.error.inj h
      exact misuse_of_checkGap hgap
  | case2 overrides text header hheader e' hgap =>
    obtain rfl := Except.error.inj h
    exact misuse_of_checkGap hgap
  | case3 overrides text header hheader u hgap name e' hend =>
    obtain rfl := Except.error.inj h
    exact misuse_of_blockEnd hend
  | case4 overrides text header hheader u hgap name stop hend _ ih => exact ih h

end Overrides

/-! ## Rounds -/

namespace Loader

variable {l : Loader} {a : Ascent} {text before after parent : Text} {path : Quoted}
  {whole : Spliced} {found : Tag.Found} {e : TemplateError}

/-- A template whose parent can be read and that keeps its extends tag fails only for its tags. -/
theorem misuse_of_round
    (inherits : Tag.find [.inherits] a.text = some ⟨before, .inherits path, after⟩)
    (load : l.load path.text = .ok parent) (includes : l.includes a.text = .ok whole)
    (keeps : Tag.find [.inherits] whole.text = some found) (h : l.round a = .error e) :
    ∃ span fault, e = .misuse span fault := by
  have isFile := (load_eq_ok.mp load).1
  by_cases visited : path.text ∈ a.visited
  · obtain rfl := Except.error.inj (h.symm.trans (Fault.visited inherits isFile visited).round_eq)
    exact ⟨_, _, rfl⟩
  cases hsecond : Tag.find [.inherits] found.rest with
  | some second =>
    rw [show l.round a = .error (.misuse (second.span whole.text) .misusedExtends) by
      simp [round, inherits, Tag.argument?, isFile, visited, load, includes, keeps, hsecond, bind,
        Except.bind]] at h
    exact ⟨_, _, (Except.error.inj h).symm⟩
  | none =>
    cases hcollect : a.overrides.collect whole.text found.rest with
    | error e' =>
      rw [show l.round a = .error e' by
        simp [round, inherits, Tag.argument?, isFile, visited, load, includes, keeps, hsecond,
          hcollect, bind, Except.bind]] at h
      obtain rfl := Except.error.inj h
      exact Overrides.misuse_of_collect hcollect
    | ok overrides =>
      cases h.symm.trans (Step.child inherits visited load includes keeps hsecond hcollect).round_eq

/-- A round past a template that keeps its extends tag has collected the blocks behind the tag. -/
theorem collect_of_round {round : Round}
    (inherits : Tag.find [.inherits] a.text = some ⟨before, .inherits path, after⟩)
    (includes : l.includes a.text = .ok whole)
    (keeps : Tag.find [.inherits] whole.text = some found) (h : l.round a = .ok round) :
    ∃ overrides, a.overrides.collect whole.text found.rest = .ok overrides := by
  cases step_of_round h with
  | root alone => cases alone.symm.trans inherits
  | orphan _ _ _ includes' lost =>
    obtain rfl := Except.ok.inj (includes'.symm.trans includes)
    cases lost.symm.trans keeps
  | child _ _ _ includes' keeps' _ hcollect =>
    obtain rfl := Except.ok.inj (includes'.symm.trans includes)
    obtain rfl := Option.some.inj (keeps'.symm.trans keeps)
    exact ⟨_, hcollect⟩

/-- A composition that succeeds has taken a first round. -/
theorem Composes.exists_round {composition : Composition} (h : l.Composes a (.ok composition)) :
    ∃ round, l.round a = .ok round := by
  cases h with
  | finished hround => exact ⟨_, hround⟩
  | onward hround => exact ⟨_, hround⟩

end Loader

/-! ## Compositions -/

namespace Resolver

variable {r : Resolver} {origin : Option Text} {text before after parent : Text} {path : Quoted}
  {whole : Spliced} {found : Tag.Found} {composition : Composition}

/-- A template that keeps its extends tag begins the chain with what follows the tag. -/
theorem exists_chain_of_compose
    (inherits : Tag.find [.inherits] text = some ⟨before, .inherits path, after⟩)
    (includes : r.includes text = .ok whole) (keeps : Tag.find [.inherits] whole.text = some found)
    (h : r.compose origin text = .ok composition) :
    ∃ children root, r.Chain text (found.rest :: children) root := by
  obtain ⟨children, root, chain⟩ := exists_chain (composes_iff.mpr h)
  cases chain with
  | root alone => cases alone.symm.trans inherits
  | orphan _ includes' lost =>
    obtain rfl := Except.ok.inj (includes'.symm.trans includes)
    cases lost.symm.trans keeps
  | child inherits' load' includes' keeps' chain =>
    obtain rfl := Except.ok.inj (includes'.symm.trans includes)
    obtain rfl := Option.some.inj (keeps'.symm.trans keeps)
    exact ⟨_, _, .child inherits' load' includes' keeps' chain⟩

/-- A template without an extends tag of its own is composed to itself, with its blocks as they are,
even if it includes one. -/
theorem source_of_alone (alone : Tag.find [.inherits] text = none)
    (includes : r.includes text = .ok whole) (h : r.compose origin text = .ok composition) :
    composition.source = (Cut.of whole.text).write Block.body :=
  (source_of_climb (.root alone includes) h Overrides.merges_nil).1

/-- **No override behind the extends tag is lost.** Let a template, with its includes, have an
extends tag. If it is composed, then no tag stands outside of the blocks behind the extends tag, all
headers there are those of blocks, and each block is an override: of the bodies of its name its own
come first. If no header stands before, these are all headers of the template. If something is wrong
with the blocks behind the tag, or a tag stands outside of them, the template is rejected for its
tags. A template that only includes an extends tag keeps its blocks as they are. -/
theorem overrides_kept (includes : r.includes text = .ok whole)
    (keeps : Tag.find [.inherits] whole.text = some found) :
    let cut := Cut.of found.rest
    (∀ composition, r.compose origin text = .ok composition →
      (Tag.find [.inherits] text = none
        ∧ composition.source = (Cut.of whole.text).write Block.body)
      ∨ (cut.Flat ∧ cut.Bare
        ∧ (Tag.all [.block] found.rest).map (·.tag) = cut.blocks.map (fun b => Tag.block b.name)
        ∧ (Tag.Skips [.block] (found.gap ++ found.tag.content) found.rest →
          (Tag.all [.block] whole.text).map (·.tag) = cut.blocks.map (fun b => Tag.block b.name))
        ∧ ∃ children root, r.Chain text (found.rest :: children) root
          ∧ composition.source = (Cut.of root).write fun b =>
            Overrides.inherited (Block.bodies (cut.blocks ++ Block.all children) b.name) b.body))
    ∧ ∀ before path after parent,
      Tag.find [.inherits] text = some ⟨before, .inherits path, after⟩ →
      r.load path.text = .ok parent → ¬(cut.Flat ∧ cut.Bare) →
      ∃ span fault, r.compose origin text = .error (.misuse span fault) := by
  intro cut
  refine ⟨fun composition h => ?_, fun before path after parent inherits load hfaulty => ?_⟩
  · cases inherits : Tag.find [.inherits] text with
    | none => exact .inl ⟨rfl, source_of_alone inherits includes h⟩
    | some first =>
      right
      obtain ⟨before, path, after, rfl⟩ := Tag.eq_inherits_of_find inherits
      obtain ⟨round, hround⟩ := (composes_iff.mpr h).exists_round
      obtain ⟨overrides, hcollect⟩ :=
        Loader.collect_of_round (a := .start origin text) inherits includes keeps hround
      obtain ⟨children, root, chain⟩ := exists_chain_of_compose inherits includes keeps h
      obtain ⟨hsource, hblocks⟩ := source_of_climb chain h Overrides.merges_nil
      have flat : cut.Flat := hblocks found.rest (List.mem_cons_self ..)
      have headers := Cut.headers_of_flat flat
      refine ⟨flat, Overrides.bare_of_collect hcollect, headers, fun hskips => ?_,
        children, root, chain, hsource⟩
      rw [Tag.eq_of_find keeps, Tag.all_append hskips, List.map_map]
      exact headers
  · cases hround : r.loader.round (.start origin text) with
    | ok round =>
      obtain ⟨overrides, hcollect⟩ :=
        Loader.collect_of_round (a := .start origin text) inherits includes keeps hround
      have flat : cut.Flat := (Overrides.merges_nil.collect hcollect).2
      exact absurd ⟨flat, Overrides.bare_of_collect hcollect⟩ hfaulty
    | error e =>
      rw [← r.load_loader] at load
      obtain ⟨span, fault, rfl⟩ := Loader.misuse_of_round (a := .start origin text)
        inherits load includes keeps hround
      exact ⟨span, fault, composes_iff.mp (.failed hround)⟩

/-- One block of two is overridden behind a comment, and a tag behind the block is refused. -/
theorem overrides_kept_behind_comment :
    let header := "\x7b# c #\x7d\x7b% extends 'd' %\x7d".toList
    let child := "\x7b% block a %\x7dx\x7b% endblock %\x7d".toList
    let stray := "\x7b\x7b e \x7d\x7d".toList
    let root :=
      "\x7b% block a %\x7dy\x7b% endblock %\x7d\x7b% block b %\x7dz\x7b% endblock %\x7d".toList
    let r := Resolver.ofTemplates [("d".toList, root)]
    (∃ composition, r.compose none (header ++ child) = .ok composition
      ∧ composition.source = "xz".toList
      ∧ (Tag.all [.block] child).map (·.tag) = (Cut.of child).blocks.map fun b => Tag.block b.name)
    ∧ ∃ span fault, r.compose none (header ++ child ++ stray) = .error (.misuse span fault) := by
  intro header child stray root r
  have inherits : Tag.find [.inherits] (header ++ child)
      = some ⟨"\x7b# c #\x7d".toList, .inherits ⟨'\x27', "d".toList⟩, child⟩ := rfl
  have inherits' : Tag.find [.inherits] (header ++ child ++ stray)
      = some ⟨"\x7b# c #\x7d".toList, .inherits ⟨'\x27', "d".toList⟩, child ++ stray⟩ := rfl
  have includes : r.includes (header ++ child) = .ok ⟨header ++ child, []⟩ :=
    includes_of_find_eq_none rfl
  have includes' : r.includes (header ++ child ++ stray) = .ok ⟨header ++ child ++ stray, []⟩ :=
    includes_of_find_eq_none rfl
  refine ⟨?_, ?_⟩
  · have hsource : (r.compose none (header ++ child)).toOption.map (·.source)
        = some "xz".toList := by
      decide +kernel
    cases h : r.compose none (header ++ child) with
    | error e =>
      rw [h] at hsource
      cases hsource
    | ok composition =>
      rw [h] at hsource
      refine ⟨composition, rfl, Option.some.inj hsource, ?_⟩
      rcases (overrides_kept includes inherits).1 composition h with halone | hkept
      · cases halone.1.symm.trans inherits
      · exact hkept.2.2.1
  · refine (overrides_kept includes' inherits').2 _ _ _ _ inherits' rfl ?_
    decide +kernel

/-- A block before the extends tag is no override. -/
theorem override_lost :
    let text := "\x7b% block a %\x7dx\x7b% endblock %\x7d\x7b% extends 'b' %\x7d".toList
    let root := "\x7b% block a %\x7dy\x7b% endblock %\x7d".toList
    let r := Resolver.ofTemplates [("b".toList, root)]
    (∃ found, Tag.find [.inherits] text = some found ∧ Tag.find [.block] found.gap ≠ none)
      ∧ ∃ composition, r.compose none text = .ok composition
        ∧ composition.source = "y".toList := by
  intro text root r
  refine ⟨⟨_, rfl, by decide +kernel⟩, ?_⟩
  have hsource : (r.compose none text).toOption.map (·.source) = some "y".toList := by
    decide +kernel
  cases h : r.compose none text with
  | error e =>
    rw [h] at hsource
    cases hsource
  | ok composition =>
    rw [h] at hsource
    exact ⟨composition, rfl, Option.some.inj hsource⟩

end Resolver

end TemplateEngine

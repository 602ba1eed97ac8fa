import Mathlib.Tactic.ByContra
import TemplateEngine.Inheritance
import TemplateEngine.Proofs.Rounds
import TemplateEngine.Proofs.Searching

/-!
# Composition is the replacement of blocks

The overrides that are collected on the way to the root hold, for each name, all bodies of that
name met so far merged into one (`Overrides.Merges`). Each body that is added is put into what
is there (`Overrides.Merges.add`), so this is true of what all blocks of a text leave behind
(`Overrides.Merges.collect`). At the root the blocks are replaced one after the other,
which comes to the same as cutting the text at its blocks and writing it again
(`Overrides.replaceIn_eq_ok`). An induction along the chain of parents puts the two together
(`Resolver.source_of_climb`).
-/

namespace TemplateEngine

namespace Block

theorem bodies_append (blocks more : List Block) (name : Text) :
    bodies (blocks ++ more) name = bodies blocks name ++ bodies more name := by
  simp [bodies]

theorem bodies_singleton (b : Block) (name : Text) :
    bodies [b] name = if b.name = name then [b.body] else [] := by
  by_cases h : b.name = name <;> simp [bodies, h]

end Block

namespace Overrides

/-! ## Overrides are merged bodies -/

/-- The first of several bodies with the others put into it, if there is one. -/
def merge : List Text → Option Text
  | [] => none
  | first :: others => some (others.foldl (·.substitute superTag ·) first)

theorem merge_concat (bodies : List Text) (body : Text) :
    merge (bodies ++ [body])
      = some (match merge bodies with
        | none => body
        | some override => override.substitute superTag body) := by
  cases bodies with
  | nil => rfl
  | cons first others => simp [merge]

/-- The overrides are what the blocks met so far come to. -/
def Merges (overrides : Overrides) (met : List Block) : Prop :=
  ∀ name, overrides.get? name = merge (Block.bodies met name)

theorem merges_nil : Merges [] [] := fun _ => rfl

/-- A body that is added is the last of its name. -/
theorem Merges.add {overrides : Overrides} {met : List Block} (h : overrides.Merges met)
    (b : Block) : (overrides.add b.name b.body).Merges (met ++ [b]) := by
  intro name
  have hput : overrides.add b.name b.body
      = overrides.put b.name (match merge (Block.bodies met b.name) with
        | none => b.body
        | some override => override.substitute superTag b.body) := by
    rw [Overrides.add, h b.name]
    cases merge (Block.bodies met b.name) <;> rfl
  rw [hput, Entries.get?_put, Block.bodies_append, Block.bodies_singleton]
  by_cases hname : b.name = name
  · rw [if_pos hname, if_pos hname, merge_concat, hname]
  · rw [if_neg hname, if_neg hname, List.append_nil, h name]

/-- What overrides put in the place of a block. -/
theorem Merges.resolve {overrides : Overrides} {met : List Block} (h : overrides.Merges met)
    (name default : Text) :
    overrides.resolve name default = inherited (Block.bodies met name) default := by
  rw [Overrides.resolve, h name]
  cases Block.bodies met name <;> rfl

/-! ## Collecting -/

/-- The end of a block is accepted if no header stands in the body. -/
theorem blockEnd_eq_ok {template name : Text} {header stop : Tag.Found} :
    blockEnd template header name = .ok stop
      ↔ Tag.ending? name header.rest = some stop ∧ Tag.find [.block] stop.gap = none := by
  constructor
  · intro h
    have hstop := findEndBlock_of_blockEnd h
    rw [Tag.findEndBlock_eq_ending?] at hstop
    refine ⟨hstop, (Tag.find_gap_eq_none (Tag.eq_of_ending? hstop)).mpr fun nested hnested => ?_⟩
    rw [blockEnd, findEndBlock_of_blockEnd h, hnested] at h
    -- a header before the end would have been an error
    by_contra hlt
    simp only [Nat.not_le.mp hlt, if_true, reduceCtorEq] at h
  · rintro ⟨hstop, hflat⟩
    have hgap := (Tag.find_gap_eq_none (Tag.eq_of_ending? hstop)).mp hflat
    rw [blockEnd, Tag.findEndBlock_eq_ending?, hstop]
    cases hnested : Tag.find [.block] header.rest with
    | none => rfl
    | some nested => exact if_neg (Nat.not_lt.mpr (hgap nested hnested))

/-- The blocks of a text that are collected without an error have ends, and their bodies are
met one after the other. -/
theorem Merges.collect {overrides result : Overrides} {template text : Text} {met : List Block}
    (h : overrides.Merges met) (hcollect : overrides.collect template text = .ok result) :
    result.Merges (met ++ (Cut.of text).blocks)
      ∧ ∀ b ∈ (Cut.of text).blocks, b.closed.isSome ∧ Tag.find [.block] b.body = none := by
  fun_induction Overrides.collect overrides template text generalizing met with
  | case1 overrides text hnone =>
    obtain rfl : overrides = result := by
      cases hgap : checkGap template text [] with
      | error e => rw [hgap] at hcollect; cases hcollect
      | ok _ => rw [hgap] at hcollect; exact Except.ok.inj hcollect
    rw [Cut.of_eq_of_find_eq_none hnone, List.append_nil]
    exact ⟨h, fun b hb => (List.not_mem_nil hb).elim⟩
  | case2 => cases hcollect
  | case3 => cases hcollect
  | case4 overrides text header hheader =>
    rename_i name stop hend _ ih
    obtain ⟨hstop, hflat⟩ := blockEnd_eq_ok.mp hend
    obtain ⟨hmerges, hothers⟩ := ih (h.add ⟨header.gap, name, some (stop.gap, stop.tag)⟩) hcollect
    rw [Cut.of_eq_of_find hheader rfl, hstop]
    rw [List.append_assoc] at hmerges
    refine ⟨hmerges, fun b hb => ?_⟩
    rcases List.mem_cons.mp hb with rfl | hb
    · exact ⟨rfl, hflat⟩
    · exact hothers b hb

/-! ## Replacing -/

/-- Replacing the blocks of a text one after the other is writing the text anew. -/
theorem replaceIn_eq_ok {overrides : Overrides} {passed text source : Text}
    (h : overrides.replaceIn passed text = .ok source) :
    source = passed ++ (Cut.of text).write fun b => overrides.resolve b.name b.body := by
  fun_induction replaceIn overrides passed text with
  | case1 passed text hnone =>
    obtain rfl := Except.ok.inj h
    rw [Cut.of_eq_of_find_eq_none hnone]
    simp [Cut.write]
  | case2 passed text header hheader name hend _ ih =>
    rw [Tag.findEndBlock_eq_ending?] at hend
    rw [ih h, Cut.of_eq_of_find hheader rfl, hend]
    simp [name, Block.body]
  | case3 => cases h
  | case4 passed text header hheader name stop hend _ _ ih =>
    rw [Tag.findEndBlock_eq_ending?] at hend
    rw [ih h, Cut.of_eq_of_find hheader rfl, hend]
    simp [name, Block.body]

end Overrides

namespace Resolver

variable {r : Resolver} {fuel : Nat} {visited loads : List Text} {overrides : Overrides}
  {origin : Option Text} {text root : Text} {children : List Text} {composition : Composition}
  {met : List Block}

/-! ## Chains -/

/-- The last steps replace the blocks of the root by the bodies met before. -/
theorem source_of_finish {root : Spliced}
    (h : r.loader.finish overrides loads text = .ok composition)
    (includes : r.includes text = .ok root) (hmet : overrides.Merges met) :
    composition.source = (Cut.of root.text).write fun b =>
      Overrides.inherited (Block.bodies met b.name) b.body := by
  obtain ⟨root', includes', hreplace, -⟩ := Loader.finish_eq_ok h
  obtain rfl := Except.ok.inj (includes'.symm.trans includes)
  rw [Overrides.replaceIn_eq_ok hreplace, List.nil_append]
  congr 1
  funext b
  exact hmet.resolve b.name b.body

/-- A text without include tags is already whole. -/
theorem includes_of_find_eq_none (h : Tag.find [.inclusion] text = none) :
    r.includes text = .ok ⟨text, []⟩ :=
  Loader.splice_of_find_eq_none maxIncludeDepth h

/-- A template that can be composed begins a chain. -/
theorem exists_chain {a : Ascent} (h : r.loader.Composes a (.ok composition)) :
    ∃ children root, r.Chain a.text children root := by
  generalize hresult : Except.ok composition = result at h
  induction h with
  | failed => cases hresult
  | finished hround =>
    cases Loader.step_of_round hround with
    | root alone finish =>
      obtain ⟨whole, includes, -⟩ := Loader.finish_eq_ok finish
      exact ⟨_, _, .root alone includes⟩
    | orphan inherits _ load includes lost finish =>
      obtain ⟨again, includesAgain, -⟩ := Loader.finish_eq_ok finish
      exact ⟨_, _, .orphan inherits includes lost includesAgain⟩
  | onward hround _ ih =>
    cases Loader.step_of_round hround with
    | child inherits _ load includes keeps =>
      obtain ⟨before, path, child, rfl⟩ := Tag.eq_inherits_of_find keeps
      obtain ⟨children, root, chain⟩ := ih hresult
      exact ⟨_, _, .child inherits (r.load_loader _ ▸ load) includes keeps chain⟩

/-- A template begins at most one chain. -/
theorem Chain.unique {root' : Text} {children' : List Text}
    (h : r.Chain text children root) (h' : r.Chain text children' root') :
    children = children' ∧ root = root' := by
  induction h generalizing children' root' with
  | root alone includes =>
    cases h' with
    | root alone' includes' =>
      obtain rfl := Except.ok.inj (includes.symm.trans includes')
      exact ⟨rfl, rfl⟩
    | child inherits' => cases alone.symm.trans inherits'
    | orphan inherits' => cases alone.symm.trans inherits'
  | child inherits load includes keeps _ ih =>
    cases h' with
    | root alone' => cases alone'.symm.trans inherits
    | child inherits' load' includes' keeps' chain' =>
      cases inherits.symm.trans inherits'
      obtain rfl := Except.ok.inj (load.symm.trans load')
      obtain rfl := Except.ok.inj (includes.symm.trans includes')
      cases keeps.symm.trans keeps'
      obtain ⟨rfl, rfl⟩ := ih chain'
      exact ⟨rfl, rfl⟩
    | orphan _ includes' lost' =>
      obtain rfl := Except.ok.inj (includes.symm.trans includes')
      cases keeps.symm.trans lost'
  | orphan inherits includes lost includesAgain =>
    cases h' with
    | root alone' => cases alone'.symm.trans inherits
    | child _ _ includes' keeps' =>
      obtain rfl := Except.ok.inj (includes.symm.trans includes')
      cases lost.symm.trans keeps'
    | orphan _ includes' _ includesAgain' =>
      obtain rfl := Except.ok.inj (includes.symm.trans includes')
      obtain rfl := Except.ok.inj (includesAgain.symm.trans includesAgain')
      exact ⟨rfl, rfl⟩

/-- What is composed along a chain, given the blocks met before it. -/
theorem source_of_composes (chain : r.Chain text children root)
    (h : r.loader.Composes ⟨visited, overrides, loads, text⟩ (.ok composition))
    (hmet : overrides.Merges met) :
    (composition.source = (Cut.of root).write fun b =>
        Overrides.inherited (Block.bodies (met ++ Block.all children) b.name) b.body)
      ∧ ∀ child ∈ children, ∀ b ∈ (Cut.of child).blocks,
        b.closed.isSome ∧ Tag.find [.block] b.body = none := by
  induction chain generalizing visited overrides loads met with
  | root alone includes =>
    rw [Block.all, List.flatMap_nil, List.append_nil]
    cases h with
    | finished hround =>
      cases Loader.step_of_round hround with
      | root _ finish =>
        exact ⟨source_of_finish finish includes hmet,
          fun child hchild => (List.not_mem_nil hchild).elim⟩
      | orphan inherits => cases alone.symm.trans inherits
    | onward hround =>
      cases Loader.step_of_round hround with
      | child inherits => cases alone.symm.trans inherits
  | child inherits load includes keeps _ ih =>
    cases h with
    | finished hround =>
      cases Loader.step_of_round hround with
      | root alone => cases alone.symm.trans inherits
      | orphan _ _ _ includes' lost =>
        obtain rfl := Except.ok.inj (includes'.symm.trans includes)
        cases lost.symm.trans keeps
    | onward hround hrest =>
      cases Loader.step_of_round hround with
      | child inherits' _ load' includes' keeps' _ hcollect =>
        cases inherits.symm.trans inherits'
        rw [load_loader] at load'
        obtain rfl := Except.ok.inj (load.symm.trans load')
        obtain rfl := Except.ok.inj (includes'.symm.trans includes)
        obtain rfl := Option.some.inj (keeps.symm.trans keeps')
        obtain ⟨hresult, hblocks⟩ := hmet.collect hcollect
        obtain ⟨hsource, hothers⟩ := ih hrest hresult
        rw [List.append_assoc] at hsource
        refine ⟨hsource, fun child hchild => ?_⟩
        rcases List.mem_cons.mp hchild with rfl | hchild
        · exact hblocks
        · exact hothers child hchild
  | orphan inherits includes lost includesAgain =>
    rw [Block.all, List.flatMap_nil, List.append_nil]
    cases h with
    | finished hround =>
      cases Loader.step_of_round hround with
      | root alone => cases alone.symm.trans inherits
      | orphan _ _ _ includes' _ finish =>
        obtain rfl := Except.ok.inj (includes'.symm.trans includes)
        exact ⟨source_of_finish finish includesAgain hmet,
          fun child hchild => (List.not_mem_nil hchild).elim⟩
    | onward hround =>
      cases Loader.step_of_round hround with
      | child _ _ _ includes' keeps =>
        obtain rfl := Except.ok.inj (includes'.symm.trans includes)
        cases lost.symm.trans keeps

/-- What is composed along a chain by a bounded composition. -/
theorem source_of_climb (chain : r.Chain text children root)
    (h : r.loader.climb fuel ⟨visited, overrides, loads, text⟩ = .ok composition)
    (hmet : overrides.Merges met) :
    (composition.source = (Cut.of root).write fun b =>
        Overrides.inherited (Block.bodies (met ++ Block.all children) b.name) b.body)
      ∧ ∀ child ∈ children, ∀ b ∈ (Cut.of child).blocks,
        b.closed.isSome ∧ Tag.find [.block] b.body = none :=
  source_of_composes chain (Loader.composes_of_climb h) hmet

/-- A template that can be composed has one chain. -/
theorem exists_unique_chain (h : r.compose origin text = .ok composition) :
    ∃ children root, r.Chain text children root
      ∧ ∀ children' root', r.Chain text children' root' → children' = children ∧ root' = root := by
  obtain ⟨children, root, chain⟩ := exists_chain (Loader.composes_of_climb h)
  exact ⟨children, root, chain, fun children' root' chain' => chain'.unique chain⟩

/-- **What a template is composed to**: the root of its chain, in which each block is replaced and
nothing else is changed. For a block stands the first body of its name that the chain has, with
each further one put in for `block.super` in turn, and the body in the root last. The
texts before the root enter by the bodies of their blocks alone, all of which have an end
tag and hold no header. -/
theorem composed_of_chain (chain : r.Chain text children root)
    (h : r.compose origin text = .ok composition) :
    (Cut.of root).write Block.content = root
      ∧ (composition.source = (Cut.of root).write fun b =>
        Overrides.inherited (Block.bodies (Block.all children) b.name) b.body)
      ∧ (∀ child ∈ children, ∀ b ∈ (Cut.of child).blocks,
        b.closed.isSome ∧ Tag.find [.block] b.body = none)
      ∧ ∀ {r' : Resolver} {origin' : Option Text} {text' : Text} {children' : List Text}
        {composition' : Composition}, r'.Chain text' children' root →
        r'.compose origin' text' = .ok composition' →
        (∀ name, Block.bodies (Block.all children') name = Block.bodies (Block.all children) name) →
        composition'.source = composition.source := by
  -- a composition begins with no blocks met and no overrides
  obtain ⟨hsource, hblocks⟩ := source_of_climb chain h Overrides.merges_nil
  refine ⟨Cut.write_content root, hsource, hblocks, fun chain' h' hsame => ?_⟩
  rw [hsource, (source_of_climb chain' h' Overrides.merges_nil).1]
  simp only [List.nil_append, hsame]

/-- Two templates that refer to the body they replace, in a root with one block. -/
theorem composed_of_chain_three :
    let child := "\x7b% block a %\x7dchild-\x7b\x7b block.super \x7d\x7d\x7b% endblock %\x7d".toList
    let middle :=
      "\x7b% block a %\x7dmiddle-\x7b\x7b block.super \x7d\x7d\x7b% endblock a %\x7d".toList
    let root := "<\x7b% block a %\x7dbase\x7b% endblock a %\x7d>".toList
    let r := Resolver.ofTemplates
      [("base".toList, root), ("middle".toList, "\x7b% extends 'base' %\x7d".toList ++ middle)]
    let text := "\x7b% extends 'middle' %\x7d".toList ++ child
    r.Chain text [child, middle] root ∧
      ∃ composition, r.compose none text = .ok composition
        ∧ composition.source = "<child-middle-base>".toList
        ∧ composition.source = (Cut.of root).write fun b =>
          Overrides.inherited (Block.bodies (Block.all [child, middle]) b.name) b.body := by
  intro child middle root r text
  have chain : r.Chain text [child, middle] root := by
    refine .child rfl rfl (includes_of_find_eq_none rfl) rfl ?_
    refine .child rfl rfl (includes_of_find_eq_none rfl) rfl ?_
    exact .root rfl (includes_of_find_eq_none rfl)
  have hsource : (r.compose none text).toOption.map (·.source)
      = some "<child-middle-base>".toList := by
    decide +kernel
  cases h : r.compose none text with
  | error e =>
    rw [h] at hsource
    cases hsource
  | ok composition =>
    rw [h] at hsource
    exact ⟨chain, composition, rfl, Option.some.inj hsource, (composed_of_chain chain h).2.1⟩

end Resolver

end TemplateEngine

import TemplateEngine.Proofs.Acceptance
import TemplateEngine.Proofs.Alike

/-!
# An end tag of a wrong kind means the innermost construct

A template is read beside the one in which every end tag is that of the innermost construct. Their
tags stand at the same places (`Outline.split_matchEndsFrom`), and their marks are the same but for
the end tags (`Outline.Becomes`).

The first assembly may have taken an end tag for one construct and closed another, so that its
opening tags of a kind and its frames of that kind are no longer equally many. In the second
they always are (`Assembly.Agrees`), and so it accepts whatever the first accepts. In all else the
two do the same (`Assembly.Beside`).
-/

namespace TemplateEngine

/-! ## Marks with other end tags -/

/-- What a mark becomes when its end tag is replaced. -/
inductive Mark.Becomes : (opened : List Construct) → Mark → Mark → Prop
  | text {opened : List Construct} (text : Text) : Becomes opened (.text text) (.text text)
  | expression {opened : List Construct} (found found' : Tag.Found) (body : Text) :
    Becomes opened (.expression found body) (.expression found' body)
  | statement {opened : List Construct} (found found' : Tag.Found) {directive : Directive}
    (h : directive.ends? = none ∨ opened = []) :
    Becomes opened (.statement found directive) (.statement found' directive)
  | ending {construct ended : Construct} {outer : List Construct} (found found' : Tag.Found)
    {directive : Directive} (ends : directive.ends? = some ended) :
    Becomes (construct :: outer) (.statement found directive)
      (.statement found' (.ofBody construct.ending))

namespace Outline

variable {opened : List Construct} {l l' more more' : List Mark}

/-- What marks become when their end tags are replaced, given what is open before them. -/
inductive Becomes : (opened : List Construct) → List Mark → List Mark → Prop
  | nil (opened : List Construct) : Becomes opened [] []
  | cons {opened : List Construct} {m m' : Mark} {marks marks' : List Mark}
    (hm : m.Becomes opened m') (hrest : Becomes (m.openBehind opened) marks marks') :
    Becomes opened (m :: marks) (m' :: marks')

theorem Becomes.append (h : Becomes opened l l')
    (hmore : Becomes (l.foldl Mark.openBehind opened) more more') :
    Becomes opened (l ++ more) (l' ++ more') := by
  induction h with
  | nil => exact hmore
  | cons hm _ ih => exact .cons hm (ih hmore)

theorem becomes_ofText (opened : List Construct) (text : Text)
    (h : Becomes opened more more') :
    Becomes opened (Mark.ofText text ++ more) (Mark.ofText text ++ more') := by
  rw [Mark.ofText]
  split
  · exact h
  · exact .cons (.text text) h

theorem becomes_ofTag (opened : List Construct) (found : Tag.Found) (rest : Text) :
    Becomes opened (Mark.ofTag found)
      (Mark.ofTag ⟨found.gap, found.tag.matchEnd opened, rest⟩) := by
  obtain ⟨gap, tag, behind⟩ := found
  cases tag with
  | expression body => exact .cons (.expression _ _ body) (.nil _)
  | statement body =>
    refine .cons ?_ (.nil _)
    unfold Directive.matchEnd
    cases hends : (Directive.ofBody body).ends? with
    | none => exact .statement _ _ (.inl hends)
    | some ended =>
      cases opened with
      | nil => exact .statement _ _ (.inr rfl)
      | cons construct outer => exact .ending _ _ hends
  | _ => exact .nil _

/-- The marks of tags and of the text between them, with the end tags replaced. -/
theorem becomes_ofTags (o : Options) (afterStatement : Bool) (opened : List Construct)
    (tags : List Tag.Found) (last : Text) :
    Becomes opened (Mark.ofTags o afterStatement tags last)
      (Mark.ofTags o afterStatement (matchTags opened tags last) last) := by
  induction tags generalizing afterStatement opened with
  | nil =>
    have hlast := becomes_ofText opened (o.keepBetween afterStatement false last) (.nil opened)
    simpa [Mark.ofTags, matchTags] using hlast
  | cons found tags ih =>
    have hstatement : (found.tag.matchEnd opened).isStatement = found.tag.isStatement := by
      cases found.tag <;> rfl
    rw [Mark.ofTags, matchTags, Mark.ofTags, hstatement, List.append_assoc, List.append_assoc]
    apply becomes_ofText
    exact (becomes_ofTag opened found _).append (ih _ _)

/-- **Only the end tags of a template are replaced.** -/
theorem becomes_marks (o : Options) (text : Text) :
    Becomes [] (marks o text) (marks o (matchEnds text)) := by
  have hsplit := split_matchEndsFrom [] text
  rw [← matchEnds] at hsplit
  rw [marks, marks, hsplit]
  exact becomes_ofTags o false [] _ _

end Outline

/-! ## Constructs -/

namespace Mark

/-- An end tag that names the innermost construct takes one of its kind from the open ones. -/
theorem count_openBehind {opened : List Construct} {m : Mark}
    (hends : m.ends? = none ∨ m.ends? = opened.head?) (construct : Construct) :
    opened.count construct + (if m.begins? = some construct then 1 else 0)
      = (m.openBehind opened).count construct + if m.ends? = some construct then 1 else 0 := by
  cases m with
  | text | expression => rfl
  | statement found directive =>
    cases directive with
    | openIf | openFor | openWhile =>
      simp [begins?, ends?, openBehind, Directive.begins?, Directive.ends?, List.count_cons]
    | endIf | endFor | endWhile =>
      obtain ⟨outer, rfl⟩ := List.head?_eq_some_iff.mp
        (hends.resolve_left (Option.some_ne_none _)).symm
      simp [begins?, ends?, openBehind, Directive.begins?, Directive.ends?, List.count_cons]
    | _ => rfl

end Mark

/-- The end tag of an open construct is read as such. -/
theorem Frame.ends?_ofBody_ending (frame : Frame) :
    (Directive.ofBody frame.construct.ending).ends? = some frame.construct := by
  have hends : ∀ construct ∈ [Construct.branch, .loop, .repetition],
      (Directive.ofBody construct.ending).ends? = some construct := by decide
  apply hends
  cases frame <;> simp [construct]

namespace Assembly

variable {o : Options} {text : Text} {a b : Assembly} {m : Mark}

/-- The open constructs, from the innermost. -/
def constructs (a : Assembly) : List Construct := a.frames.map Frame.construct

/-- What a step opens and closes is read off its mark. -/
theorem Step.constructs_eq (hbalanced : a.Balanced) (hstep : Step o a m b) :
    b.constructs = m.openBehind a.constructs := by
  cases hstep with
  | text | output | exec | openIf | openFor | openWhile => rfl
  | elif _ _ hinner | otherwise _ hinner | empty _ hinner =>
    rw [constructs, constructs, hinner]
    rfl
  | @close found directive construct ends opened =>
    obtain ⟨frame, frames, hf⟩ := List.exists_cons_of_ne_nil (hbalanced.frames_ne_nil opened)
    have hforget : (a.forget construct).frames = frame :: frames := by rw [frames_forget, hf]
    have hnone : directive.begins? = none :=
      Mark.begins?_of_ends? (m := .statement found directive) ends
    rw [constructs, leave_eq hforget, frames_conclude, constructs, hf, Mark.openBehind, hnone, ends]
    rfl
  | @mode found directive modes change =>
    cases directive <;> first | rfl | cases change

/-- The opening tags without an end tag are as many as the open constructs of their kind. -/
def Agrees (a : Assembly) : Prop :=
  ∀ construct : Construct, (a.opens construct).length = a.constructs.count construct

/-- If every end tag names the innermost construct, the two accounts of what is open agree. -/
theorem Agrees.step (h : a.Agrees) (hbalanced : a.Balanced) (hstep : Step o a m b)
    (hends : m.ends? = none ∨ m.ends? = a.constructs.head?) : b.Agrees := by
  intro construct
  have hopens := hstep.length_opens construct
  have hcount := Mark.count_openBehind hends construct
  have hagrees := h construct
  rw [hstep.constructs_eq hbalanced]
  omega

/-- There is an opening tag for the innermost construct. -/
theorem Agrees.opens_ne_nil (h : a.Agrees) {frame : Frame} {frames : List Frame}
    (hframes : a.frames = frame :: frames) : a.opens frame.construct ≠ [] := by
  apply List.ne_nil_of_length_pos
  rw [h, constructs, hframes]
  exact List.count_pos_iff.mpr List.mem_cons_self

/-! ## What is accepted -/

section

variable {found : Tag.Found} {directive : Directive} {construct : Construct}

/-- What has been parsed is handed on. -/
theorem parsed_bind {α β : Type} {result : Except ParseError α} {x : α} (h : result = .ok x)
    (next : α → Except TemplateError β) : parsed text found result >>= next = next x := by
  rw [h]
  rfl

theorem nextArm_eq (hopens : a.branches ≠ []) {pending : Nat} {exits : List Nat}
    {frames : List Frame} (hframes : a.frames = .branch (some pending) exits :: frames) (arm : Arm)
    (condition : Option Expr) : a.nextArm text found arm condition
      = .ok ({ a with frames := frames }.beginArm pending exits condition) := by
  rw [nextArm, List.isEmpty_eq_false_iff.mpr hopens, hframes]
  rfl

theorem emptyArm_eq (hopens : a.loops ≠ []) {head : Nat} {frames : List Frame}
    (hframes : a.frames = .loop head none :: frames) :
    a.emptyArm text found = .ok ({ a with frames := frames }.beginEmpty head) := by
  rw [emptyArm, List.isEmpty_eq_false_iff.mpr hopens, hframes]
  rfl

theorem directive_of_ends? (h : directive.ends? = some construct)
    (hopens : a.opens construct ≠ []) :
    a.directive text found directive = .ok (a.forget construct).leave := by
  have hclose : a.directive text found directive = a.close text found construct := by
    cases directive <;> cases h <;> rfl
  obtain ⟨first, others, hopens⟩ := List.exists_cons_of_ne_nil hopens
  rw [hclose, close, hopens]

theorem directive_of_modes? {modes : List Bool} (h : directive.modes? a.modes = some modes) :
    a.directive text found directive = .ok { a with modes := modes } := by
  cases directive with
  | autoescape mode =>
    rw [Directive.modes?] at h
    rw [Assembly.directive]
    split at h
    · next hon =>
      cases h
      exact if_pos hon
    split at h
    · next hon hoff =>
      cases h
      exact (if_neg hon).trans (if_pos hoff)
    · cases h
  | endAutoescape =>
    cases hmodes : a.modes with
    | nil =>
      rw [hmodes] at h
      cases h
    | cons on outer =>
      rw [hmodes] at h
      cases h
      rw [Assembly.directive, hmodes]
  | _ => cases h

/-- An end tag that is accepted closes the innermost construct. -/
theorem Step.of_ends? (hstep : Step o a (.statement found directive) b)
    (h : directive.ends? = some construct) :
    a.opens construct ≠ [] ∧ b = (a.forget construct).leave := by
  cases hstep with
  | exec | openIf | openFor | openWhile | elif | otherwise | empty => cases h
  | close found ends opened =>
    obtain rfl := Option.some.inj (ends.symm.trans h)
    exact ⟨opened, rfl⟩
  | mode found change => cases directive <;> first | cases change | cases h

end

/-! ## Two assemblies side by side -/

/-- Two assemblies have the same code and the same frames, and are in the same autoescape sections.
Which opening tags wait for an end tag may differ. -/
structure Beside (a b : Assembly) : Prop where
  code : b.code = a.code
  frames : b.frames = a.frames
  modes : b.modes = a.modes

namespace Beside

variable {a' : Assembly} {m' : Mark} {found : Tag.Found} {opened : List Construct}

theorem constructs_eq (h : Beside a b) : b.constructs = a.constructs :=
  congrArg (List.map Frame.construct) h.frames

/-- Whatever the end tags are for, the innermost construct is closed in both. -/
theorem leave (h : Beside a b) (construct construct' : Construct) :
    Beside (a.forget construct).leave (b.forget construct').leave := by
  have hforget : Beside (a.forget construct) (b.forget construct') :=
    ⟨by simp [h.code], by simp [h.frames], by simp [h.modes]⟩
  -- what a frame leads where does not depend on the opening tags
  generalize a.forget construct = a, b.forget construct' = b at hforget
  obtain ⟨code, frames, branches, loops, repetitions, modes⟩ := b
  obtain ⟨_, _, branches', loops', repetitions', _⟩ := a
  obtain ⟨rfl, rfl, rfl⟩ := hforget
  cases frames with
  | nil => exact ⟨rfl, rfl, rfl⟩
  | cons frame frames => rcases frame with _ | ⟨_, _ | _⟩ | _ <;> exact ⟨rfl, rfl, rfl⟩

/-- A tag that ends no construct does the same in both. -/
theorem directive {directive : Directive} (h : Beside a b) (hagrees : b.Agrees)
    (hstep : Step o a (.statement found directive) a') (hkeeps : directive.ends? = none)
    (found' : Tag.Found) :
    ∃ b', b.directive text found' directive = .ok b' ∧ Beside a' b' := by
  have hopens {frame : Frame} {frames : List Frame} (hframes : a.frames = frame :: frames) :=
    hagrees.opens_ne_nil (h.frames.trans hframes)
  -- all that is left of the second assembly are its opening tags
  obtain ⟨code, frames, branches, loops, repetitions, modes⟩ := b
  obtain ⟨rfl, rfl, rfl⟩ := h
  cases hstep with
  | exec found parse | openIf found parse | openFor found parse | openWhile found parse =>
    exact ⟨_, parsed_bind parse _, rfl, rfl, rfl⟩
  | elif found parse innermost =>
    exact ⟨_, (parsed_bind parse _).trans (nextArm_eq (hopens innermost) innermost _ _),
      rfl, rfl, rfl⟩
  | otherwise found innermost =>
    exact ⟨_, nextArm_eq (hopens innermost) innermost _ _, rfl, rfl, rfl⟩
  | empty found innermost => exact ⟨_, emptyArm_eq (hopens innermost) innermost, rfl, rfl, rfl⟩
  | close found ends => cases hkeeps.symm.trans ends
  | mode found change => exact ⟨_, directive_of_modes? change, rfl, rfl, rfl⟩

/-- An end tag of any construct is read where the first assembly reads one. -/
theorem close {directive directive' : Directive} {ended : Construct} {frame : Frame}
    {frames : List Frame} (h : Beside a b) (hagrees : b.Agrees)
    (hstep : Step o a (.statement found directive) a') (hends : directive.ends? = some ended)
    (hframes : a.frames = frame :: frames) (hends' : directive'.ends? = some frame.construct)
    (found' : Tag.Found) :
    ∃ b', b.directive text found' directive' = .ok b' ∧ Beside a' b' := by
  obtain ⟨-, rfl⟩ := hstep.of_ends? hends
  have hopens := hagrees.opens_ne_nil (h.frames.trans hframes)
  exact ⟨_, directive_of_ends? hends' hopens, h.leave _ _⟩

/-- What the first assembly reads, the second reads too, and its end tags name the innermost
construct. -/
theorem mark (text : Text) (h : Beside a b) (hagrees : b.Agrees) (hbalanced : a.Balanced)
    (hopened : a.constructs = opened) (hstep : Step o a m a') (hm : m.Becomes opened m') :
    (m'.ends? = none ∨ m'.ends? = opened.head?)
      ∧ ∃ b', b.mark o text m' = .ok b' ∧ Beside a' b' := by
  cases hm with
  | text literal =>
    cases hstep
    obtain ⟨code, frames, branches, loops, repetitions, modes⟩ := b
    obtain ⟨rfl, rfl, rfl⟩ := h
    exact ⟨.inl rfl, _, rfl, rfl, rfl, rfl⟩
  | expression found found' body =>
    cases hstep with
    | output found parse =>
      obtain ⟨code, frames, branches, loops, repetitions, modes⟩ := b
      obtain ⟨rfl, rfl, rfl⟩ := h
      exact ⟨.inl rfl, _, parsed_bind parse _, rfl, rfl, rfl⟩
  | @statement _ found found' directive hkeeps =>
    have hnone : directive.ends? = none := by
      rcases hkeeps with hnone | rfl
      · exact hnone
      · -- no end tag is accepted where nothing is open
        refine Option.eq_none_iff_forall_ne_some.mpr fun ended hends => ?_
        have hframes := hbalanced.frames_ne_nil (hstep.of_ends? hends).1
        exact hframes (List.map_eq_nil_iff.mp hopened)
    exact ⟨.inl hnone, h.directive hagrees hstep hnone found'⟩
  | @ending construct ended outer found found' directive ends =>
    obtain ⟨frame, frames, hframes, rfl, -⟩ := List.map_eq_cons_iff.mp hopened
    have hends' := frame.ends?_ofBody_ending
    exact ⟨.inr hends', h.close hagrees hstep ends hframes hends' found'⟩

/-- **Side by side**: while the first assembly reads marks without an error, the second reads the
marks that they become, and the two end up with the same code and frames. -/
theorem read (text' : Text) {marks marks' : List Mark} {last : Assembly} (h : Beside a b)
    (ha : a.Balanced) (hb : b.Balanced) (hagrees : b.Agrees)
    (hbecomes : Outline.Becomes opened marks marks') (hopened : a.constructs = opened)
    (hread : a.read o text marks = .ok last) :
    Outline.EndsMatch opened marks'
      ∧ ∃ last', b.read o text' marks' = .ok last' ∧ Beside last last' ∧ last'.Agrees := by
  induction hbecomes generalizing a b with
  | nil =>
    cases hread
    exact ⟨trivial, b, rfl, h, hagrees⟩
  | @cons opened m m' marks marks' hm hrest ih =>
    obtain ⟨c, hstep, hread⟩ := read_cons_eq_ok hread
    obtain ⟨hends, d, hmark, hcd⟩ := h.mark text' hagrees ha hopened hstep hm
    have hstep' := step_of_mark hmark
    have hconstructs : b.constructs = opened := h.constructs_eq.trans hopened
    have hc := hstep.constructs_eq ha
    have hd := hstep'.constructs_eq hb
    rw [hopened] at hc
    -- a mark and what it becomes open and close the same
    rw [hconstructs, hcd.constructs_eq, hc] at hd
    rw [← hconstructs] at hends
    obtain ⟨hmatch, last', hlast, hbeside⟩ := ih hcd (ha.step hstep) (hb.step hstep')
      (hagrees.step hb hstep' hends) hc hread
    refine ⟨⟨hconstructs ▸ hends, hd ▸ hmatch⟩, last', ?_, hbeside⟩
    rw [Assembly.read, List.foldlM_cons, hmark]
    exact hlast

/-- If nothing is left open in the first assembly, then nothing is in the second. -/
theorem finish {text' : Text} {plan : Plan} (h : Beside a b) (hbalanced : a.Balanced)
    (hagrees : b.Agrees) (hfinish : a.finish text = .ok plan) : b.finish text' = .ok plan := by
  obtain ⟨hunclosed, rfl⟩ := finish_eq_ok hfinish
  have hframes : b.frames = [] := h.frames.trans (hbalanced.frames_eq_nil hunclosed)
  have hclosed : b.unclosed? = none := by
    apply unclosed?_eq_none_iff.mpr
    intro construct
    apply List.eq_nil_of_length_eq_zero
    rw [hagrees construct, constructs, hframes]
    rfl
  rw [Assembly.finish, hclosed, h.code]

end Beside

end Assembly

/-- **End tags of a wrong kind mean the innermost construct.** If a template without comments
compiles, then so does the one in which each end tag is that of the construct that was opened last,
to the same plan. In that one, every end tag names what it closes. -/
theorem Plan.compile_matchEnds {o : Options} {source : Text} {plan : Plan}
    (hfree : source.CommentFree) (hplan : Plan.compile o source = .ok plan) :
    Plan.compile o (Outline.matchEnds source) = .ok plan
      ∧ (Outline.matchEnds source).CommentFree
      ∧ Outline.EndsMatch [] (Outline.marks o (Outline.matchEnds source)) := by
  have hfree' : (Outline.matchEnds source).CommentFree :=
    (Outline.alike_matchEndsFrom [] source).commentFree hfree
  rw [Plan.compile, hfree.stripComments] at hplan
  obtain ⟨a, hread, hfinish⟩ := Plan.read_eq_ok hplan
  have hstart : Assembly.Beside {} {} := ⟨rfl, rfl, rfl⟩
  have hagrees : Assembly.Agrees {} := by
    intro construct
    cases construct <;> rfl
  obtain ⟨hmatch, b, hread', hbeside, hlast⟩ := hstart.read (Outline.matchEnds source) rfl rfl
    hagrees (Outline.becomes_marks o source) rfl hread
  refine ⟨?_, hfree', hmatch⟩
  rw [Plan.compile, hfree'.stripComments, Plan.read, hread']
  exact hbeside.finish (Assembly.balanced_of_read hread) hlast hfinish

/-- The first end tag is that of a loop and closes an `if`, and another arm follows. -/
theorem Plan.compile_matchEnds_interleaved :
    let source := ("{% if a %}{% for x in y %}{% if b %}1{% endfor %}{{ x }}{% endif %}"
      ++ "{% elif c %}2{% endif %}").toList
    let matched := ("{% if a %}{% for x in y %}{% if b %}1{% endif %}{{ x }}{% endfor %}"
      ++ "{% elif c %}2{% endif %}").toList
    Outline.matchEnds source = matched
      ∧ ∃ plan, Plan.compile {} source = .ok plan ∧ Plan.compile {} matched = .ok plan := by
  intro source matched
  have hmatched : Outline.matchEnds source = matched := by decide +kernel
  have hfree : Text.CommentFree source :=
    ⟨Option.isNone_iff_eq_none.mp (by decide +kernel),
      Option.isNone_iff_eq_none.mp (by decide +kernel)⟩
  have hcompiles : (Plan.compile {} source).toOption.isSome := by decide +kernel
  obtain ⟨plan, hplan⟩ := Option.isSome_iff_exists.mp hcompiles
  have hok := eq_ok_of_toOption hplan
  exact ⟨hmatched, plan, hok, hmatched ▸ (Plan.compile_matchEnds hfree hok).1⟩

end TemplateEngine

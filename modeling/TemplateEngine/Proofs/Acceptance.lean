import Mathlib.Data.List.Forall2
import TemplateEngine.Proofs.Meaning
import TemplateEngine.Proofs.Sections

/-!
# A template compiles if its tags are accepted

An assembly keeps two accounts of what is open: a stack of opening tags for each kind of
construct, and one stack of frames. Behind the tags read so far the first are as long as the
tags of the kind are out of balance (`Assembly.Counts`), and the second is the stack of open
brackets among all tags, where a frame also knows whether the last arm of its construct has
begun (`Assembly.Frames`). Together with the autoescape sections these decide whether the next tag
is read without an error (`Assembly.Follows.mark_isOk`), and by induction whether all are
(`Assembly.read_isOk_iff`).
-/

namespace TemplateEngine

/-! ## Arms -/

namespace Mark

theorem lastArm?_of_begins? {m : Mark} (h : m.begins?.isSome) : m.lastArm? = none := by
  cases m with
  | text | expression => rfl
  | statement found directive => cases directive <;> first | rfl | cases h

theorem lastArm?_of_ends? {m : Mark} (h : m.ends?.isSome) : m.lastArm? = none := by
  cases m with
  | text | expression => rfl
  | statement found directive => cases directive <;> first | rfl | cases h

theorem begins?_of_ends? {m : Mark} {construct : Construct} (h : m.ends? = some construct) :
    m.begins? = none := by
  cases hbegins : m.begins? with
  | none => rfl
  | some other =>
    rw [ends?_of_begins? hbegins] at h
    cases h

/-- A tag that neither begins nor ends a construct is no bracket. -/
theorem balanced_of_eq_none {m : Mark} (hbegins : m.begins? = none) (hends : m.ends? = none) :
    brackets.Balanced [m] := by
  apply Brackets.balanced_singleton
  · exact Option.isSome_eq_false_iff.mpr (Option.isNone_iff_eq_none.mpr hbegins)
  · exact Option.isSome_eq_false_iff.mpr (Option.isNone_iff_eq_none.mpr hends)

end Mark

namespace Construct

variable {construct : Construct} {inside : List Mark} {m : Mark}

theorem not_hasLastArm_nil : ¬construct.HasLastArm [] := by
  rintro ⟨front, m, back, heq, -, -⟩
  simp at heq

/-- The last arm begins with the last mark, or has begun before. -/
theorem hasLastArm_concat : construct.HasLastArm (inside ++ [m]) ↔
    construct.HasLastArm inside
      ∨ m.lastArm? = some construct ∧ Mark.brackets.Balanced inside := by
  constructor
  · rintro ⟨front, x, back, heq, hlast, hfront⟩
    obtain ⟨rfl, rfl, -⟩ | ⟨back, -, rfl⟩ := Brackets.split_of_concat heq
    · exact .inr ⟨hlast, hfront⟩
    · exact .inl ⟨front, x, back, rfl, hlast, hfront⟩
  · rintro (⟨front, x, back, rfl, hlast, hfront⟩ | ⟨hlast, hinside⟩)
    · exact ⟨front, x, back ++ [m], by simp, hlast, hfront⟩
    · exact ⟨inside, m, [], rfl, hlast, hinside⟩

/-- A construct that has been closed again does not begin an arm of the one around it. -/
theorem hasLastArm_append {opening closing : Mark} {within : List Mark}
    (hinside : Mark.brackets.Covered inside) (hopening : Mark.brackets.opens opening = true)
    (hwithin : Mark.brackets.Covered within) (hclosing : Mark.brackets.closes closing = true) :
    construct.HasLastArm (inside ++ (opening :: within ++ [closing]))
      ↔ construct.HasLastArm inside := by
  have hfirst := Mark.lastArm?_of_begins? hopening
  have hlast := Mark.lastArm?_of_ends? hclosing
  rw [← List.append_assoc, hasLastArm_concat, hlast]
  constructor
  · rintro (harm | ⟨hnone, -⟩)
    · -- drop what is within the closed construct, mark by mark from the end
      induction within using List.reverseRecOn with
      | nil =>
        rw [hasLastArm_concat, hfirst] at harm
        exact harm.resolve_right (fun hnone => nomatch hnone.1)
      | append_singleton within x ih =>
        rw [← List.cons_append, ← List.append_assoc] at harm
        rcases hasLastArm_concat.mp harm with harm | ⟨-, hbalanced⟩
        · exact ih (hwithin.of_prefix (List.prefix_append _ _)) harm
        · have hlt := Brackets.count_lt_of_opens hinside hopening
            (hwithin.of_prefix (List.prefix_append within [x]))
          rw [hbalanced.count_eq] at hlt
          exact absurd hlt (Nat.lt_irrefl _)
    · cases hnone
  · rintro ⟨front, x, back, rfl, hlast, hfront⟩
    exact .inl ⟨front, x, back ++ opening :: within, by simp, hlast, hfront⟩

end Construct

namespace Frame

/-- The construct of a frame. -/
def construct : Frame → Construct
  | .branch _ _ => .branch
  | .loop _ _ => .loop
  | .repetition _ => .repetition

/-- The last arm of the construct has begun. -/
def inLastArm : Frame → Bool
  | .branch pending _ => pending.isNone
  | .loop _ next => next.isSome
  | .repetition _ => false

/-- The frame is that of an opening tag with some marks behind it. -/
structure Of (frame : Frame) (opened : Mark × List Mark) : Prop where
  begins : opened.1.begins? = some frame.construct
  inLastArm : frame.inLastArm = true ↔ frame.construct.HasLastArm opened.2

end Frame

namespace Assembly

variable {o : Options} {text : Text} {a b : Assembly} {l : List Mark} {m : Mark}

/-! ## Opening tags without an end tag -/

/-- There are as many opening tags without an end tag as the tags of the construct are out of
balance. -/
def Counts (l : List Mark) (a : Assembly) : Prop :=
  ∀ construct : Construct, l.countP construct.brackets.closes + (a.opens construct).length
    = l.countP construct.brackets.opens

theorem Counts.isOpen_iff (h : Counts l a) (construct : Construct) :
    construct.IsOpen l ↔ a.opens construct ≠ [] := by
  have hcount := h construct
  rw [Construct.IsOpen, ← List.length_pos_iff]
  omega

/-- Tags that open or end a construct are counted, and no others. -/
theorem Counts.concat (h : Counts l a) (hb : ∀ construct : Construct,
    (a.opens construct).length + (if m.begins? = some construct then 1 else 0)
      = (b.opens construct).length + if m.ends? = some construct then 1 else 0) :
    Counts (l ++ [m]) b := by
  intro construct
  have hcount := h construct
  have hopens : (l ++ [m]).countP construct.brackets.opens
      = l.countP construct.brackets.opens + if m.begins? = some construct then 1 else 0 := by
    simp [Construct.brackets, List.countP_singleton]
  have hcloses : (l ++ [m]).countP construct.brackets.closes
      = l.countP construct.brackets.closes + if m.ends? = some construct then 1 else 0 := by
    simp [Construct.brackets, List.countP_singleton]
  have hchange := hb construct
  rw [hopens, hcloses]
  omega

/-- A step adds an opening tag without an end tag, takes one away or leaves them. -/
theorem Step.length_opens (hstep : Step o a m b) (construct : Construct) :
    (a.opens construct).length + (if m.begins? = some construct then 1 else 0)
      = (b.opens construct).length + if m.ends? = some construct then 1 else 0 := by
  cases hstep with
  | text | output | exec => rfl
  | openIf | openFor | openWhile =>
    cases construct <;> simp [opens, enter, push, Mark.begins?, Mark.ends?, Directive.begins?,
      Directive.ends?]
  | elif | otherwise =>
    rw [opens_beginArm]
    cases construct <;> rfl
  | empty => cases construct <;> rfl
  | @close found directive ended ends opened =>
    have hends : (Mark.statement found directive).ends? = some ended := ends
    rw [opens_leave, Mark.begins?_of_ends? hends, hends]
    have hlength := List.length_pos_iff.mpr opened
    cases ended <;> cases construct <;> simp_all [opens, forget]
    all_goals omega
  | @mode found directive modes change =>
    cases directive <;> first | rfl | cases change

theorem Counts.step (h : Counts l a) (hstep : Step o a m b) : Counts (l ++ [m]) b :=
  h.concat hstep.length_opens

/-- Nothing is left open when no opening tag waits for an end tag. -/
theorem unclosed?_eq_none_iff : a.unclosed? = none ↔ ∀ construct, a.opens construct = [] := by
  constructor
  · intro hnone construct
    obtain ⟨hbranches, hloops, hrepetitions⟩ :
        a.branches = [] ∧ a.loops = [] ∧ a.repetitions = [] := by
      simpa [unclosed?, opens] using hnone
    cases construct <;> first | rfl | assumption
  · intro hnil
    simp [unclosed?, hnil]

/-! ## Frames -/

/-- The frames are those of the constructs that are open behind the tags read so far. -/
def Frames (l : List Mark) (a : Assembly) : Prop :=
  ∃ stack, Mark.brackets.Stacked l stack ∧ List.Forall₂ Frame.Of a.frames stack

/-- What follows an opening tag, with more behind it that does not begin its last arm. -/
theorem forall₂_extend {frames : List Frame} {stack : List (Mark × List Mark)} {more : List Mark}
    (hstack : Mark.brackets.Stacked l stack) (h : List.Forall₂ Frame.Of frames stack)
    (hmore : ∀ construct inside, Mark.brackets.Balanced inside →
      (Construct.HasLastArm construct (inside ++ more) ↔ Construct.HasLastArm construct inside)) :
    List.Forall₂ Frame.Of frames (Brackets.extend more stack) := by
  cases h with
  | nil => exact .nil
  | @cons frame opened frames stack hframe hbelow =>
    obtain ⟨outer, -, -, hinside⟩ := hstack.innermost
    refine .cons ⟨hframe.begins, ?_⟩ hbelow
    exact hframe.inLastArm.trans (hmore _ _ hinside).symm

/-- A tag that neither opens nor ends a construct nor begins a last arm. -/
theorem Frames.concat (h : Frames l a) (hframes : b.frames = a.frames)
    (hbegins : m.begins? = none) (hends : m.ends? = none) (hlast : m.lastArm? = none) :
    Frames (l ++ [m]) b := by
  obtain ⟨stack, hstack, hall⟩ := h
  have hneutral := Mark.balanced_of_eq_none hbegins hends
  refine ⟨_, hstack.append hneutral, hframes ▸ forall₂_extend hstack hall ?_⟩
  intro construct inside _
  rw [Construct.hasLastArm_concat, hlast]
  simp

/-- An opening tag puts its frame on the others. -/
theorem Frames.enter (h : Frames l a) {frame : Frame} (hframes : b.frames = frame :: a.frames)
    (hbegins : m.begins? = some frame.construct) (hlast : frame.inLastArm = false) :
    Frames (l ++ [m]) b := by
  obtain ⟨stack, hstack, hall⟩ := h
  refine ⟨_, hstack.concat_opens (by simp [Mark.brackets, hbegins]), ?_⟩
  rw [hframes]
  refine .cons ⟨hbegins, ?_⟩ hall
  simp [hlast, Construct.not_hasLastArm_nil]

/-- A tag that begins another arm changes the innermost frame. -/
theorem Frames.replace (h : Frames l a) {frame frame' : Frame} {frames : List Frame}
    (ha : a.frames = frame :: frames) (hb : b.frames = frame' :: frames)
    (hsame : frame'.construct = frame.construct) (hbegins : m.begins? = none)
    (hends : m.ends? = none) (hlast : frame'.inLastArm = true ↔
      frame.inLastArm = true ∨ m.lastArm? = some frame.construct) :
    Frames (l ++ [m]) b := by
  obtain ⟨stack, hstack, hall⟩ := h
  rw [ha] at hall
  cases hall with
  | @cons _ opened _ stack hframe hbelow =>
    obtain ⟨outer, -, -, hinside⟩ := hstack.innermost
    refine ⟨_, hstack.append (Mark.balanced_of_eq_none hbegins hends), ?_⟩
    rw [hb]
    refine .cons ⟨hsame ▸ hframe.begins, ?_⟩ hbelow
    rw [hlast, hsame, Construct.hasLastArm_concat, ← hframe.inLastArm]
    simp [hinside]

/-- An end tag takes the innermost frame away. -/
theorem Frames.leave (h : Frames l a) {frame : Frame} {frames : List Frame}
    (ha : a.frames = frame :: frames) (hb : b.frames = frames) (hends : m.ends?.isSome) :
    Frames (l ++ [m]) b := by
  obtain ⟨stack, hstack, hall⟩ := h
  rw [ha] at hall
  cases hall with
  | @cons _ opened _ stack hframe hbelow =>
    have hcloses : Mark.brackets.closes m = true := hends
    refine ⟨_, hstack.concat_closes hcloses, ?_⟩
    rw [hb]
    -- the closed construct now stands behind the opening tag of the one around it
    cases hstack with
    | cons hbefore hopening hwithin =>
      apply forall₂_extend hbefore hbelow
      intro construct inside hinside
      exact Construct.hasLastArm_append hinside.covered hopening hwithin.covered hcloses

theorem Frames.step (h : Frames l a) (hbalanced : a.Balanced) (hstep : Step o a m b) :
    Frames (l ++ [m]) b := by
  cases hstep with
  | text | output | exec => exact h.concat rfl rfl rfl rfl
  | openIf | openFor | openWhile => exact h.enter rfl rfl rfl
  | elif _ _ hinner =>
    refine h.replace hinner rfl rfl rfl rfl ?_
    simp [Frame.inLastArm, Mark.lastArm?, Directive.lastArm?]
  | otherwise _ hinner | empty _ hinner =>
    refine h.replace hinner rfl rfl rfl rfl ?_
    simp [Frame.inLastArm, Frame.construct, Mark.lastArm?, Directive.lastArm?]
  | @close found directive construct ends opened =>
    obtain ⟨frame, frames, hf⟩ := List.exists_cons_of_ne_nil (hbalanced.frames_ne_nil opened)
    have hforget : (a.forget construct).frames = frame :: frames := by rw [frames_forget, hf]
    refine h.leave hf ?_ (by simp [Mark.ends?, ends])
    rw [leave_eq hforget, frames_conclude]
  | @mode found directive modes change =>
    cases directive <;> first | cases change | exact h.concat rfl rfl rfl rfl

/-! ## The next tag -/

/-- What is known of an assembly behind the tags read so far. -/
structure Follows (l : List Mark) (a : Assembly) : Prop where
  balanced : a.Balanced
  counts : Counts l a
  frames : Frames l a
  sections : InSections l a

theorem follows_nil : Follows [] {} :=
  ⟨rfl, fun construct => by cases construct <;> rfl, ⟨[], .nil Brackets.balanced_nil, .nil⟩,
    ⟨[], .nil Brackets.balanced_nil, rfl⟩⟩

theorem Follows.step (h : Follows l a) (hstep : Step o a m b) : Follows (l ++ [m]) b :=
  ⟨h.balanced.step hstep, h.counts.step hstep, h.frames.step h.balanced hstep,
    h.sections.step hstep⟩

/-- Another arm can begin if a construct of the kind is open and the innermost frame is one of the
kind that has not begun its last arm. -/
theorem Follows.takesArm_iff (h : Follows l a) (construct : Construct) :
    construct.TakesArm l ↔ a.opens construct ≠ [] ∧ ∃ frame frames, a.frames = frame :: frames
      ∧ frame.construct = construct ∧ frame.inLastArm = false := by
  obtain ⟨stack, hstack, hall⟩ := h.frames
  constructor
  · rintro ⟨hopen, outer, opening, inside, hinner, hbegins, hlast⟩
    refine ⟨(h.counts.isOpen_iff construct).mp hopen, ?_⟩
    obtain ⟨below, rfl⟩ := hstack.of_innermost hinner
    cases hframes : a.frames with
    | nil =>
      rw [hframes] at hall
      cases hall
    | cons frame frames =>
      rw [hframes] at hall
      obtain ⟨hframe, -⟩ := List.forall₂_cons.mp hall
      obtain rfl := Option.some.inj (hframe.begins.symm.trans hbegins)
      refine ⟨frame, frames, rfl, rfl, ?_⟩
      exact Bool.eq_false_iff.mpr fun hin => hlast (hframe.inLastArm.mp hin)
  · rintro ⟨hopens, frame, frames, hframes, rfl, hlast⟩
    refine ⟨(h.counts.isOpen_iff _).mpr hopens, ?_⟩
    rw [hframes] at hall
    cases hall with
    | @cons _ opened _ stack hframe hbelow =>
      obtain ⟨outer, hinner⟩ := hstack.innermost
      refine ⟨outer, opened.1, opened.2, hinner, hframe.begins, ?_⟩
      intro hin
      simp [hframe.inLastArm.mpr hin] at hlast

end Assembly

namespace Outline

/-- The next tag is accepted behind others. -/
structure Admits (l : List Mark) (m : Mark) : Prop where
  parses : m.Parses
  ends : ∀ construct : Construct, m.ends? = some construct → construct.IsOpen l
  arm : ∀ construct, m.arm? = some construct → construct.TakesArm l
  sections : Mark.sections.closes m = true →
    l.countP Mark.sections.closes < l.countP Mark.sections.opens

variable {l : List Mark} {m : Mark}

/-- A tag that has to be readable and no more. -/
theorem Admits.of_parses (hparses : m.Parses) (hends : m.ends? = none) (harm : m.arm? = none)
    (hsections : Mark.sections.closes m = false) : Admits l m :=
  ⟨hparses, by simp [hends], by simp [harm], by simp [hsections]⟩

/-- A tag that begins another arm. -/
theorem Admits.of_arm {construct : Construct} (hparses : m.Parses) (hends : m.ends? = none)
    (harm : m.arm? = some construct) (hsections : Mark.sections.closes m = false)
    (htakes : construct.TakesArm l) : Admits l m :=
  ⟨hparses, by simp [hends], fun other hother => Option.some.inj (harm.symm.trans hother) ▸ htakes,
    by simp [hsections]⟩

/-- An end tag. -/
theorem Admits.of_ends {construct : Construct} (hparses : m.Parses)
    (hends : m.ends? = some construct) (harm : m.arm? = none)
    (hsections : Mark.sections.closes m = false) (hopen : construct.IsOpen l) : Admits l m :=
  ⟨hparses, fun other hother => Option.some.inj (hends.symm.trans hother) ▸ hopen, by simp [harm],
    by simp [hsections]⟩

end Outline

namespace Assembly

variable {o : Options} {text : Text} {found : Tag.Found} {a b : Assembly} {l : List Mark} {m : Mark}

/-- What comes after a parse succeeds if the parse and the rest do. -/
theorem parsed_bind_isOk {α β : Type} {result : Except ParseError α}
    {next : α → Except TemplateError β} :
    (∃ c, parsed text found result >>= next = .ok c)
      ↔ ∃ x, result = .ok x ∧ ∃ c, next x = .ok c := by
  constructor
  · rintro ⟨c, hc⟩
    obtain ⟨x, hx, hnext⟩ := parsed_bind_eq_ok hc
    exact ⟨x, hx, c, hnext⟩
  · rintro ⟨x, rfl, c, hnext⟩
    exact ⟨c, hnext⟩

theorem Follows.close_isOk (h : Follows l a) (construct : Construct) :
    (∃ b, a.close text found construct = .ok b) ↔ construct.IsOpen l := by
  rw [h.counts.isOpen_iff]
  constructor
  · rintro ⟨b, hb⟩
    exact (step_of_close hb).1
  · intro hopens
    obtain ⟨first, others, hopens⟩ := List.exists_cons_of_ne_nil hopens
    exact ⟨_, by rw [close, hopens]⟩

theorem Follows.nextArm_isOk (h : Follows l a) (arm : Arm) (condition : Option Expr) :
    (∃ b, a.nextArm text found arm condition = .ok b) ↔ Construct.branch.TakesArm l := by
  rw [h.takesArm_iff]
  constructor
  · rintro ⟨b, hb⟩
    obtain ⟨pending, exits, frames, hframes, -⟩ := step_of_nextArm hb
    refine ⟨?_, _, _, hframes, rfl, rfl⟩
    intro hopens
    rw [nextArm, show a.branches = [] from hopens] at hb
    cases hb
  · rintro ⟨hopens, frame, frames, hframes, hconstruct, hlast⟩
    obtain ⟨first, others, hopens⟩ := List.exists_cons_of_ne_nil hopens
    have hbranches : a.branches = first :: others := hopens
    rcases frame with ⟨_ | pending, exits⟩ | _ | _
    · cases hlast
    · exact ⟨_, by rw [nextArm, hbranches, hframes]; rfl⟩
    · cases hconstruct
    · cases hconstruct

theorem Follows.emptyArm_isOk (h : Follows l a) :
    (∃ b, a.emptyArm text found = .ok b) ↔ Construct.loop.TakesArm l := by
  rw [h.takesArm_iff]
  constructor
  · rintro ⟨b, hb⟩
    obtain ⟨head, frames, hframes, -⟩ := step_of_emptyArm hb
    refine ⟨?_, _, _, hframes, rfl, rfl⟩
    intro hopens
    rw [emptyArm, show a.loops = [] from hopens] at hb
    cases hb
  · rintro ⟨hopens, frame, frames, hframes, hconstruct, hlast⟩
    obtain ⟨first, others, hopens⟩ := List.exists_cons_of_ne_nil hopens
    have hloops : a.loops = first :: others := hopens
    rcases frame with _ | ⟨head, _ | next⟩ | _
    · cases hconstruct
    · exact ⟨_, by rw [emptyArm, hloops, hframes]; rfl⟩
    · cases hlast
    · cases hconstruct

theorem Follows.endAutoescape_isOk (h : Follows l a) :
    (∃ b, a.directive text found .endAutoescape = .ok b)
      ↔ l.countP Mark.sections.closes < l.countP Mark.sections.opens := by
  obtain ⟨stack, hstack, hmodes⟩ := h.sections
  have hcount := hstack.count
  have hlength : a.modes.length = stack.length := by rw [hmodes, List.length_map]
  constructor
  · rintro ⟨b, hb⟩
    cases hm : a.modes with
    | nil =>
      rw [directive, hm] at hb
      cases hb
    | cons on modes =>
      rw [hm, List.length_cons] at hlength
      omega
  · intro hlt
    cases hm : a.modes with
    | nil =>
      rw [hm, List.length_nil] at hlength
      omega
    | cons on modes => exact ⟨_, by rw [directive, hm]⟩

theorem Follows.directive_isOk (h : Follows l a) (directive : Directive) :
    (∃ b, a.directive text found directive = .ok b)
      ↔ Outline.Admits l (.statement found directive) := by
  cases directive with
  | openIf | openFor | openWhile | exec =>
    refine parsed_bind_isOk.trans ⟨?_, ?_⟩
    · rintro ⟨x, hx, -⟩
      exact .of_parses ⟨x, hx⟩ rfl rfl rfl
    · rintro ⟨⟨x, hx⟩, -, -, -⟩
      exact ⟨x, hx, _, rfl⟩
  | elif condition =>
    refine parsed_bind_isOk.trans ⟨?_, ?_⟩
    · rintro ⟨e, he, hb⟩
      exact .of_arm ⟨e, he⟩ rfl rfl rfl ((h.nextArm_isOk _ _).mp hb)
    · rintro ⟨⟨e, he⟩, -, harm, -⟩
      exact ⟨e, he, (h.nextArm_isOk _ _).mpr (harm _ rfl)⟩
  | otherwise =>
    apply (h.nextArm_isOk _ _).trans
    constructor
    · intro harm
      exact .of_arm trivial rfl rfl rfl harm
    · intro hadmits
      exact hadmits.arm _ rfl
  | empty =>
    apply h.emptyArm_isOk.trans
    constructor
    · intro harm
      exact .of_arm trivial rfl rfl rfl harm
    · intro hadmits
      exact hadmits.arm _ rfl
  | endIf | endFor | endWhile =>
    apply (h.close_isOk _).trans
    constructor
    · intro hopen
      exact .of_ends trivial rfl rfl rfl hopen
    · intro hadmits
      exact hadmits.ends _ rfl
  | autoescape mode =>
    constructor
    · rintro ⟨b, hb⟩
      rw [directive] at hb
      split at hb
      · next hon => exact .of_parses (.inl hon) rfl rfl rfl
      split at hb
      · next hoff => exact .of_parses (.inr hoff) rfl rfl rfl
      · cases hb
    · rintro ⟨hmode, -, -, -⟩
      rcases hmode with rfl | rfl
      · exact ⟨_, rfl⟩
      · exact ⟨_, rfl⟩
  | endAutoescape =>
    apply h.endAutoescape_isOk.trans
    constructor
    · intro hlt
      exact ⟨trivial, by rintro _ ⟨⟩, by rintro _ ⟨⟩, fun _ => hlt⟩
    · intro hadmits
      exact hadmits.sections rfl
  | strayEndBlock | strayExtends | unknown =>
    constructor
    · rintro ⟨b, hb⟩
      cases hb
    · rintro ⟨hparses, -, -, -⟩
      exact hparses.elim

/-- The next tag is read without an error if it is accepted. -/
theorem Follows.mark_isOk (h : Follows l a) (ht : m.isTag = true) :
    (∃ b, a.mark o text m = .ok b) ↔ Outline.Admits l m := by
  cases m with
  | text => cases ht
  | statement found directive => exact h.directive_isOk directive
  | expression found body =>
    refine parsed_bind_isOk.trans ⟨?_, ?_⟩
    · rintro ⟨e, he, -⟩
      exact .of_parses ⟨e, he⟩ rfl rfl rfl
    · rintro ⟨⟨e, he⟩, -, -, -⟩
      exact ⟨e, he, _, rfl⟩

end Assembly

/-! ## All tags -/

namespace Outline

/-- The tags of a template that is accepted so far, with constructs perhaps still open. -/
structure Admitted (tags : List Mark) : Prop where
  covered : ∀ construct : Construct, construct.brackets.Covered tags
  arms : ∀ before m after construct, tags = before ++ m :: after →
    m.arm? = some construct → construct.TakesArm before
  sections : Mark.sections.Covered tags
  parses : ∀ m ∈ tags, m.Parses

theorem accepted_iff {tags : List Mark} : Accepted tags ↔ Admitted tags ∧
    ∀ construct : Construct, tags.countP construct.brackets.closes
      = tags.countP construct.brackets.opens := by
  constructor
  · intro h
    exact ⟨⟨fun construct => (h.balanced construct).covered, h.arms, h.sections, h.parses⟩,
      fun construct => (h.balanced construct).count_eq⟩
  · rintro ⟨h, hcount⟩
    exact ⟨fun construct => ⟨h.covered construct, hcount construct⟩, h.arms, h.sections, h.parses⟩

theorem admitted_nil : Admitted [] :=
  ⟨fun _ => Brackets.covered_nil, fun before m after _ heq => by simp at heq,
    Brackets.covered_nil, nofun⟩

/-- Tags are accepted one after the other. -/
theorem admitted_concat {l : List Mark} {m : Mark} :
    Admitted (l ++ [m]) ↔ Admitted l ∧ Admits l m := by
  constructor
  · rintro ⟨hcovered, harms, hsections, hparses⟩
    have hconcat := fun construct => Brackets.covered_concat.mp (hcovered construct)
    have hsection := Brackets.covered_concat.mp hsections
    refine ⟨⟨fun construct => (hconcat construct).1, ?_, hsection.1, ?_⟩, ?_, ?_, ?_, hsection.2⟩
    · intro before x after construct heq
      exact harms before x (after ++ [m]) construct (by simp [heq])
    · intro x hx
      exact hparses x (List.mem_append_left _ hx)
    · exact hparses m (List.mem_append_right _ (List.mem_singleton_self m))
    · intro construct hends
      exact (hconcat construct).2 (beq_iff_eq.mpr hends)
    · intro construct harm
      exact harms l m [] construct rfl harm
  · rintro ⟨⟨hcovered, harms, hsections, hparses⟩, hm⟩
    refine ⟨?_, ?_, ?_, ?_⟩
    · intro construct
      exact Brackets.covered_concat.mpr
        ⟨hcovered construct, fun hends => hm.ends construct (beq_iff_eq.mp hends)⟩
    · intro before x after construct heq harm
      obtain ⟨rfl, rfl, -⟩ | ⟨after, -, rfl⟩ := Brackets.split_of_concat heq
      · exact hm.arm construct harm
      · exact harms before x after construct rfl harm
    · exact Brackets.covered_concat.mpr ⟨hsections, hm.sections⟩
    · intro x hx
      rcases List.mem_append.mp hx with hx | hx
      · exact hparses x hx
      · exact List.mem_singleton.mp hx ▸ hm.parses

end Outline

namespace Assembly

variable {o : Options} {text : Text} {a : Assembly} {marks : List Mark}

/-- An assembly that has been read follows the tags read. -/
theorem follows_of_read (h : read o text {} marks = .ok a) :
    Follows (marks.filter Mark.isTag) a := by
  refine read_tags_induct (P := Follows) ?_ ?_ h follows_nil
  · rintro l a literal ⟨hbalanced, hcounts, hframes, hsections⟩
    exact ⟨hbalanced, hcounts, hframes, hsections⟩
  · intro l a b m _ hstep hfollows
    exact hfollows.step hstep

/-- Marks are read without an error if their tags are accepted one after the other. -/
theorem read_isOk_iff (o : Options) (text : Text) (marks : List Mark) :
    (∃ a, read o text {} marks = .ok a) ↔ Outline.Admitted (marks.filter Mark.isTag) := by
  induction marks using List.reverseRecOn with
  | nil => exact ⟨fun _ => Outline.admitted_nil, fun _ => ⟨{}, rfl⟩⟩
  | append_singleton marks m ih =>
    have hread : read o text {} (marks ++ [m])
        = read o text {} marks >>= fun a => a.mark o text m := by
      rw [read, List.foldlM_append]
      simp [read]
    rw [hread, List.filter_append]
    cases hmarks : read o text {} marks with
    | error e =>
      rw [hmarks] at ih
      constructor
      · rintro ⟨a, ha⟩
        cases ha
      · intro h
        have hadmitted : Outline.Admitted (marks.filter Mark.isTag) := by
          cases ht : m.isTag with
          | false => simpa [ht] using h
          | true =>
            rw [List.filter_cons_of_pos ht] at h
            exact (Outline.admitted_concat.mp h).1
        obtain ⟨a, ha⟩ := ih.mpr hadmitted
        cases ha
    | ok a =>
      have hadmitted := ih.mp ⟨a, hmarks⟩
      cases ht : m.isTag with
      | false =>
        cases m with
        | text literal => exact ⟨fun _ => by simpa [ht] using hadmitted, fun _ => ⟨_, rfl⟩⟩
        | _ => cases ht
      | true =>
        rw [List.filter_cons_of_pos ht, List.filter_nil, Outline.admitted_concat,
          ← (follows_of_read hmarks).mark_isOk ht]
        exact ⟨fun h => ⟨hadmitted, h⟩, fun h => h.2⟩

/-- Nothing is left open if the opening tags and end tags of each construct are equally many. -/
theorem Follows.finish_isOk {l : List Mark} (h : Follows l a) :
    (∃ plan, a.finish text = .ok plan) ↔ ∀ construct : Construct,
      l.countP construct.brackets.closes = l.countP construct.brackets.opens := by
  constructor
  · rintro ⟨plan, hplan⟩ construct
    have hcount := h.counts construct
    rw [unclosed?_eq_none_iff.mp (finish_eq_ok hplan).1 construct, List.length_nil] at hcount
    exact hcount
  · intro hcount
    have hnil : ∀ construct, a.opens construct = [] := by
      intro construct
      have hconstruct := h.counts construct
      rw [← List.length_eq_zero_iff]
      have := hcount construct
      omega
    exact ⟨_, by rw [finish, unclosed?_eq_none_iff.mpr hnil]⟩

end Assembly

namespace Outline

theorem filter_isTag_ofTags (o : Options) (afterStatement : Bool) (found : List Tag.Found)
    (last : Text) :
    (Mark.ofTags o afterStatement found last).filter Mark.isTag = found.flatMap Mark.ofTag := by
  have htext : ∀ text : Text, (Mark.ofText text).filter Mark.isTag = [] := by
    intro text
    rw [Mark.ofText]
    split <;> rfl
  have htag : ∀ found : Tag.Found,
      (Mark.ofTag found).filter Mark.isTag = Mark.ofTag found := by
    rintro ⟨gap, tag, rest⟩
    cases tag <;> rfl
  induction found generalizing afterStatement with
  | nil => exact htext _
  | cons found others ih =>
    rw [Mark.ofTags, List.filter_append, List.filter_append, htext, htag, ih]
    rfl

/-- The tags of a template are its marks that are no text. -/
theorem filter_isTag_marks (o : Options) (text : Text) :
    (marks o text).filter Mark.isTag = tags text :=
  filter_isTag_ofTags o false _ _

end Outline

/-- **The language of templates**: a template without comments compiles if and only if its tags are
accepted. -/
theorem Plan.exists_compile_iff {text : Text} (hfree : text.CommentFree) (o : Options) :
    (∃ plan, Plan.compile o text = .ok plan) ↔ Outline.Accepted (Outline.tags text) := by
  rw [Plan.compile, hfree.stripComments, Outline.accepted_iff, ← Outline.filter_isTag_marks o,
    ← Assembly.read_isOk_iff o text]
  constructor
  · rintro ⟨plan, hplan⟩
    obtain ⟨a, ha, hfinish⟩ := Plan.read_eq_ok hplan
    exact ⟨⟨a, ha⟩, (Assembly.follows_of_read ha).finish_isOk.mp ⟨plan, hfinish⟩⟩
  · rintro ⟨⟨a, ha⟩, hcount⟩
    obtain ⟨plan, hplan⟩ := (Assembly.follows_of_read ha).finish_isOk.mpr hcount
    refine ⟨plan, ?_⟩
    rw [Plan.read, ha]
    exact hplan

/-- End tags of two kinds may interleave, but an `else` may not stand directly in a loop. -/
theorem Plan.exists_compile_iff_interleaved :
    let interleaved := "{% for x in y %}{% if a %}{% else %}{% endfor %}{% endif %}".toList
    let misplaced := "{% if a %}{% for x in y %}{% else %}{% endfor %}{% endif %}".toList
    Outline.Accepted (Outline.tags interleaved) ∧ ¬Outline.Accepted (Outline.tags misplaced) := by
  intro interleaved misplaced
  have hfree : Text.CommentFree interleaved ∧ Text.CommentFree misplaced :=
    ⟨⟨Option.isNone_iff_eq_none.mp (by decide +kernel),
      Option.isNone_iff_eq_none.mp (by decide +kernel)⟩,
      Option.isNone_iff_eq_none.mp (by decide +kernel),
      Option.isNone_iff_eq_none.mp (by decide +kernel)⟩
  have hcompiles : (Plan.compile {} interleaved).toOption.isSome := by decide +kernel
  have hfails : (Plan.compile {} misplaced).toOption.isNone := by decide +kernel
  constructor
  · obtain ⟨plan, hplan⟩ := Option.isSome_iff_exists.mp hcompiles
    exact (Plan.exists_compile_iff hfree.1 {}).mp ⟨plan, eq_ok_of_toOption hplan⟩
  · intro haccepted
    obtain ⟨plan, hplan⟩ := (Plan.exists_compile_iff hfree.2 {}).mpr haccepted
    rw [hplan] at hfails
    cases hfails

end TemplateEngine

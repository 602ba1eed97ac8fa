import TemplateEngine.Proofs.Drafting
import TemplateEngine.Proofs.Targets

/-!
# The ranges of constructs

A survey notes, while the marks of a template are read, where the construct of each opening tag
begins and where the end tag that closes it leaves off. Constructs are closed from the
innermost, so their ranges are nested or disjoint (`Survey.Laminar`). They are among the
ranges in the layout of the outline that the marks are read as (`Survey.Covers`), so nothing
leads into them from outside.
-/

namespace TemplateEngine

/-! ## Surveys -/

/-- Where the constructs of a template begin and end. -/
structure Survey where
  /-- where the open constructs begin, from the innermost -/
  heads : List Nat := []
  /-- the ranges of the closed constructs, from the last -/
  sites : List Site := []

/-- The survey behind a mark, which is read at position `here` and leaves off at position
`there`. -/
def Survey.after (s : Survey) (m : Mark) (here there : Nat) : Survey :=
  match m with
  | .text _ | .expression _ _ => s
  | .statement _ directive =>
    match directive.begins?, directive.ends?, s.heads with
    | some _, _, heads => { s with heads := here :: heads }
    | none, some _, head :: heads => ⟨heads, ⟨head, there⟩ :: s.sites⟩
    | _, _, _ => s

/-- An end tag closes the innermost construct. -/
theorem Survey.after_ends {s : Survey} {directive : Directive} {construct : Construct} {head : Nat}
    {heads : List Nat} (ends : directive.ends? = some construct) (hheads : s.heads = head :: heads)
    (found : Tag.Found) (here there : Nat) :
    s.after (.statement found directive) here there = ⟨heads, ⟨head, there⟩ :: s.sites⟩ := by
  obtain ⟨heads', sites⟩ := s
  subst hheads
  cases directive <;> cases ends <;> rfl

/-- Autoescape sections are no constructs. -/
theorem Survey.after_modes (s : Survey) {directive : Directive} {before behind : List Bool}
    (change : directive.modes? before = some behind) (found : Tag.Found) (here there : Nat) :
    s.after (.statement found directive) here there = s := by
  cases directive <;> first | cases change | rfl

/-- Reads marks, and surveys them. -/
def Assembly.survey (o : Options) (text : Text) (a : Assembly) (s : Survey) :
    List Mark → Except TemplateError (Assembly × Survey)
  | [] => .ok (a, s)
  | m :: marks => do
    let b ← a.mark o text m
    b.survey o text (s.after m a.here b.here) marks

/-- A survey does not change what is read. -/
theorem Assembly.survey_fst (o : Options) (text : Text) (a : Assembly) (s : Survey)
    (marks : List Mark) : (a.survey o text s marks).map Prod.fst = a.read o text marks := by
  induction marks generalizing a s with
  | nil => rfl
  | cons m marks ih =>
    rw [read, List.foldlM_cons]
    cases hm : a.mark o text m with
    | error e => simp [survey, hm, bind, Except.bind, Except.map]
    | ok b =>
      simp only [survey, hm, bind, Except.bind]
      exact ih b _

namespace Survey

/-! ## Nested or disjoint -/

/-- The ranges of a survey up to a position are nested or disjoint, and so are they and what is
open. -/
structure Laminar (s : Survey) (here : Nat) : Prop where
  heads : ∀ head ∈ s.heads, head < here
  sorted : s.heads.Pairwise (· > ·)
  bounds : ∀ site ∈ s.sites, site.head < site.stop ∧ site.stop ≤ here
  apart : s.sites.Pairwise fun later earlier =>
    earlier.stop ≤ later.head ∨ later.head < earlier.head ∧ earlier.stop ≤ later.stop
  clear : ∀ site ∈ s.sites, ∀ head ∈ s.heads, head < site.head ∨ site.stop ≤ head

variable {s : Survey} {here there : Nat}

theorem Laminar.mono (h : s.Laminar here) (hle : here ≤ there) : s.Laminar there where
  heads := fun head hmem => Nat.lt_of_lt_of_le (h.heads head hmem) hle
  sorted := h.sorted
  bounds := fun site hmem => ⟨(h.bounds site hmem).1, Nat.le_trans (h.bounds site hmem).2 hle⟩
  apart := h.apart
  clear := h.clear

/-- A construct begins behind everything. -/
theorem Laminar.enter (h : s.Laminar here) (hlt : here < there) :
    Laminar { s with heads := here :: s.heads } there where
  heads := by
    intro head hmem
    rcases List.mem_cons.mp hmem with rfl | hmem
    · exact hlt
    · exact Nat.lt_trans (h.heads head hmem) hlt
  sorted := List.pairwise_cons.mpr ⟨h.heads, h.sorted⟩
  bounds := (h.mono (Nat.le_of_lt hlt)).bounds
  apart := h.apart
  clear := by
    intro site hsite head hmem
    rcases List.mem_cons.mp hmem with rfl | hmem
    · exact .inr (h.bounds site hsite).2
    · exact h.clear site hsite head hmem

/-- The innermost construct ends around or behind everything that has been closed. -/
theorem Laminar.leave {head : Nat} {heads : List Nat} (h : s.Laminar here)
    (hheads : s.heads = head :: heads) (hle : here ≤ there) :
    Laminar ⟨heads, ⟨head, there⟩ :: s.sites⟩ there where
  heads := by
    intro other hmem
    exact (h.mono hle).heads other (hheads ▸ List.mem_cons_of_mem _ hmem)
  sorted := (List.pairwise_cons.mp (hheads ▸ h.sorted)).2
  bounds := by
    have hlt := (h.mono hle).heads head (hheads ▸ List.mem_cons_self ..)
    intro site hsite
    rcases List.mem_cons.mp hsite with rfl | hsite
    · exact ⟨hlt, Nat.le_refl _⟩
    · exact (h.mono hle).bounds site hsite
  apart := by
    -- no range noted before goes over the start of the construct that is closed
    refine List.pairwise_cons.mpr ⟨fun site hsite => ?_, h.apart⟩
    rcases h.clear site hsite head (hheads ▸ List.mem_cons_self ..) with hlt | hstop
    · exact .inr ⟨hlt, ((h.mono hle).bounds site hsite).2⟩
    · exact .inl hstop
  clear := by
    intro site hsite other hmem
    rcases List.mem_cons.mp hsite with rfl | hsite
    · exact .inl ((List.pairwise_cons.mp (hheads ▸ h.sorted)).1 other hmem)
    · exact h.clear site hsite other (hheads ▸ List.mem_cons_of_mem _ hmem)

/-- Marks keep ranges nested or disjoint, if opening tags add code. -/
theorem Laminar.after (h : s.Laminar here) {m : Mark} (hle : here ≤ there)
    (hbegins : ∀ found directive, m = .statement found directive → directive.begins? ≠ none →
      here < there) : (s.after m here there).Laminar there := by
  unfold Survey.after
  split
  · exact h.mono hle
  · exact h.mono hle
  · next found directive =>
    split
    · next hb => exact h.enter (hbegins _ _ rfl (by simp [hb]))
    · next hheads => exact h.leave hheads hle
    · exact h.mono hle

end Survey

/-! ## Ranges in a draft -/

namespace Piece

theorem sitesAll_append (start : Nat) (before behind : List Piece) :
    sitesAll start (before ++ behind)
      = sitesAll start before ++ sitesAll (start + widthAll before) behind := by
  induction before generalizing start with
  | nil => simp [sitesAll, widthAll]
  | cons piece before ih => simp [sitesAll, widthAll, ih, Nat.add_assoc]

/-- The ranges of the constructs in arms that have another arm behind them. -/
def sitesArms (start : Nat) : List (Expr × List Piece) → List Site
  | [] => []
  | (_, yes) :: arms => sitesAll (start + 1) yes ++ sitesArms (start + widthAll yes + 2) arms

theorem sitesArms_snoc (start : Nat) (arms : List (Expr × List Piece)) (condition : Expr)
    (yes : List Piece) :
    sitesArms start (arms ++ [(condition, yes)])
      = sitesArms start arms ++ sitesAll (start + widthArms arms + 1) yes := by
  induction arms generalizing start with
  | nil => simp [sitesArms, widthArms]
  | cons arm arms ih =>
    simp only [List.cons_append, sitesArms, ih, add_widthArms_cons, List.append_assoc]

/-- Arms keep their ranges when they become a chain. -/
theorem sitesArms_subset_chain (start : Nat) (arms : List (Expr × List Piece)) (no : List Piece) :
    sitesArms start arms ++ sitesAll (start + widthArms arms) no
      ⊆ sitesAll start (chain arms no) := by
  induction arms generalizing start with
  | nil => simp [sitesArms, widthArms, chain]
  | cons arm arms ih =>
    have hrest := ih (start + widthAll arm.2 + 2)
    rw [← add_widthArms_cons, sitesArms, List.append_assoc]
    intro site hsite
    simp only [chain, sitesAll, sites, List.append_nil, List.mem_cons, List.mem_append]
    rcases List.mem_append.mp hsite with hmem | hmem
    · exact .inr (.inr (.inl hmem))
    · exact .inr (.inr (.inr (hrest hmem)))

/-- A piece that has pieces in it takes a range. -/
theorem site_mem_sitesAll (start : Nat) {piece : Piece} (h : piece.sites start ≠ []) :
    ⟨start, start + widthAll [piece]⟩ ∈ sitesAll start [piece] := by
  have hall : sitesAll start [piece] = sites start piece := by simp [sitesAll]
  have hwidth : widthAll [piece] = piece.width := by simp [widthAll]
  rw [hall, hwidth]
  cases piece with
  | literal | output | exec => exact absurd rfl h
  | branch condition yes no =>
    cases no with
    | none => exact List.mem_cons_self ..
    | some no =>
      rw [← add_width_double]
      exact List.mem_cons_self ..
  | loop header body empty =>
    cases empty with
    | none => exact List.mem_cons_self ..
    | some empty =>
      rw [← add_width_guarded]
      exact List.mem_cons_self ..
  | repetition condition body => exact List.mem_cons_self ..

end Piece

/-- The ranges of the closed constructs in a part that begins at position `start`. -/
def Part.sites (start : Nat) (part : Part) : List Site :=
  match part.opened with
  | .branch earlier _ =>
    Piece.sitesArms start earlier
      ++ Piece.sitesAll (start + Piece.widthArms earlier + 1) part.pieces
  | .otherwise arms =>
    Piece.sitesArms start arms ++ Piece.sitesAll (start + Piece.widthArms arms) part.pieces
  | .loop _ | .repetition _ => Piece.sitesAll (start + 1) part.pieces
  | .empty _ body =>
    Piece.sitesAll (start + 1) body ++ Piece.sitesAll (start + Piece.widthAll body + 2) part.pieces

namespace Part

/-- Only a part behind other arms is an `else`. -/
def Sound (part : Part) : Prop := part.opened ≠ .otherwise []

/-- A part that is closed keeps its ranges. -/
theorem sites_subset_close (start : Nat) (part : Part) :
    part.sites start ⊆ Piece.sitesAll start part.close := by
  obtain ⟨opened, pieces⟩ := part
  cases opened with
  | branch earlier condition =>
    refine fun site hsite => Piece.sitesArms_subset_chain start earlier _ ?_
    refine (List.mem_append.mp hsite).elim (List.mem_append_left _) fun hmem => ?_
    simp [Piece.sitesAll, Piece.sites, hmem]
  | otherwise arms => exact Piece.sitesArms_subset_chain start arms pieces
  | loop header =>
    intro site hsite
    have hmem : site ∈ Piece.sitesAll (start + 1) pieces := hsite
    simp [close, Piece.sitesAll, Piece.sites, hmem]
  | empty header body =>
    intro site hsite
    have hmem : site ∈ Piece.sitesAll (start + 1) body
      ++ Piece.sitesAll (start + Piece.widthAll body + 2) pieces := hsite
    simpa [close, Piece.sitesAll, Piece.sites] using .inr (.inr (List.mem_append.mp hmem))
  | repetition condition =>
    intro site hsite
    have hmem : site ∈ Piece.sitesAll (start + 1) pieces := hsite
    simp [close, Piece.sitesAll, Piece.sites, hmem]

/-- A part that is closed becomes one construct. -/
theorem site_mem_close (start : Nat) {part : Part} (h : part.Sound) :
    ⟨start, start + Piece.widthAll part.close⟩ ∈ Piece.sitesAll start part.close := by
  obtain ⟨opened, pieces⟩ := part
  cases opened with
  | branch earlier condition =>
    cases earlier <;> exact Piece.site_mem_sitesAll start (List.cons_ne_nil _ _)
  | otherwise arms =>
    cases arms with
    | nil => exact absurd rfl h
    | cons arm arms => exact Piece.site_mem_sitesAll start (List.cons_ne_nil _ _)
  | loop | empty | repetition => exact Piece.site_mem_sitesAll start (List.cons_ne_nil _ _)

end Part

namespace Draft

/-- Where the parts open behind some pieces begin. -/
def startsOf (pieces : List Piece) : List Part → List Nat
  | [] => []
  | _ :: parts => (codeOf pieces parts).length :: startsOf pieces parts

/-- The ranges of the closed constructs in pieces and in the parts open behind them. -/
def sitesOf (pieces : List Piece) : List Part → List Site
  | [] => Piece.sitesAll 0 pieces
  | part :: parts => sitesOf pieces parts ++ part.sites (codeOf pieces parts).length

/-- Where the open constructs of a draft begin, from the innermost. -/
def starts (d : Draft) : List Nat := startsOf d.pieces d.parts

/-- The ranges of the closed constructs of a draft. -/
def sites (d : Draft) : List Site := sitesOf d.pieces d.parts

theorem starts_add (d : Draft) (pieces : List Piece) : (d.add pieces).starts = d.starts := by
  obtain ⟨outer, parts, modes⟩ := d
  cases parts with
  | nil => rfl
  | cons part parts => rfl

theorem sites_add (d : Draft) (pieces : List Piece) :
    (d.add pieces).sites = d.sites ++ Piece.sitesAll d.code.length pieces := by
  obtain ⟨outer, parts, modes⟩ := d
  cases parts with
  | nil => simp [add, sites, sitesOf, code, codeOf, Piece.sitesAll_append]
  | cons part parts =>
    obtain ⟨opened, body⟩ := part
    cases opened <;>
      simp [add, sites, sitesOf, code, codeOf, Part.sites, Piece.sitesAll_append, Nat.add_assoc] <;>
      congr 1 <;> omega

end Draft

/-! ## Surveys and drafts -/

/-- What a survey has noted is in a draft. -/
structure Survey.Covers (s : Survey) (d : Draft) : Prop where
  sound : ∀ part ∈ d.parts, part.Sound
  heads : s.heads = d.starts
  sites : s.sites ⊆ d.sites

namespace Survey.Covers

variable {o : Options} {s : Survey} {d e : Draft}

theorem add (h : s.Covers d) (pieces : List Piece) : s.Covers (d.add pieces) where
  sound := by
    obtain ⟨outer, parts, modes⟩ := d
    cases parts with
    | nil => exact h.sound
    | cons part parts =>
      have hsound := List.forall_mem_cons.mp h.sound
      exact List.forall_mem_cons.mpr ⟨hsound.1, hsound.2⟩
  heads := h.heads.trans (Draft.starts_add d pieces).symm
  sites := by
    rw [Draft.sites_add]
    exact List.subset_append_of_subset_left _ h.sites

theorem enter (h : s.Covers d) {opened : Opened} (hsound : opened ≠ .otherwise []) :
    Covers { s with heads := d.code.length :: s.heads } (d.enter opened) where
  sound := List.forall_mem_cons.mpr ⟨hsound, h.sound⟩
  heads := congrArg (d.code.length :: ·) h.heads
  sites := List.subset_append_of_subset_left _ h.sites

/-- A part in place of the innermost one that keeps its ranges. -/
theorem replace {outer : List Piece} {part part' : Part} {parts : List Part} {modes : List Bool}
    (h : s.Covers ⟨outer, part :: parts, modes⟩) (hsound : part'.Sound)
    (hsites : ∀ start, part.sites start ⊆ part'.sites start) :
    s.Covers ⟨outer, part' :: parts, modes⟩ where
  sound := List.forall_mem_cons.mpr ⟨hsound, (List.forall_mem_cons.mp h.sound).2⟩
  heads := h.heads
  sites := by
    intro site hsite
    refine (List.mem_append.mp (h.sites hsite)).elim (List.mem_append_left _) fun hmem => ?_
    exact List.mem_append_right _ (hsites _ hmem)

/-- The innermost construct is closed, and its range is noted. -/
theorem leave (h : s.Covers d) (hleave : d.leave = some e) : ∃ head heads,
    s.heads = head :: heads ∧ Covers ⟨heads, ⟨head, e.code.length⟩ :: s.sites⟩ e := by
  obtain ⟨outer, part, parts, modes, rfl, rfl⟩ := Draft.leave_eq_some hleave
  have hsound := List.forall_mem_cons.mp h.sound
  refine ⟨_, _, h.heads, ⟨?_, ?_, ?_⟩⟩
  · have hadd : Covers ⟨Draft.startsOf outer parts, []⟩ ⟨outer, parts, modes⟩ :=
      ⟨hsound.2, rfl, List.nil_subset _⟩
    exact (hadd.add part.close).sound
  · exact (Draft.starts_add ⟨outer, parts, modes⟩ _).symm
  · have hlength : ((⟨outer, parts, modes⟩ : Draft).add part.close).code.length
        = (Draft.codeOf outer parts).length + Piece.widthAll part.close := by
      rw [Draft.code_add, List.length_append, Piece.length_emitAll]
      rfl
    rw [hlength, Draft.sites_add]
    refine List.cons_subset.mpr ⟨?_, fun site hsite => ?_⟩
    · exact List.mem_append_right _ (Part.site_mem_close _ hsound.1)
    · refine (List.mem_append.mp (h.sites hsite)).elim (List.mem_append_left _) fun hmem => ?_
      exact List.mem_append_right _ (Part.sites_subset_close _ part hmem)

/-- What a survey notes of a mark is in the draft behind the mark. -/
theorem mark (h : s.Covers d) {m : Mark} (hstep : Draft.Step o d m e) :
    (s.after m d.code.length e.code.length).Covers e := by
  cases hstep with
  | text | output | exec => exact h.add _
  | openIf | openFor | openWhile => exact h.enter (by simp)
  | elif _ _ hnext | otherwise _ hnext =>
    obtain ⟨outer, earlier, condition, yes, parts, modes, rfl, rfl⟩ := Draft.nextArm_eq_some hnext
    refine h.replace (by simp [Part.Sound]) fun start => ?_
    simp [Part.sites, Piece.sitesArms_snoc, Piece.sitesAll]
  | empty _ hempty =>
    obtain ⟨outer, header, body, parts, modes, rfl, rfl⟩ := Draft.emptyArm_eq_some hempty
    refine h.replace (by simp [Part.Sound]) fun start => ?_
    simp [Part.sites, Piece.sitesAll]
  | @close found directive construct e ends hleave =>
    obtain ⟨head, heads, hheads, hcovers⟩ := h.leave hleave
    rw [Survey.after_ends ends hheads]
    exact hcovers
  | @mode found directive modes change =>
    rw [s.after_modes change]
    exact ⟨h.sound, h.heads, h.sites⟩

end Survey.Covers

/-! ## Surveys of templates -/

variable {o : Options} {text : Text}

/-- What reads is surveyed: what is noted is nested or disjoint, and in the draft. -/
theorem Assembly.survey_eq_ok {d : Draft} {a b : Assembly} {s s' : Survey} {marks : List Mark}
    (hmatch : d.Matches a) (hbalanced : a.Balanced) (hlaminar : s.Laminar a.here)
    (hcovers : s.Covers d) (h : a.survey o text s marks = .ok (b, s')) :
    ∃ e, d.read o marks = some e ∧ e.Matches b ∧ s'.Laminar b.here ∧ s'.Covers e := by
  -- the assembly, the survey and the draft take the same mark
  induction marks generalizing d a s with
  | nil =>
    cases h
    exact ⟨d, rfl, hmatch, hlaminar, hcovers⟩
  | cons m marks ih =>
    cases hm : a.mark o text m with
    | error e =>
      rw [survey, hm] at h
      cases h
    | ok c =>
      rw [survey, hm] at h
      have hstep := step_of_mark hm
      obtain ⟨d', hmark, hmatch'⟩ := hmatch.mark hbalanced hstep
      have hlaminar' : (s.after m a.here c.here).Laminar c.here :=
        hlaminar.after hstep.here_le fun found directive hm hbegins => (hm ▸ hstep).here_lt hbegins
      have hcovers' : (s.after m a.here c.here).Covers d' := by
        rw [hmatch.here, hmatch'.here]
        exact hcovers.mark (Draft.step_of_mark hmark)
      obtain ⟨e, hread, hrest⟩ := ih hmatch' (hbalanced.step hstep) hlaminar' hcovers' h
      exact ⟨e, by rw [Draft.read, List.foldlM_cons, hmark]; exact hread, hrest⟩

/-- What the survey of a whole template says of its plan. -/
structure Survey.Describes (s : Survey) (plan : Plan) : Prop where
  /-- nothing is left open -/
  heads : s.heads = []
  bounds : ∀ site ∈ s.sites, site.head < site.stop ∧ site.stop ≤ plan.size
  begins : ∀ site ∈ s.sites, ∃ i, plan.get? site.head = some i ∧ i.Begins
  /-- a construct ends behind or around those that were closed before -/
  apart : s.sites.Pairwise fun later earlier =>
    earlier.stop ≤ later.head ∨ later.head < earlier.head ∧ earlier.stop ≤ later.stop
  /-- no instruction leads into a construct from outside -/
  entry : ∀ site ∈ s.sites, ∀ p i t, plan.get? p = some i → t ∈ i.targets →
    site.HoldsInside t → site.Holds p

/-- **Frames and ranges**: whatever has been read of a template, there is a frame for each opening
tag without an end tag, so a frame to take whenever an end tag is accepted. If the
template reads to its end, every instruction of the plan leads forward in the plan, but for the
ways back into loops, and the constructs are nested or disjoint ranges into which no
instruction leads from outside. -/
theorem Plan.described (o : Options) (text : Text) :
    (∀ before behind a, Outline.marks o text = before ++ behind →
      Assembly.read o text {} before = .ok a →
      a.frames.length = a.branches.length + a.loops.length + a.repetitions.length
        ∧ ∀ construct, a.opens construct ≠ [] → a.frames ≠ [])
    ∧ ∀ plan, Plan.read o text = .ok plan →
      (∀ p i, plan.get? p = some i → i.Directed plan p ∧ ∀ t ∈ i.targets, t ≤ plan.size)
      ∧ ∃ a s, Assembly.survey o text {} {} (Outline.marks o text) = .ok (a, s)
        ∧ plan = ⟨a.code⟩ ∧ s.Describes plan := by
  constructor
  · intro before behind a _ hread
    have hbalanced := Assembly.balanced_of_read hread
    exact ⟨hbalanced, fun construct => hbalanced.frames_ne_nil⟩
  · intro plan hplan
    obtain ⟨a, hread, hfinish⟩ := Plan.read_eq_ok hplan
    obtain ⟨hunclosed, rfl⟩ := Assembly.finish_eq_ok hfinish
    have hfst := Assembly.survey_fst o text {} {} (Outline.marks o text)
    cases hs : Assembly.survey o text {} {} (Outline.marks o text) with
    | error e =>
      rw [hs, hread] at hfst
      cases hfst
    | ok result =>
      obtain ⟨b, s⟩ := result
      rw [hs, hread] at hfst
      obtain rfl := Except.ok.inj hfst
      have hstart : (⟨[], [], []⟩ : Draft).Matches {} := ⟨rfl, rfl, rfl⟩
      have hlaminar : Survey.Laminar {} (Assembly.here {}) :=
        ⟨by simp, .nil, by simp, .nil, by simp⟩
      have hcovers : Survey.Covers {} ⟨[], [], []⟩ := ⟨by simp, rfl, by simp⟩
      obtain ⟨⟨outline, parts, modes⟩, -, hmatch, hlaminar, hcovers⟩ :=
        Assembly.survey_eq_ok hstart rfl hlaminar hcovers hs
      have hframes := (Assembly.balanced_of_read hread).frames_eq_nil hunclosed
      obtain rfl : parts = [] := Draft.frames_eq_nil.mp (hmatch.frames.symm.trans hframes)
      have hcode : (⟨b.code⟩ : Plan) = Outline.plan outline := by
        rw [hmatch.code]
        rfl
      have hplaced := Outline.placed outline
      rw [← hcode] at hplaced
      refine ⟨fun p i hi => ?_, b, s, rfl, rfl, hcovers.heads, hlaminar.bounds,
        fun site hsite => ?_, hlaminar.apart, fun site hsite p i t hi ht => ?_⟩
      · have hfits := hplaced.fits_of_get? hi
        exact ⟨hfits.directed, fun t ht => (hfits.within t ht).2⟩
      · exact hplaced.begins site (hcovers.sites hsite)
      · exact (hplaced.fits_of_get? hi).entry site (hcovers.sites hsite) t ht

/-- End tags that interleave: the first closes the loop, and the second the `if`. -/
theorem Plan.described_interleaved :
    let text := "{% if a %}{% for x in xs %}b{% endif %}c{% endfor %}".toList
    ∃ (plan : Plan) (s : Survey), Plan.read {} text = .ok plan
      ∧ s.sites = [⟨0, 5⟩, ⟨1, 4⟩] ∧ s.Describes plan := by
  intro text
  have hread : (Plan.read {} text).toOption.isSome := by decide +kernel
  have hsites : ((Assembly.survey {} text {} {} (Outline.marks {} text)).toOption.map
      fun result => result.2.sites) = some [⟨0, 5⟩, ⟨1, 4⟩] := by
    decide +kernel
  obtain ⟨plan, hplan⟩ := Option.isSome_iff_exists.mp hread
  obtain ⟨-, a, s, hs, -, hdescribes⟩ := (Plan.described {} text).2 plan (eq_ok_of_toOption hplan)
  rw [hs] at hsites
  exact ⟨plan, s, eq_ok_of_toOption hplan, Option.some.inj hsites, hdescribes⟩

end TemplateEngine

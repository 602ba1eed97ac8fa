import TemplateEngine.Outline.Layout
import TemplateEngine.Proofs.Placement

/-!
# Where jumps lead

In a plan that is laid out from an outline, every construct takes a contiguous range of
positions, and so does the part of it up to the last instruction of its body (`Piece.sitesAll`).
`Placed` collects what holds of the instructions in such a layout: they stay in its range,
they lead forward but for the ways back into loops, and none leads into a range from outside.
Everything is local to the layout, so that layouts can be put behind and around one another
(`Placed.append`, `Placed.construct`), and by induction it holds of all outlines
(`placed_emitAll`).
-/

namespace TemplateEngine

/-! ## Targets -/

namespace Instruction

/-- The positions that an instruction names. -/
def targets : Instruction → List Nat
  | branch _ t | jump t | each _ t | repetition _ t => [t]
  | next body exit => [body, exit]
  | literal _ | output _ _ | exec _ => []

/-- The instruction at a position leads forward. Only the jump that closes a `while` leads back to
its condition, and the end of a loop leads back behind the start of the loop as well. -/
def Directed (plan : Plan) (position : Nat) : Instruction → Prop
  | branch _ t | each _ t | repetition _ t => position < t
  | jump t =>
    position < t
      ∨ t < position ∧ ∃ condition, plan.get? t = some (repetition condition (position + 1))
  | next body exit =>
    position < exit ∧ ∃ head header,
      body = head + 1 ∧ head < position ∧ plan.get? head = some (each header (position + 1))
  | literal _ | output _ _ | exec _ => True

/-- The instruction is the first of a construct. -/
def Begins : Instruction → Prop
  | branch _ _ | each _ _ | repetition _ _ => True
  | literal _ | output _ _ | jump _ | next _ _ | exec _ => False

/-- The first instruction of a construct and the last one of its body, which stands at
`middle`. -/
inductive Around (start middle stop : Nat) : Instruction → Instruction → Prop
  | branch (condition : Expr) :
    Around start middle stop (.branch condition (middle + 1)) (.jump stop)
  | each (header : LoopHeader) :
    Around start middle stop (.each header (middle + 1)) (.next (start + 1) stop)
  | repetition (condition : Expr) :
    Around start middle stop (.repetition condition (middle + 1)) (.jump start)

end Instruction

/-! ## Sites -/

/-- A range of positions: from `head` up to but without `stop`. -/
structure Site where
  head : Nat
  stop : Nat
  deriving DecidableEq

/-- A position lies in a range. -/
def Site.Holds (site : Site) (position : Nat) : Prop :=
  site.head ≤ position ∧ position < site.stop

/-- A position lies in a range behind the first of the range. -/
def Site.HoldsInside (site : Site) (position : Nat) : Prop :=
  site.head < position ∧ position < site.stop

namespace Piece

mutual

/-- The ranges of the constructs in a piece that begins at position `start`. -/
def sites (start : Nat) : Piece → List Site
  | .literal _ | .output _ _ | .exec _ => []
  | .branch _ yes none => ⟨start, start + widthAll yes + 1⟩ :: sitesAll (start + 1) yes
  | .branch _ yes (some no) | .loop _ yes (some no) =>
    let other := start + widthAll yes + 2
    ⟨start, other + widthAll no⟩ :: ⟨start, other⟩ ::
      (sitesAll (start + 1) yes ++ sitesAll other no)
  | .loop _ body none | .repetition _ body =>
    let stop := start + widthAll body + 2
    ⟨start, stop⟩ :: ⟨start, stop⟩ :: (sitesAll (start + 1) body ++ [])

/-- The ranges of the constructs in pieces that begin at position `start`. -/
def sitesAll (start : Nat) : List Piece → List Site
  | [] => []
  | piece :: pieces => sites start piece ++ sitesAll (start + width piece) pieces

end

end Piece

/-! ## Layouts -/

/-- How an instruction fits into a layout between two positions, with the ranges of the
constructs there. -/
structure Fits (plan : Plan) (sites : List Site) (start stop position : Nat) (i : Instruction) :
    Prop where
  within : ∀ t ∈ i.targets, start ≤ t ∧ t ≤ stop
  directed : i.Directed plan position
  /-- it does not lead into a range from outside -/
  entry : ∀ site ∈ sites, ∀ t ∈ i.targets, site.HoldsInside t → site.Holds position
  /-- a loop has an end of its body, and leads behind it -/
  each : ∀ header other, i = .each header other →
    ∃ last exit, other = last + 1 ∧ position < last
      ∧ plan.get? last = some (.next (position + 1) exit)
  /-- an end of a body belongs to a loop, and what is in the body stays there -/
  next : ∀ body exit, i = .next body exit →
    ∃ head header, body = head + 1 ∧ head < position
      ∧ plan.get? head = some (.each header (position + 1)) ∧ ⟨head, position + 1⟩ ∈ sites
      ∧ ∀ p j t, head < p → p < position → plan.get? p = some j → t ∈ j.targets →
        head < t ∧ t ≤ position

/-- A layout between two positions of a plan, with the ranges of the constructs there. -/
structure Placed (plan : Plan) (sites : List Site) (start stop : Nat) : Prop where
  le : start ≤ stop
  bounds : ∀ site ∈ sites, start ≤ site.head ∧ site.head < site.stop ∧ site.stop ≤ stop
  begins : ∀ site ∈ sites, ∃ i, plan.get? site.head = some i ∧ i.Begins
  fits : ∀ p i, start ≤ p → p < stop → plan.get? p = some i → Fits plan sites start stop p i

variable {plan : Plan} {inside others sites sites' : List Site}
  {start middle stop start' stop' position : Nat}

/-- What fits into a layout fits into one around it whose other ranges are clear of its targets
or hold it. -/
theorem Fits.widen {i : Instruction} (h : Fits plan sites start stop position i)
    (hstart : start' ≤ start) (hstop : stop ≤ stop') (hsub : ∀ site ∈ sites, site ∈ sites')
    (hothers : ∀ site ∈ sites', site ∈ sites ∨
      ∀ t, start ≤ t → t ≤ stop → site.HoldsInside t → site.Holds position) :
    Fits plan sites' start' stop' position i where
  within := by
    intro t ht
    have := h.within t ht
    omega
  directed := h.directed
  entry := by
    intro site hsite t ht hinside
    rcases hothers site hsite with hmem | hclear
    · exact h.entry site hmem t ht hinside
    · exact hclear t (h.within t ht).1 (h.within t ht).2 hinside
  each := h.each
  next := by
    intro body exit hi
    obtain ⟨head, header, hbody, hlt, heach, hsite, hstay⟩ := h.next body exit hi
    exact ⟨head, header, hbody, hlt, heach, hsub _ hsite, hstay⟩

/-- An instruction that names no position fits everywhere. -/
theorem Fits.leaf {i : Instruction} (ht : i.targets = []) :
    Fits plan sites start stop position i where
  within := by simp [ht]
  directed := by
    cases i with
    | literal | output | exec => trivial
    | branch | jump | each | next | repetition => cases ht
  entry := by simp [ht]
  each := by
    rintro header other rfl
    cases ht
  next := by
    rintro body exit rfl
    cases ht

namespace Placed

theorem nil (plan : Plan) (start : Nat) : Placed plan [] start start where
  le := Nat.le_refl start
  bounds := by simp
  begins := by simp
  fits := by omega

theorem leaf {i : Instruction} (hi : plan.get? start = some i) (ht : i.targets = []) :
    Placed plan [] start (start + 1) where
  le := Nat.le_succ start
  bounds := by simp
  begins := by simp
  fits := by
    intro p j hle hlt hj
    obtain rfl : p = start := by omega
    obtain rfl := Option.some.inj (hi.symm.trans hj)
    exact .leaf ht

/-- A layout behind another one. -/
theorem append (h : Placed plan inside start middle) (h' : Placed plan others middle stop) :
    Placed plan (inside ++ others) start stop where
  le := Nat.le_trans h.le h'.le
  bounds := by
    have := h.le
    have := h'.le
    intro site hsite
    rcases List.mem_append.mp hsite with hmem | hmem
    · have := h.bounds site hmem
      omega
    · have := h'.bounds site hmem
      omega
  begins := by
    intro site hsite
    exact (List.mem_append.mp hsite).elim (h.begins site) (h'.begins site)
  fits := by
    intro p i hle hlt hi
    -- what fits into one of the layouts names no position inside a range of the other
    rcases Nat.lt_or_ge p middle with hp | hp
    · refine (h.fits p i hle hp hi).widen (Nat.le_refl _) h'.le
        (fun site hsite => List.mem_append_left _ hsite) fun site hsite => ?_
      refine (List.mem_append.mp hsite).imp_right fun hmem t _ ht hinside => ?_
      have := h'.bounds site hmem
      have := hinside.1
      omega
    · refine (h'.fits p i hp hlt hi).widen h.le (Nat.le_refl _)
        (fun site hsite => List.mem_append_right _ hsite) fun site hsite => ?_
      refine (List.mem_append.mp hsite).symm.imp_right fun hmem t ht _ hinside => ?_
      have := h.bounds site hmem
      have := hinside.2
      omega

/-- An `if` without an `else` part around a layout. -/
theorem single {condition : Expr} (hi : plan.get? start = some (.branch condition stop))
    (h : Placed plan inside (start + 1) stop) :
    Placed plan (⟨start, stop⟩ :: inside) start stop where
  le := Nat.le_of_succ_le h.le
  bounds := by
    have := h.le
    intro site hsite
    rcases List.mem_cons.mp hsite with rfl | hmem
    · exact ⟨Nat.le_refl _, h.le, Nat.le_refl _⟩
    · have := h.bounds site hmem
      omega
  begins := by
    intro site hsite
    rcases List.mem_cons.mp hsite with rfl | hmem
    · exact ⟨_, hi, trivial⟩
    · exact h.begins site hmem
  fits := by
    intro p i hle hlt hj
    rcases Nat.eq_or_lt_of_le hle with rfl | hp
    -- the new instruction leads behind everything
    · obtain rfl := Option.some.inj (hi.symm.trans hj)
      have htarget : ∀ t ∈ (Instruction.branch condition stop).targets, t = stop := by
        simp [Instruction.targets]
      refine ⟨fun t ht => ?_, hlt, fun site hsite t ht hinside => ?_, by simp, by simp⟩
      · have := htarget t ht
        omega
      · have := htarget t ht
        have := hinside.2
        rcases List.mem_cons.mp hsite with rfl | hmem
        · exact ⟨hle, hlt⟩
        · have := h.bounds site hmem
          omega
    · refine (h.fits p i hp hlt hj).widen (Nat.le_succ start) (Nat.le_refl _)
        (fun site hsite => List.mem_cons_of_mem _ hsite) fun site hsite => ?_
      rcases List.mem_cons.mp hsite with rfl | hmem
      · exact .inr fun t _ _ _ => ⟨hle, hlt⟩
      · exact .inl hmem

variable {head tail : Instruction}

/-- The first instruction of a construct fits. -/
theorem fits_head (haround : Instruction.Around start middle stop head tail)
    (htail : plan.get? middle = some tail) (h : Placed plan inside (start + 1) middle)
    (h' : Placed plan others (middle + 1) stop) :
    Fits plan (⟨start, stop⟩ :: ⟨start, middle + 1⟩ :: (inside ++ others)) start stop start
      head := by
  have hbody := h.le
  have hother := h'.le
  have htargets : ∀ t ∈ head.targets, t = middle + 1 := by
    cases haround <;> simp [Instruction.targets]
  refine ⟨fun t ht => ?_, ?_, fun site hsite t ht hinside => ?_, ?_, ?_⟩
  · have := htargets t ht
    omega
  · cases haround <;> exact Nat.lt_of_succ_lt (Nat.lt_succ_of_le hbody)
  · obtain rfl := htargets t ht
    have ⟨hhead, hstop⟩ := hinside
    simp only [List.mem_cons, List.mem_append] at hsite
    rcases hsite with rfl | rfl | hmem | hmem
    · exact ⟨Nat.le_refl _, by simp only; omega⟩
    · exact ⟨Nat.le_refl _, by simp only; omega⟩
    · have := h.bounds site hmem
      omega
    · have := h'.bounds site hmem
      omega
  · rintro header other rfl
    cases haround
    exact ⟨middle, stop, rfl, hbody, htail⟩
  · rintro body exit rfl
    cases haround

/-- The last instruction of a body fits. -/
theorem fits_tail (haround : Instruction.Around start middle stop head tail)
    (hhead : plan.get? start = some head) (h : Placed plan inside (start + 1) middle)
    (h' : Placed plan others (middle + 1) stop) :
    Fits plan (⟨start, stop⟩ :: ⟨start, middle + 1⟩ :: (inside ++ others)) start stop middle
      tail := by
  have hbody := h.le
  have hother := h'.le
  have htargets : ∀ t ∈ tail.targets, t = start ∨ t = start + 1 ∨ t = stop := by
    cases haround <;> simp [Instruction.targets]
  refine ⟨fun t ht => ?_, ?_, fun site hsite t ht hinside => ?_, ?_, ?_⟩
  · have := htargets t ht
    omega
  · cases haround with
    | branch condition => exact .inl hother
    | each header => exact ⟨hother, start, header, rfl, hbody, hhead⟩
    | repetition condition => exact .inr ⟨hbody, condition, hhead⟩
  · have := htargets t ht
    have ⟨hhead, hstop⟩ := hinside
    simp only [List.mem_cons, List.mem_append] at hsite
    rcases hsite with rfl | rfl | hmem | hmem
    · exact ⟨Nat.le_of_succ_le hbody, hother⟩
    · exact ⟨Nat.le_of_succ_le hbody, Nat.lt_succ_self middle⟩
    · have := h.bounds site hmem
      omega
    · have := h'.bounds site hmem
      omega
  · rintro header other rfl
    cases haround
  · rintro body exit rfl
    cases haround
    refine ⟨start, _, rfl, hbody, hhead, by simp, fun p j t hp hp' hj ht => ?_⟩
    exact (h.fits p j hp hp' hj).within t ht

/-- A construct around a body, with another part behind it. -/
theorem construct (haround : Instruction.Around start middle stop head tail)
    (hhead : plan.get? start = some head) (htail : plan.get? middle = some tail)
    (h : Placed plan inside (start + 1) middle) (h' : Placed plan others (middle + 1) stop) :
    Placed plan (⟨start, stop⟩ :: ⟨start, middle + 1⟩ :: (inside ++ others)) start stop where
  le := by
    have := h.le
    have := h'.le
    omega
  bounds := by
    have := h.le
    have := h'.le
    simp only [List.mem_cons, List.mem_append]
    rintro site (rfl | rfl | hmem | hmem)
    · simp only
      omega
    · simp only
      omega
    · have := h.bounds site hmem
      omega
    · have := h'.bounds site hmem
      omega
  begins := by
    have hbegins : head.Begins := by cases haround <;> trivial
    simp only [List.mem_cons, List.mem_append]
    rintro site (rfl | rfl | hmem | hmem)
    · exact ⟨head, hhead, hbegins⟩
    · exact ⟨head, hhead, hbegins⟩
    · exact h.begins site hmem
    · exact h'.begins site hmem
  fits := by
    have hbody := h.le
    have hother := h'.le
    intro p i hle hlt hj
    -- the first instruction, the body, its last instruction, and the other part
    have hcases : p = start ∨ start + 1 ≤ p ∧ p < middle ∨ p = middle ∨ middle + 1 ≤ p := by omega
    rcases hcases with rfl | ⟨hp, hp'⟩ | rfl | hp
    · obtain rfl := Option.some.inj (hhead.symm.trans hj)
      exact fits_head haround htail h h'
    · refine (h.fits p i hp hp' hj).widen (Nat.le_succ start) (by omega) (by simp +contextual) ?_
      simp only [List.mem_cons, List.mem_append]
      rintro site (rfl | rfl | hmem | hmem)
      · exact .inr fun t _ _ _ => ⟨hle, hlt⟩
      · exact .inr fun t _ _ _ => ⟨hle, by simp only; omega⟩
      · exact .inl hmem
      · refine .inr fun t _ ht hinside => ?_
        have := h'.bounds site hmem
        have := hinside.1
        omega
    · obtain rfl := Option.some.inj (htail.symm.trans hj)
      exact fits_tail haround hhead h h'
    · refine (h'.fits p i hp hlt hj).widen (by omega) (Nat.le_refl _) (by simp +contextual) ?_
      simp only [List.mem_cons, List.mem_append]
      rintro site (rfl | rfl | hmem | hmem)
      · exact .inr fun t _ _ _ => ⟨hle, hlt⟩
      · refine .inr fun t ht _ hinside => ?_
        have := hinside.2
        simp only at this
        omega
      · refine .inr fun t ht _ hinside => ?_
        have := h.bounds site hmem
        have := hinside.2
        omega
      · exact .inl hmem

end Placed

/-- A piece, and then the pieces behind it. -/
theorem Placed.cons {piece : Piece} {rest : List Piece}
    (hsits : Sits plan.get? start (Piece.emitAll start (piece :: rest)))
    (hpiece : Sits plan.get? start (Piece.emit start piece) →
      Placed plan (Piece.sites start piece) start (start + piece.width))
    (hrest : Sits plan.get? (start + piece.width) (Piece.emitAll (start + piece.width) rest) →
      Placed plan (Piece.sitesAll (start + piece.width) rest) (start + piece.width)
        (start + piece.width + Piece.widthAll rest)) :
    Placed plan (Piece.sitesAll start (piece :: rest)) start
      (start + Piece.widthAll (piece :: rest)) := by
  rw [Piece.emitAll, Sits.append_iff, Piece.length_emit] at hsits
  rw [Piece.widthAll, ← Nat.add_assoc, Piece.sitesAll]
  exact (hpiece hsits.1).append (hrest hsits.2)

/-- **Layouts are in place**: the instructions of an outline fit wherever they stand. -/
theorem placed_emitAll (pieces : List Piece)
    (hsits : Sits plan.get? start (Piece.emitAll start pieces)) :
    Placed plan (Piece.sitesAll start pieces) start (start + Piece.widthAll pieces) := by
  induction pieces using Outline.induct generalizing start with
  | nil => exact .nil plan start
  | literal _ _ ih | output _ _ _ ih | exec _ _ ih =>
    exact .cons hsits (fun hsits => .leaf hsits.1 rfl) ih
  | single condition yes rest ihyes ih =>
    refine .cons hsits (fun hsits => ?_) ih
    have hyes := ihyes hsits.2
    rw [Nat.add_right_comm] at hyes
    exact .single hsits.1 hyes
  | double condition yes no rest ihyes ihno ih =>
    refine .cons hsits (fun hsits => ?_) ih
    simp only [Piece.emit, Sits.cons_iff, Sits.append_iff, Piece.length_emitAll] at hsits
    obtain ⟨hhead, hyes, htail, hno⟩ := hsits
    have hmiddle : start + 1 + Piece.widthAll yes + 1 = start + Piece.widthAll yes + 2 := by omega
    have hstop := Piece.add_width_double start condition yes no
    rw [Piece.sites, hstop, ← hmiddle]
    rw [hstop] at htail
    rw [← hmiddle] at hhead hno hstop
    exact .construct (.branch condition) hhead htail (ihyes hyes) (hstop ▸ ihno hno)
  | plain header body rest ihbody ih =>
    refine .cons hsits (fun hsits => ?_) ih
    simp only [Piece.emit, Sits.cons_iff, Sits.snoc_iff, Piece.length_emitAll] at hsits
    obtain ⟨hhead, hbody, htail⟩ := hsits
    have hmiddle : start + Piece.widthAll body + 2 = start + 1 + Piece.widthAll body + 1 := by omega
    rw [hmiddle] at hhead htail
    change Placed plan _ start (start + Piece.widthAll body + 2)
    rw [Piece.sites, hmiddle]
    exact .construct (.each header) hhead htail (ihbody hbody) (.nil plan _)
  | guarded header body empty rest ihbody ihempty ih =>
    refine .cons hsits (fun hsits => ?_) ih
    simp only [Piece.emit, Sits.cons_iff, Sits.append_iff, Piece.length_emitAll] at hsits
    obtain ⟨hhead, hbody, htail, hempty⟩ := hsits
    have hmiddle : start + 1 + Piece.widthAll body + 1 = start + Piece.widthAll body + 2 := by omega
    have hstop := Piece.add_width_guarded start header body empty
    rw [Piece.sites, hstop, ← hmiddle]
    rw [hstop] at htail
    rw [← hmiddle] at hhead hempty hstop
    exact .construct (.each header) hhead htail (ihbody hbody) (hstop ▸ ihempty hempty)
  | repetition condition body rest ihbody ih =>
    refine .cons hsits (fun hsits => ?_) ih
    simp only [Piece.emit, Sits.cons_iff, Sits.snoc_iff, Piece.length_emitAll] at hsits
    obtain ⟨hhead, hbody, htail⟩ := hsits
    have hmiddle : start + Piece.widthAll body + 2 = start + 1 + Piece.widthAll body + 1 := by omega
    rw [hmiddle] at hhead
    change Placed plan _ start (start + Piece.widthAll body + 2)
    rw [Piece.sites, hmiddle]
    exact .construct (.repetition condition) hhead htail (ihbody hbody) (.nil plan _)

/-- The plan of an outline is in place from its first instruction to its end. -/
theorem Outline.placed (outline : Outline) :
    Placed outline.plan (Piece.sitesAll 0 outline) 0 outline.plan.size := by
  have hsize : outline.plan.size = 0 + Piece.widthAll outline := by
    simp [Outline.plan, Plan.size]
  rw [hsize]
  exact placed_emitAll outline (Plan.sits _)

theorem Plan.lt_size_of_get? {plan : Plan} {p : Nat} {i : Instruction}
    (h : plan.get? p = some i) : p < plan.size := by
  obtain ⟨hlt, -⟩ := Array.getElem?_eq_some_iff.mp h
  exact hlt

/-- Every instruction of a plan that is in place fits. -/
theorem Placed.fits_of_get? {p : Nat} {i : Instruction} (h : Placed plan sites 0 plan.size)
    (hi : plan.get? p = some i) : Fits plan sites 0 plan.size p i :=
  h.fits p i (Nat.zero_le p) (Plan.lt_size_of_get? hi) hi

end TemplateEngine

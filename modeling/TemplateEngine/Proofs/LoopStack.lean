import Mathlib.Data.List.Forall2
import Mathlib.Tactic.ByContra
import TemplateEngine.Proofs.Drafting
import TemplateEngine.Proofs.Names
import TemplateEngine.Proofs.Targets

/-!
# The loops on the stack are the loops around

A renderer keeps a stack of loops, and nothing in a plan says which loop an end of a body is for.
Here a run is followed together with the positions where the loops on its stack were started
(`Renderer.trail?`). At every position these are the loops whose bodies enclose it, the
innermost first (`Tracks`): a step keeps this up whatever its instruction is (`Tracks.move`), since
what is in a body stays there and nothing leads into a body from outside. So an end of a
body always finds the loop that it belongs to.
-/

namespace TemplateEngine

/-! ## Bodies -/

/-- A position is in the body of the loop that starts at `head`: it is behind the start, up to the
instruction that goes back behind the start. -/
def Plan.Encloses (plan : Plan) (head position : Nat) : Prop :=
  ∃ last header other exit, plan.get? head = some (.each header other)
    ∧ plan.get? last = some (.next (head + 1) exit) ∧ head < position ∧ position ≤ last

namespace Placed

variable {plan : Plan} {sites : List Site} {head other p t : Nat} {header : LoopHeader}
  {i : Instruction}

/-- The last instruction of a body stands before the way out of the loop. -/
theorem last_of_each (h : Placed plan sites 0 plan.size)
    (heach : plan.get? head = some (.each header other)) :
    ∃ last exit, other = last + 1 ∧ head < last ∧ plan.get? last = some (.next (head + 1) exit) :=
  (h.fits_of_get? heach).each header other rfl

/-- A position is in a body if it is between the start of the loop and the way out of it. -/
theorem encloses_iff (h : Placed plan sites 0 plan.size) :
    plan.Encloses head p ↔
      ∃ header other, plan.get? head = some (.each header other) ∧ head < p ∧ p < other := by
  constructor
  · rintro ⟨last, header, other, exit, heach, hnext, hhead, hle⟩
    obtain ⟨head', header', hbody, -, heach', -, -⟩ := (h.fits_of_get? hnext).next _ _ rfl
    obtain rfl := Nat.succ.inj hbody
    exact ⟨header', last + 1, heach', hhead, Nat.lt_succ_of_le hle⟩
  · rintro ⟨header, other, heach, hhead, hlt⟩
    obtain ⟨last, exit, rfl, -, hnext⟩ := h.last_of_each heach
    exact ⟨last, header, last + 1, exit, heach, hnext, hhead, Nat.le_of_lt_succ hlt⟩

/-- What is in a body stays there, but for its last instruction. -/
theorem stays (h : Placed plan sites 0 plan.size)
    (heach : plan.get? head = some (.each header other)) (hi : plan.get? p = some i)
    (hhead : head < p) (hlt : p + 1 < other) (ht : t ∈ i.targets) : head < t ∧ t < other := by
  obtain ⟨last, exit, rfl, -, hnext⟩ := h.last_of_each heach
  obtain ⟨head', header', hbody, -, -, -, hstay⟩ := (h.fits_of_get? hnext).next _ _ rfl
  obtain rfl := Nat.succ.inj hbody
  have := hstay p i t hhead (Nat.lt_of_succ_lt_succ hlt) hi ht
  exact ⟨this.1, Nat.lt_succ_of_le this.2⟩

/-- Nothing leads into a body from outside. -/
theorem enters (h : Placed plan sites 0 plan.size)
    (heach : plan.get? head = some (.each header other)) (hi : plan.get? p = some i)
    (ht : t ∈ i.targets) (hhead : head < t) (hlt : t < other) : head ≤ p ∧ p < other := by
  obtain ⟨last, exit, rfl, -, hnext⟩ := h.last_of_each heach
  obtain ⟨head', header', hbody, -, -, hsite, -⟩ := (h.fits_of_get? hnext).next _ _ rfl
  obtain rfl := Nat.succ.inj hbody
  exact (h.fits_of_get? hi).entry _ hsite t ht ⟨hhead, hlt⟩

/-- An instruction of a body other than the last is followed by one of the same body. -/
theorem succ_lt (h : Placed plan sites 0 plan.size)
    (heach : plan.get? head = some (.each header other)) (hi : plan.get? p = some i)
    (hi' : ∀ exit, i ≠ .next (head + 1) exit) (hlt : p < other) : p + 1 < other := by
  obtain ⟨last, exit, rfl, -, hnext⟩ := h.last_of_each heach
  rcases Nat.lt_succ_iff_lt_or_eq.mp hlt with hlt | rfl
  · exact Nat.succ_lt_succ hlt
  · exact absurd (Option.some.inj (hi.symm.trans hnext)) (hi' exit)

/-! ### Bodies around the next position -/

/-- An instruction that neither starts a loop nor ends a body goes on in the same bodies. -/
theorem encloses_go (h : Placed plan sites 0 plan.size) (hi : plan.get? p = some i)
    (heach : ∀ header other, i ≠ .each header other) (hnext : ∀ body exit, i ≠ .next body exit)
    (ht : t = p + 1 ∨ t ∈ i.targets) : plan.Encloses head t ↔ plan.Encloses head p := by
  rw [h.encloses_iff, h.encloses_iff]
  constructor
  · rintro ⟨header, other, he, hhead, hlt⟩
    have hne : head ≠ p := by
      rintro rfl
      exact heach _ _ (Option.some.inj (hi.symm.trans he))
    rcases ht with rfl | ht
    · exact ⟨header, other, he, by omega, by omega⟩
    · have := h.enters he hi ht hhead hlt
      exact ⟨header, other, he, by omega, by omega⟩
  · rintro ⟨header, other, he, hhead, hlt⟩
    have hsucc := h.succ_lt he hi (fun exit => hnext _ exit) hlt
    rcases ht with rfl | ht
    · exact ⟨header, other, he, by omega, hsucc⟩
    · have := h.stays he hi hhead hsucc ht
      exact ⟨header, other, he, this⟩

theorem encloses_enter (h : Placed plan sites 0 plan.size)
    (hi : plan.get? p = some (.each header other)) :
    plan.Encloses head (p + 1) ↔ head = p ∨ plan.Encloses head p := by
  rw [h.encloses_iff, h.encloses_iff]
  constructor
  · rintro ⟨header, other, he, hhead, hlt⟩
    rcases Nat.lt_succ_iff_lt_or_eq.mp hhead with hhead | rfl
    · exact .inr ⟨header, other, he, hhead, Nat.lt_of_succ_lt hlt⟩
    · exact .inl rfl
  · rintro (rfl | ⟨header, other, he, hhead, hlt⟩)
    · obtain ⟨last, exit, rfl, hlast, -⟩ := h.last_of_each hi
      exact ⟨header, last + 1, hi, Nat.lt_succ_self _, Nat.succ_lt_succ hlast⟩
    · exact ⟨header, other, he, Nat.lt_succ_of_lt hhead, h.succ_lt he hi (by simp) hlt⟩

theorem encloses_skip (h : Placed plan sites 0 plan.size)
    (hi : plan.get? p = some (.each header other)) :
    plan.Encloses head other ↔ plan.Encloses head p := by
  rw [h.encloses_iff, h.encloses_iff]
  have ht : other ∈ (Instruction.each header other).targets := by simp [Instruction.targets]
  constructor
  · rintro ⟨header', other', he, hhead, hlt⟩
    have := h.enters he hi ht hhead hlt
    rcases Nat.eq_or_lt_of_le this.1 with rfl | hlt'
    · cases hi.symm.trans he
      exact absurd hlt (Nat.lt_irrefl _)
    · exact ⟨header', other', he, hlt', this.2⟩
  · rintro ⟨header', other', he, hhead, hlt⟩
    have hsucc := h.succ_lt he hi (by simp) hlt
    exact ⟨header', other', he, h.stays he hi hhead hsucc ht⟩

/-- The end of a body belongs to a loop whose body it ends. -/
theorem each_of_next {body exit : Nat} (h : Placed plan sites 0 plan.size)
    (hi : plan.get? p = some (.next body exit)) :
    ∃ head header, body = head + 1 ∧ head < p ∧ p < exit
      ∧ plan.get? head = some (.each header (p + 1)) := by
  obtain ⟨hexit, head, header, hbody, hlt, heach⟩ := (h.fits_of_get? hi).directed
  exact ⟨head, header, hbody, hlt, hexit, heach⟩

theorem encloses_again {body exit : Nat} (h : Placed plan sites 0 plan.size)
    (hi : plan.get? p = some (.next body exit)) :
    plan.Encloses head body ↔ plan.Encloses head p := by
  rw [h.encloses_iff, h.encloses_iff]
  have ht : body ∈ (Instruction.next body exit).targets := by simp [Instruction.targets]
  constructor
  · rintro ⟨header, other, he, hhead, hlt⟩
    have := h.enters he hi ht hhead hlt
    have hne : head ≠ p := by
      rintro rfl
      cases hi.symm.trans he
    exact ⟨header, other, he, by omega, this.2⟩
  · rintro ⟨header, other, he, hhead, hlt⟩
    obtain ⟨own, ownHeader, rfl, hown, -, -⟩ := h.each_of_next hi
    by_cases hsame : head = own
    · subst hsame
      exact ⟨header, other, he, Nat.lt_succ_self _, by omega⟩
    -- going back does not leave the loops around the own one
    · have hsucc := h.succ_lt he hi (fun exit' hc => hsame (by cases hc; rfl)) hlt
      exact ⟨header, other, he, h.stays he hi hhead hsucc ht⟩

theorem encloses_leave {own exit : Nat} (h : Placed plan sites 0 plan.size)
    (hi : plan.get? p = some (.next (own + 1) exit)) :
    plan.Encloses head exit ↔ plan.Encloses head p ∧ head ≠ own := by
  rw [h.encloses_iff, h.encloses_iff]
  have ht : exit ∈ (Instruction.next (own + 1) exit).targets := by simp [Instruction.targets]
  obtain ⟨own', ownHeader, hown, hlt', hexit, heach⟩ := h.each_of_next hi
  obtain rfl := Nat.succ.inj hown
  constructor
  · rintro ⟨header, other, he, hhead, hlt⟩
    have := h.enters he hi ht hhead hlt
    have hne : head ≠ p := by
      rintro rfl
      cases hi.symm.trans he
    refine ⟨⟨header, other, he, by omega, this.2⟩, ?_⟩
    rintro rfl
    cases heach.symm.trans he
    omega
  · rintro ⟨⟨header, other, he, hhead, hlt⟩, hne⟩
    have hsucc := h.succ_lt he hi (fun exit' hc => hne (by cases hc; rfl)) hlt
    exact ⟨header, other, he, h.stays he hi hhead hsucc ht⟩

/-- The loop of the end of a body is the innermost around it. -/
theorem innermost {own exit : Nat} (h : Placed plan sites 0 plan.size)
    (hi : plan.get? p = some (.next (own + 1) exit)) (hhead : plan.Encloses head p) :
    head ≤ own := by
  obtain ⟨header, other, he, hlt, hlt'⟩ := h.encloses_iff.mp hhead
  obtain ⟨own', ownHeader, hown, hown', -, heach⟩ := h.each_of_next hi
  obtain rfl := Nat.succ.inj hown
  by_contra hgt
  -- a loop that starts in the body must end in it
  have hsucc := h.succ_lt he hi (fun exit' hc => hgt (by cases hc; exact Nat.le_refl _)) hlt'
  have := h.stays heach he (by omega) (by omega) (by simp [Instruction.targets] : other ∈ _)
  omega

end Placed

/-! ## Steps -/

namespace Renderer

/-- What is left of a run behind its next step, unless it ends there. -/
def next? (r : Renderer) : Option Renderer :=
  match Source.pull r with
  | .fragment _ rest | .busy rest => some rest
  | .failed _ | .finished => none

/-- The names that the loops on the stack bind, from the innermost. -/
def targets (r : Renderer) : List (List Text) := r.memory.loops.map (·.targets)

/-- A run ends where there is no instruction. -/
theorem get?_of_finished {r : Renderer} (hp : Source.pull r = .finished) :
    r.plan.get? r.position = none := by
  have hstep : r.step = .finished := hp
  have hsilent : ∀ result, silently result ≠ .finished := by
    intro result
    cases result <;> simp [silently]
  unfold step at hstep
  split at hstep
  · assumption
  all_goals first | cases hstep | exact absurd hstep (hsilent _) | skip
  split at hstep <;> cases hstep

/-- What a step can do to a renderer. -/
inductive Move (r : Renderer) : Renderer → Prop
  | go {i : Instruction} {r' : Renderer} (hi : r.plan.get? r.position = some i)
    (heach : ∀ header other, i ≠ .each header other) (hnext : ∀ body exit, i ≠ .next body exit)
    (hplan : r'.plan = r.plan)
    (hposition : r'.position = r.position + 1 ∨ r'.position ∈ i.targets)
    (htargets : r'.targets = r.targets) : Move r r'
  | enter {header : LoopHeader} {other : Nat} (f : LoopFrame)
    (hi : r.plan.get? r.position = some (.each header other))
    (htargets : f.targets = header.targets) :
    Move r { r.goto (r.position + 1) with
      memory := { r.memory with loops := f :: r.memory.loops } }
  | skip {header : LoopHeader} {other : Nat}
    (hi : r.plan.get? r.position = some (.each header other)) : Move r (r.goto other)
  | again {body exit : Nat} {f : LoopFrame} {loops : List LoopFrame} (f' : LoopFrame)
    (hi : r.plan.get? r.position = some (.next body exit)) (hloops : r.memory.loops = f :: loops)
    (htargets : f'.targets = f.targets) :
    Move r { r.goto body with memory := { r.memory with loops := f' :: loops } }
  | leave {body exit : Nat} {f : LoopFrame} {loops : List LoopFrame}
    (hi : r.plan.get? r.position = some (.next body exit))
    (hloops : r.memory.loops = f :: loops) :
    Move r { r.goto exit with memory := { r.memory with loops := loops } }
  /-- the end of a body without a loop -/
  | stray {body exit : Nat} (hi : r.plan.get? r.position = some (.next body exit))
    (hloops : r.memory.loops = []) : Move r (r.goto exit)

variable {r r' : Renderer}

theorem next?_silently {result : Except RenderError Renderer}
    (hp : Source.pull r = silently result) (h : r.next? = some r') : result = .ok r' := by
  rw [next?, hp] at h
  cases result with
  | error e => cases h
  | ok r => exact congrArg Except.ok (Option.some.inj h)

theorem test_eq_ok {condition : Expr} {other : Nat} (h : r.test condition other = .ok r') :
    ∃ position, r' = r.goto position ∧ (position = r.position + 1 ∨ position = other) := by
  rw [test] at h
  cases he : r.eval condition with
  | error e =>
    rw [he] at h
    cases h
  | ok v =>
    rw [he] at h
    cases h
    exact ⟨_, rfl, by split <;> simp⟩

theorem advance_eq_ok {f : LoopFrame} {next : Option LoopFrame} (h : f.advance = .ok next) :
    next = none ∨ ∃ f', next = some f' ∧ f'.targets = f.targets := by
  rw [LoopFrame.advance] at h
  split at h
  · cases h
    exact .inl rfl
  · next item items hitems =>
    cases hb : LoopFrame.bind f.targets item f.bindings with
    | error e =>
      rw [hb] at h
      cases h
    | ok names =>
      rw [hb] at h
      cases h
      exact .inr ⟨_, rfl, rfl⟩

theorem enterLoop_eq_ok {header : LoopHeader} {other : Nat}
    (h : r.enterLoop header other = .ok r') :
    r' = r.goto other ∨ ∃ f : LoopFrame, f.targets = header.targets ∧
      r' = { r.goto (r.position + 1) with
        memory := { r.memory with loops := f :: r.memory.loops } } := by
  rw [enterLoop] at h
  cases hv : r.eval header.items with
  | error e =>
    rw [hv] at h
    cases h
  | ok v =>
    rw [hv] at h
    cases hitems : v.iterate with
    | error e =>
      simp only [hitems, bind, Except.bind] at h
      cases h
    | ok items =>
      simp only [hitems, bind, Except.bind] at h
      cases ha : LoopFrame.advance ⟨header.targets, items, []⟩ with
      | error e =>
        rw [ha] at h
        cases h
      | ok next =>
        rw [ha] at h
        obtain rfl | ⟨f, rfl, hf⟩ := advance_eq_ok ha
        · cases h
          exact .inl rfl
        · cases h
          exact .inr ⟨f, hf, rfl⟩

theorem nextItem_eq_ok {body exit : Nat} (h : r.nextItem body exit = .ok r') :
    (r.memory.loops = [] ∧ r' = r.goto exit) ∨
      ∃ f loops, r.memory.loops = f :: loops ∧
        (r' = { r.goto exit with memory := { r.memory with loops := loops } } ∨
          ∃ f' : LoopFrame, f'.targets = f.targets ∧
            r' = { r.goto body with memory := { r.memory with loops := f' :: loops } }) := by
  rw [nextItem] at h
  split at h
  · next hloops =>
    cases h
    exact .inl ⟨hloops, rfl⟩
  · next f loops hloops =>
    refine .inr ⟨f, loops, hloops, ?_⟩
    cases ha : f.advance with
    | error e =>
      rw [ha] at h
      cases h
    | ok next =>
      rw [ha] at h
      obtain rfl | ⟨f', rfl, hf⟩ := advance_eq_ok ha
      · cases h
        exact .inl rfl
      · cases h
        exact .inr ⟨f', hf, rfl⟩

theorem exec_eq_ok {statements : List Statement} (h : r.exec statements = .ok r') :
    r'.plan = r.plan ∧ r'.position = r.position + 1 ∧ r'.targets = r.targets := by
  rw [exec] at h
  cases hm : Statement.runAll r.memory statements with
  | error e =>
    rw [hm] at h
    cases h
  | ok m =>
    rw [hm] at h
    cases h
    have hpending := congrArg (List.map Prod.fst) (Memory.pending_of_runAll hm)
    refine ⟨rfl, rfl, ?_⟩
    simpa [Memory.pending, targets, Function.comp_def] using hpending

/-- A step is one of these moves. -/
theorem move_of_next? (h : r.next? = some r') : Move r r' := by
  have hp : Source.pull r = r.step := rfl
  unfold step at hp
  cases hi : r.plan.get? r.position with
  | none =>
    rw [hi] at hp
    rw [next?, hp] at h
    cases h
  | some i =>
    rw [hi] at hp
    cases i with
    | literal text =>
      rw [next?, hp] at h
      cases h
      exact .go hi (by simp) (by simp) rfl (.inl rfl) rfl
    | output e escape =>
      simp only at hp
      split at hp
      · rw [next?, hp] at h
        cases h
        exact .go hi (by simp) (by simp) rfl (.inl rfl) rfl
      · rw [next?, hp] at h
        cases h
    | branch condition other =>
      obtain ⟨position, rfl, hposition⟩ := test_eq_ok (next?_silently hp h)
      exact .go hi (by simp) (by simp) rfl
        (hposition.imp_right fun ht => by simp [Instruction.targets, goto, ht]) rfl
    | jump target =>
      rw [next?, hp] at h
      cases h
      exact .go hi (by simp) (by simp) rfl (.inr (by simp [Instruction.targets, goto])) rfl
    | each header other =>
      obtain rfl | ⟨f, hf, rfl⟩ := enterLoop_eq_ok (next?_silently hp h)
      · exact .skip hi
      · exact .enter f hi hf
    | next body exit =>
      obtain ⟨hloops, rfl⟩ | ⟨f, loops, hloops, rfl | ⟨f', hf, rfl⟩⟩ :=
        nextItem_eq_ok (next?_silently hp h)
      · exact .stray hi hloops
      · exact .leave hi hloops
      · exact .again f' hi hloops hf
    | repetition condition exit =>
      obtain ⟨position, rfl, hposition⟩ := test_eq_ok (next?_silently hp h)
      exact .go hi (by simp) (by simp) rfl
        (hposition.imp_right fun ht => by simp [Instruction.targets, goto, ht]) rfl
    | exec statements =>
      obtain ⟨hplan, hposition, htargets⟩ := exec_eq_ok (next?_silently hp h)
      exact .go hi (by simp) (by simp) hplan (.inl hposition) htargets

end Renderer

/-! ## Runs -/

namespace Renderer

/-- Where the loops on the stack were started, behind a step: a loop that the step has put on
the stack was started where the step was taken. -/
def originsAfter (origins : List Nat) (r r' : Renderer) : List Nat :=
  if r.targets.length < r'.targets.length then r.position :: origins
  else if r'.targets.length < r.targets.length then origins.tail
  else origins

/-- A run after some number of steps, unless it has ended before, and where the loops on its
stack were started, from the innermost. -/
def trail? (plan : Plan) (context : Context) : (steps : Nat) → Option (List Nat × Renderer)
  | 0 => some ([], start plan context)
  | steps + 1 => do
    let (origins, r) ← trail? plan context steps
    let r' ← r.next?
    return (originsAfter origins r r', r')

variable {origins : List Nat} {r r' : Renderer}

theorem originsAfter_of_eq (h : r'.targets = r.targets) : originsAfter origins r r' = origins := by
  simp [originsAfter, h]

theorem originsAfter_of_cons {targets : List Text} (h : r'.targets = targets :: r.targets) :
    originsAfter origins r r' = r.position :: origins := by
  simp [originsAfter, h]

theorem originsAfter_of_tail {targets : List Text} (h : r.targets = targets :: r'.targets) :
    originsAfter origins r r' = origins.tail := by
  have hlength : r.targets.length = r'.targets.length + 1 := by rw [h, List.length_cons]
  rw [originsAfter, if_neg (by omega), if_pos (by omega)]

end Renderer

/-- The loops on the stack of a renderer are those around its position. -/
structure Tracks (plan : Plan) (origins : List Nat) (r : Renderer) : Prop where
  runs : r.plan = plan
  position : r.position ≤ plan.size
  sorted : origins.Pairwise (· > ·)
  encloses : ∀ head, head ∈ origins ↔ plan.Encloses head r.position
  targets : List.Forall₂ (fun targets head => ∃ header other,
    plan.get? head = some (.each header other) ∧ targets = header.targets) r.targets origins

namespace Tracks

variable {plan : Plan} {sites : List Site} {origins : List Nat} {r r' : Renderer}

theorem start (plan : Plan) (context : Context) :
    Tracks plan [] (.start plan context) where
  runs := rfl
  position := Nat.zero_le _
  sorted := .nil
  encloses := by
    intro head
    simp only [List.not_mem_nil, false_iff]
    rintro ⟨last, header, other, exit, -, -, hlt, -⟩
    exact Nat.not_lt_zero head hlt
  targets := .nil

/-- A loop is on the stack at the end of a body, and it is the one that the body belongs to. -/
theorem own (ht : Tracks plan origins r) (h : Placed plan sites 0 plan.size) {body exit : Nat}
    (hi : plan.get? r.position = some (.next body exit)) :
    ∃ head rest, origins = head :: rest ∧ body = head + 1 := by
  obtain ⟨head, header, rfl, hlt, hexit, heach⟩ := h.each_of_next hi
  have hmem : head ∈ origins := (ht.encloses head).mpr
    (h.encloses_iff.mpr ⟨header, _, heach, hlt, Nat.lt_succ_self _⟩)
  cases origins with
  | nil => cases hmem
  | cons first rest =>
    have hle := h.innermost hi ((ht.encloses first).mp (List.mem_cons_self ..))
    rcases List.mem_cons.mp hmem with rfl | hrest
    · exact ⟨head, rest, rfl, rfl⟩
    · have := (List.pairwise_cons.mp ht.sorted).1 head hrest
      omega

/-- Every step keeps the loops on the stack. -/
theorem move (ht : Tracks plan origins r) (h : Placed plan sites 0 plan.size)
    (hmove : Renderer.Move r r') : Tracks plan (Renderer.originsAfter origins r r') r' := by
  have hwithin : ∀ {i t}, plan.get? r.position = some i → t ∈ i.targets → t ≤ plan.size :=
    fun hi hmem => ((h.fits_of_get? hi).within _ hmem).2
  have hsucc : ∀ {i}, plan.get? r.position = some i → r.position + 1 ≤ plan.size :=
    fun hi => Plan.lt_size_of_get? hi
  have hruns := ht.runs
  cases hmove with
  | @go i r' hi heach hnext hplan hposition htargets =>
    rw [hruns] at hi
    rw [Renderer.originsAfter_of_eq htargets]
    refine ⟨hplan.trans hruns, ?_, ht.sorted, fun head => ?_, htargets ▸ ht.targets⟩
    · exact hposition.elim (fun hp => hp ▸ hsucc hi) (hwithin hi)
    · rw [ht.encloses, h.encloses_go hi heach hnext hposition]
  | @enter header other f hi htargets =>
    rw [hruns] at hi
    have hcons : Renderer.targets { r.goto (r.position + 1) with
        memory := { r.memory with loops := f :: r.memory.loops } } = f.targets :: r.targets := rfl
    rw [Renderer.originsAfter_of_cons hcons]
    refine ⟨hruns, hsucc hi, List.pairwise_cons.mpr ⟨fun head hmem => ?_, ht.sorted⟩,
      fun head => ?_, .cons ⟨header, other, hi, htargets⟩ ht.targets⟩
    · obtain ⟨_, _, _, hlt, -⟩ := h.encloses_iff.mp ((ht.encloses head).mp hmem)
      exact hlt
    · rw [List.mem_cons, ht.encloses]
      exact (h.encloses_enter hi).symm
  | @skip header other hi =>
    rw [hruns] at hi
    have hsame : (r.goto other).targets = r.targets := rfl
    rw [Renderer.originsAfter_of_eq hsame]
    exact ⟨hruns, hwithin hi (by simp [Instruction.targets, Renderer.goto]), ht.sorted,
      fun head => (ht.encloses head).trans (h.encloses_skip hi).symm, ht.targets⟩
  | @again body exit f loops f' hi hloops htargets =>
    rw [hruns] at hi
    have hsame : Renderer.targets { r.goto body with
        memory := { r.memory with loops := f' :: loops } } = r.targets := by
      simp [Renderer.targets, hloops, htargets]
    rw [Renderer.originsAfter_of_eq hsame]
    exact ⟨hruns, hwithin hi (by simp [Instruction.targets, Renderer.goto]), ht.sorted,
      fun head => (ht.encloses head).trans (h.encloses_again hi).symm, hsame ▸ ht.targets⟩
  | @leave body exit f loops hi hloops =>
    rw [hruns] at hi
    have htail : r.targets = f.targets :: Renderer.targets { r.goto exit with
        memory := { r.memory with loops := loops } } := by
      simp [Renderer.targets, hloops]
    rw [Renderer.originsAfter_of_tail htail]
    obtain ⟨own, rest, rfl, rfl⟩ := ht.own h hi
    have hsorted := List.pairwise_cons.mp ht.sorted
    have htargets := ht.targets
    rw [htail] at htargets
    refine ⟨hruns, hwithin hi (by simp [Instruction.targets, Renderer.goto]), hsorted.2,
      fun head => ?_, (List.forall₂_cons.mp htargets).2⟩
    change head ∈ rest ↔ plan.Encloses head exit
    rw [h.encloses_leave hi, ← ht.encloses, List.mem_cons]
    -- the loop taken off is the one that the exit lies behind
    constructor
    · intro hmem
      exact ⟨.inr hmem, Nat.ne_of_lt (hsorted.1 head hmem)⟩
    · rintro ⟨rfl | hmem, hne⟩
      · exact absurd rfl hne
      · exact hmem
  | @stray body exit hi hloops =>
    rw [hruns] at hi
    -- the body that ends belongs to a loop, which is on the stack
    obtain ⟨head, rest, rfl, -⟩ := ht.own h hi
    have hframes := ht.targets
    rw [Renderer.targets, hloops] at hframes
    cases hframes

/-- A run that has ended has left all loops. -/
theorem finished (ht : Tracks plan origins r) (hp : Source.pull r = .finished) :
    r.memory.loops = [] := by
  have hnone : plan.get? r.position = none := ht.runs ▸ Renderer.get?_of_finished hp
  cases origins with
  | nil => simpa [Renderer.targets] using ht.targets
  | cons head rest =>
    -- the body of a loop ends in the plan, and the position is behind it
    obtain ⟨last, header, other, exit, -, hnext, -, hle⟩ :=
      (ht.encloses head).mp (List.mem_cons_self ..)
    have hlast := Plan.lt_size_of_get? hnext
    have hend : plan.size ≤ r.position := Array.getElem?_eq_none_iff.mp hnone
    omega

/-- Whatever steps are taken, the loops on the stack are those around the position. -/
theorem of_trail? (h : Placed plan sites 0 plan.size) {context : Context} {steps : Nat}
    (hr : Renderer.trail? plan context steps = some (origins, r)) : Tracks plan origins r := by
  induction steps generalizing origins r with
  | zero =>
    cases hr
    exact .start plan context
  | succ steps ih =>
    obtain ⟨⟨origins', r'⟩, hbefore, hstep⟩ := Option.bind_eq_some_iff.mp hr
    obtain ⟨r'', hnext, heq⟩ := Option.bind_eq_some_iff.mp hstep
    cases heq
    exact (ih hbefore).move h (Renderer.move_of_next? hnext)

end Tracks

/-- **The loops on the stack are the loops around**: in every run of a plan that has not failed, the
position is in the plan or at its end, and the loops on the stack are those whose bodies
enclose the position, from the innermost, with the names that these loops bind. So the end of
a body always goes on with the loop that it belongs to, and nothing is left on the stack when
the plan ends. -/
theorem Plan.tracks_of_trail? {o : Options} {source : Text} {plan : Plan}
    (hplan : Plan.compile o source = .ok plan) {context : Context} {steps : Nat}
    {origins : List Nat} {r : Renderer}
    (hr : Renderer.trail? plan context steps = some (origins, r)) :
    Tracks plan origins r
      ∧ (∀ body exit, plan.get? r.position = some (.next body exit) →
        ∃ head rest, origins = head :: rest ∧ body = head + 1)
      ∧ (Source.pull r = .finished → r.memory.loops = []) := by
  obtain ⟨outline, modes, -, rfl⟩ := Plan.exists_outline hplan
  have htracks := Tracks.of_trail? outline.placed hr
  exact ⟨htracks, fun body exit hi => htracks.own outline.placed hi, htracks.finished⟩

/-- Two steps into a loop in a loop. -/
theorem Plan.tracks_nested :
    let source := "{% for x in xs %}{% for y in x %}{{ y }}{% endfor %}{% endfor %}".toList
    let context : Context := [("xs".toList, .list [.list [.null]])]
    ∃ plan r, Plan.compile {} source = .ok plan
      ∧ Renderer.trail? plan context 2 = some ([1, 0], r) ∧ Tracks plan [1, 0] r
      ∧ r.memory.loops.map (·.targets) = [["y".toList], ["x".toList]] := by
  intro source context
  have hrun : ((Plan.compile {} source).toOption.bind fun plan =>
      (Renderer.trail? plan context 2).map fun (origins, r) => (origins, r.targets))
      = some ([1, 0], [["y".toList], ["x".toList]]) := by
    decide +kernel
  obtain ⟨plan, hplan, htrail⟩ := Option.bind_eq_some_iff.mp hrun
  obtain ⟨⟨origins, r⟩, hr, heq⟩ := Option.map_eq_some_iff.mp htrail
  obtain ⟨rfl, htargets⟩ := Prod.mk.inj heq
  have hcompile := eq_ok_of_toOption hplan
  exact ⟨plan, r, hcompile, hr, (Plan.tracks_of_trail? hcompile hr).1, htargets⟩

end TemplateEngine

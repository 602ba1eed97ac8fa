import Mathlib.Data.List.Perm.Subperm
import TemplateEngine.Proofs.LoopStack

/-!
# Where names are written and what a loop leaves behind

Reading and writing a name find the same place: what is assigned is found again, and nothing else is
changed (`Memory.lookup_assign_self`, `Memory.lookup_assign_of_ne`). A loop binds its names in a
frame of its own, so what it leaves behind is what statements have written meanwhile, and without
statements that is nothing (`Plan.names_scoped`).

A run through a loop is followed from its first instruction to the first arrival behind it
(`Renderer.arrive?`). What is laid out for a loop leads nowhere else (`Plan.Loop`), so the run stays
in a region without statements, and there the memory from before the loop stays under the frames
that are put upon it (`Memory.Extends`): an end of a body takes off the loop it belongs to, which
is the loop in question or one inside of it. The frames are counted by the loops around
(`Tracks`), and around the place behind a loop there are as many as around its start.
-/

namespace TemplateEngine

/-! ## Assignments -/

namespace Memory

variable {name other : Text} {value : Value} {loops loops' : List LoopFrame}

/-- The place where a loop binds a name is the place where it is read. -/
theorem findSome?_assignLoop? (h : assignLoop? name value loops = some loops') :
    loops'.findSome? (·.bindings.get? name) = some value := by
  induction loops generalizing loops' with
  | nil => cases h
  | cons f loops ih =>
    rw [assignLoop?] at h
    split at h
    · cases h
      simp
    · next hhas =>
      obtain ⟨behind, hbehind, rfl⟩ := Option.map_eq_some_iff.mp h
      have hnone : f.bindings.get? name = none := by simpa [Entries.has] using hhas
      rw [List.findSome?_cons, hnone]
      exact ih hbehind

/-- Other names are bound by the loops as before. -/
theorem findSome?_assignLoop?_of_ne (h : assignLoop? name value loops = some loops')
    (hne : other ≠ name) :
    loops'.findSome? (·.bindings.get? other) = loops.findSome? (·.bindings.get? other) := by
  induction loops generalizing loops' with
  | nil => cases h
  | cons f loops ih =>
    rw [assignLoop?] at h
    split at h
    · cases h
      simp only [List.findSome?_cons, Entries.get?_put_of_ne hne.symm]
    · obtain ⟨behind, hbehind, rfl⟩ := Option.map_eq_some_iff.mp h
      rw [List.findSome?_cons, List.findSome?_cons, ih hbehind]

/-- A name that no loop takes is bound by none. -/
theorem findSome?_of_assignLoop? (h : assignLoop? name value loops = none) :
    loops.findSome? (·.bindings.get? name) = none := by
  induction loops with
  | nil => rfl
  | cons f loops ih =>
    rw [assignLoop?] at h
    split at h
    · cases h
    · next hhas =>
      have hnone : f.bindings.get? name = none := by simpa [Entries.has] using hhas
      rw [List.findSome?_cons, hnone]
      exact ih (Option.map_eq_none_iff.mp h)

/-- **What is assigned is found.** -/
theorem lookup_assign_self (m : Memory) (name : Text) (value : Value) :
    (m.assign name value).lookup name = some value := by
  rw [assign]
  split
  · next hloops => rw [lookup, findSome?_assignLoop? hloops, Option.some_or]
  · next hloops =>
    rw [lookup, findSome?_of_assignLoop? hloops, Entries.get?_put_self, Option.some_or,
      Option.none_or]

/-- **Nothing else is changed.** -/
theorem lookup_assign_of_ne (m : Memory) (value : Value) (hne : other ≠ name) :
    (m.assign name value).lookup other = m.lookup other := by
  rw [assign]
  split
  · next hloops => simp only [lookup, findSome?_assignLoop?_of_ne hloops hne]
  · simp only [lookup, Entries.get?_put_of_ne hne.symm]

theorem length_loops_assign (m : Memory) (name : Text) (value : Value) :
    (m.assign name value).loops.length = m.loops.length := by
  have h := congrArg List.length (pending_assign m name value)
  simpa [pending] using h

end Memory

/-! ## Loops and what is laid out for them -/

/-- A loop of a plan: its first instruction, the last instruction of its body, and where it ends.
From what is laid out for it, nothing leads elsewhere. -/
structure Plan.Loop (plan : Plan) (header : LoopHeader) (head last stop : Nat) : Prop where
  each : plan.get? head = some (.each header (last + 1))
  next : plan.get? last = some (.next (head + 1) stop)
  head_lt : head < last
  last_lt : last < stop
  stays : ∀ p i t, head ≤ p → p < stop → plan.get? p = some i → t ∈ i.targets →
    head ≤ t ∧ t ≤ stop

/-- A loop has one end. -/
theorem Plan.Loop.unique {plan : Plan} {header header' : LoopHeader}
    {head last last' stop stop' : Nat} (h : plan.Loop header head last stop)
    (h' : plan.Loop header' head last' stop') : last' = last ∧ stop' = stop := by
  cases h.each.symm.trans h'.each
  cases h.next.symm.trans h'.next
  exact ⟨rfl, rfl⟩

/-- Each instruction between two positions that starts a loop is the first one of a loop. -/
def Plan.LoopsLaid (plan : Plan) (start stop : Nat) : Prop :=
  ∀ p header other, start ≤ p → p < stop → plan.get? p = some (.each header other) →
    ∃ last stop, plan.Loop header p last stop

section

variable {plan : Plan} {header : LoopHeader} {i : Instruction} {start middle stop : Nat}

theorem Plan.Loop.of_sits {body : List Piece} {no : Option (List Piece)}
    (hsits : Sits plan.get? start (Piece.emit start (.loop header body no))) :
    plan.Loop header start (start + 1 + Piece.widthAll body)
      (start + (Piece.loop header body no).width) := by
  have hplaced : Placed plan (Piece.sitesAll start [.loop header body no]) start
      (start + (Piece.loop header body no).width) := by
    have hall : Sits plan.get? start (Piece.emitAll start [.loop header body no]) := by
      simpa [Piece.emitAll] using hsits
    simpa [Piece.widthAll] using placed_emitAll _ hall
  have hlast : start + Piece.widthAll body + 2 = start + 1 + Piece.widthAll body + 1 := by omega
  have hstays : ∀ p i t, start ≤ p → p < start + (Piece.loop header body no).width →
      plan.get? p = some i → t ∈ i.targets →
      start ≤ t ∧ t ≤ start + (Piece.loop header body no).width :=
    fun p i t hle hlt hi ht => (hplaced.fits p i hle hlt hi).within t ht
  cases no with
  | none =>
    simp only [Piece.emit, Sits.cons_iff, Sits.snoc_iff, Piece.length_emitAll, hlast] at hsits
    refine ⟨hsits.1, ?_, by omega, by rw [Piece.width]; omega, hstays⟩
    rw [hsits.2.2, Piece.width, ← Nat.add_assoc, hlast]
  | some empty =>
    simp only [Piece.emit, Sits.cons_iff, Sits.append_iff, Piece.length_emitAll, hlast] at hsits
    refine ⟨hsits.1, ?_, by omega, by rw [Piece.width]; omega, hstays⟩
    rw [hsits.2.2.1, ← hlast, Piece.add_width_guarded]

namespace Plan.LoopsLaid

theorem nil (plan : Plan) (start : Nat) : plan.LoopsLaid start start := by
  intro p header other hle hlt
  omega

theorem single (hi : plan.get? start = some i) (heach : ∀ header other, i ≠ .each header other) :
    plan.LoopsLaid start (start + 1) := by
  intro p header other hle hlt hp
  obtain rfl : p = start := by omega
  exact absurd (Option.some.inj (hi.symm.trans hp)) (heach header other)

theorem head {last : Nat} (h : plan.Loop header start last stop) :
    plan.LoopsLaid start (start + 1) := by
  intro p header' other hle hlt hp
  obtain rfl : p = start := by omega
  cases h.each.symm.trans hp
  exact ⟨last, stop, h⟩

theorem append (h : plan.LoopsLaid start middle) (h' : plan.LoopsLaid middle stop) :
    plan.LoopsLaid start stop := by
  intro p header other hle hlt hp
  rcases Nat.lt_or_ge p middle with hmiddle | hmiddle
  · exact h p header other hle hmiddle hp
  · exact h' p header other hmiddle hlt hp

/-- A first instruction, what is behind it, an instruction behind that, and the rest. -/
theorem construct (hhead : plan.LoopsLaid start (start + 1))
    (hbody : plan.LoopsLaid (start + 1) middle) (hi : plan.get? middle = some i)
    (heach : ∀ header other, i ≠ .each header other) (hrest : plan.LoopsLaid (middle + 1) stop) :
    plan.LoopsLaid start stop :=
  hhead.append <| hbody.append <| (single hi heach).append hrest

/-- A piece, and then the pieces behind it. -/
theorem cons {piece : Piece} {rest : List Piece}
    (hsits : Sits plan.get? start (Piece.emitAll start (piece :: rest)))
    (hpiece : Sits plan.get? start (Piece.emit start piece) →
      plan.LoopsLaid start (start + piece.width))
    (hrest : Sits plan.get? (start + piece.width) (Piece.emitAll (start + piece.width) rest) →
      plan.LoopsLaid (start + piece.width) (start + piece.width + Piece.widthAll rest)) :
    plan.LoopsLaid start (start + Piece.widthAll (piece :: rest)) := by
  rw [Piece.emitAll, Sits.append_iff, Piece.length_emit] at hsits
  rw [Piece.widthAll, ← Nat.add_assoc]
  exact (hpiece hsits.1).append (hrest hsits.2)

end Plan.LoopsLaid

/-- **Loops are laid out as such**, wherever pieces stand. -/
theorem loopsLaid_emitAll (pieces : List Piece)
    (hsits : Sits plan.get? start (Piece.emitAll start pieces)) :
    plan.LoopsLaid start (start + Piece.widthAll pieces) := by
  induction pieces using Outline.induct generalizing start with
  | nil => exact .nil plan start
  | literal _ _ ih | output _ _ _ ih | exec _ _ ih =>
    exact .cons hsits (fun hsits => .single hsits.1 (by simp)) ih
  | single condition yes rest ihyes ih =>
    refine .cons hsits (fun hsits => ?_) ih
    have hyes := ihyes hsits.2
    rw [Nat.add_right_comm] at hyes
    exact (Plan.LoopsLaid.single hsits.1 (by simp)).append hyes
  | double condition yes no rest ihyes ihno ih =>
    refine .cons hsits (fun hsits => ?_) ih
    simp only [Piece.emit, Sits.cons_iff, Sits.append_iff, Piece.length_emitAll] at hsits
    obtain ⟨hbranch, hyes, hjump, hno⟩ := hsits
    have hother : start + Piece.widthAll yes + 2 = start + 1 + Piece.widthAll yes + 1 := by omega
    rw [← Piece.add_width_double, hother]
    exact .construct (.single hbranch (by simp)) (ihyes hyes) hjump (by simp)
      (ihno (hother ▸ hno))
  | plain header body rest ihbody ih =>
    refine .cons hsits (fun hsits => ?_) ih
    have hloop := Plan.Loop.of_sits hsits
    simp only [Piece.emit, Sits.cons_iff, Sits.snoc_iff, Piece.length_emitAll] at hsits
    obtain ⟨-, hbody, hnext⟩ := hsits
    have hstop : start + (Piece.loop header body none).width
        = start + 1 + Piece.widthAll body + 1 := by
      rw [Piece.width]
      omega
    exact .construct (.head hloop) (ihbody hbody) hnext (by simp) (hstop ▸ .nil plan _)
  | guarded header body empty rest ihbody ihempty ih =>
    refine .cons hsits (fun hsits => ?_) ih
    have hloop := Plan.Loop.of_sits hsits
    simp only [Piece.emit, Sits.cons_iff, Sits.append_iff, Piece.length_emitAll] at hsits
    obtain ⟨-, hbody, hnext, hempty⟩ := hsits
    have hother : start + Piece.widthAll body + 2 = start + 1 + Piece.widthAll body + 1 := by omega
    rw [← Piece.add_width_guarded, hother]
    exact .construct (.head hloop) (ihbody hbody) hnext (by simp) (ihempty (hother ▸ hempty))
  | repetition condition body rest ihbody ih =>
    refine .cons hsits (fun hsits => ?_) ih
    simp only [Piece.emit, Sits.cons_iff, Sits.snoc_iff, Piece.length_emitAll] at hsits
    obtain ⟨hhead, hbody, hjump⟩ := hsits
    have hstop : start + (Piece.repetition condition body).width
        = start + 1 + Piece.widthAll body + 1 := by
      rw [Piece.width]
      omega
    exact .construct (.single hhead (by simp)) (ihbody hbody) hjump (by simp)
      (hstop ▸ .nil plan _)

end

/-! ## Runs through a loop -/

namespace Renderer

/-- Where a run arrives first at a position, in some number of steps at most. -/
def arrive? (stop : Nat) : (steps : Nat) → Renderer → Option Renderer
  | 0, _ => none
  | steps + 1, r => do
    let r' ← r.next?
    if r'.position = stop then return r' else arrive? stop steps r'

/-- There is an item for the loop to start with. -/
def HasItem (r : Renderer) (header : LoopHeader) : Prop :=
  ∃ value item items, r.eval header.items = .ok value ∧ value.iterate = .ok (item :: items)

variable {r r' : Renderer}

/-- Where a step leads: to what its instruction names, or on to the next instruction, unless the
instruction ends a body. -/
theorem Move.position (h : Move r r') : ∃ i, r.plan.get? r.position = some i
    ∧ (r'.position ∈ i.targets
      ∨ r'.position = r.position + 1 ∧ ∀ body exit, i ≠ .next body exit) := by
  cases h with
  | go hi _ hnext _ hposition =>
    exact ⟨_, hi, hposition.symm.imp_right fun hposition => ⟨hposition, hnext⟩⟩
  | enter f hi => exact ⟨_, hi, .inr ⟨rfl, by simp⟩⟩
  | skip hi => exact ⟨_, hi, .inl (by simp [Instruction.targets, goto])⟩
  | again f' hi | leave hi | stray hi => exact ⟨_, hi, .inl (by simp [Instruction.targets, goto])⟩

/-- Only loops and statements change the memory. -/
theorem memory_of_next? (h : r.next? = some r') {i : Instruction}
    (hi : r.plan.get? r.position = some i) (heach : ∀ header other, i ≠ .each header other)
    (hnext : ∀ body exit, i ≠ .next body exit) (hexec : ∀ statements, i ≠ .exec statements) :
    r'.memory = r.memory := by
  have hp : Source.pull r = r.step := rfl
  rw [step, hi] at hp
  cases i with
  | literal text =>
    rw [next?, hp] at h
    cases h
    rfl
  | output e escape =>
    simp only at hp
    split at hp
    · rw [next?, hp] at h
      cases h
      rfl
    · rw [next?, hp] at h
      cases h
  | branch condition other | repetition condition other =>
    obtain ⟨position, rfl, -⟩ := test_eq_ok (next?_silently hp h)
    rfl
  | jump target =>
    rw [next?, hp] at h
    cases h
    rfl
  | each header other => exact absurd rfl (heach header other)
  | next body exit => exact absurd rfl (hnext body exit)
  | exec statements => exact absurd rfl (hexec statements)

/-- A loop with an item is entered. -/
theorem HasItem.position_of_next? {header : LoopHeader} {other : Nat} (hitem : r.HasItem header)
    (hi : r.plan.get? r.position = some (.each header other)) (h : r.next? = some r') :
    r'.position = r.position + 1 := by
  obtain ⟨value, item, items, hvalue, hitems⟩ := hitem
  have hp : Source.pull r = silently (r.enterLoop header other) := by
    change r.step = _
    rw [step, hi]
  have henter := next?_silently hp h
  rw [enterLoop, hvalue] at henter
  simp only [bind, Except.bind, hitems, LoopFrame.advance] at henter
  cases hbind : LoopFrame.bind header.targets item [] with
  | error e =>
    rw [hbind] at henter
    cases henter
  | ok names =>
    rw [hbind] at henter
    cases henter
    rfl

end Renderer

/-! ### What stays under the frames of a loop -/

/-- A memory is another one with loops put upon it. -/
structure Memory.Extends (base m : Memory) : Prop where
  loops : base.loops <:+ m.loops
  locals : m.locals = base.locals
  context : m.context = base.context

namespace Memory.Extends

variable {base m : Memory} {r r' : Renderer}

theorem refl (m : Memory) : Extends m m := ⟨List.suffix_rfl, rfl, rfl⟩

/-- Without more loops, it is the same memory. -/
theorem eq (h : Extends base m) (hlength : m.loops.length ≤ base.loops.length) : m = base := by
  have hloops := h.loops.eq_of_length_le hlength
  have hlocals := h.locals
  have hcontext := h.context
  cases base
  cases hloops
  cases hlocals
  cases hcontext
  rfl

/-- A step without statements leaves what is under the loops, if an end of a body finds a loop
upon it. -/
theorem next? (h : Extends base r.memory) (hnext : r.next? = some r')
    (hexec : ∀ statements, r.plan.get? r.position ≠ some (.exec statements))
    (hdeep : ∀ body exit, r.plan.get? r.position = some (.next body exit) →
      base.loops.length < r.memory.loops.length) : Extends base r'.memory := by
  have hbehind : ∀ {body exit f loops}, r.plan.get? r.position = some (.next body exit) →
      r.memory.loops = f :: loops → base.loops <:+ loops := by
    intro body exit f loops hi hloops
    have hlt := hdeep body exit hi
    have hsuffix := h.loops
    rw [hloops] at hlt hsuffix
    rcases List.suffix_cons_iff.mp hsuffix with heq | hsuffix
    · rw [heq] at hlt
      exact absurd hlt (Nat.lt_irrefl _)
    · exact hsuffix
  cases Renderer.move_of_next? hnext with
  | go hi heach hnotNext =>
    have hmemory := Renderer.memory_of_next? hnext hi heach hnotNext
      fun statements heq => hexec statements (heq ▸ hi)
    exact hmemory ▸ h
  | enter f => exact ⟨h.loops.trans (List.suffix_cons f _), h.locals, h.context⟩
  | skip => exact h
  | again f' hi hloops =>
    exact ⟨(hbehind hi hloops).trans (List.suffix_cons f' _), h.locals, h.context⟩
  | leave hi hloops => exact ⟨hbehind hi hloops, h.locals, h.context⟩
  | @stray body exit hi hloops =>
    have hlt := hdeep body exit hi
    rw [hloops] at hlt
    exact absurd hlt (Nat.not_lt_zero _)

end Memory.Extends

/-! ### Loops on the stack -/

namespace Tracks

variable {plan : Plan} {origins origins' : List Nat} {r r' : Renderer}

theorem length_loops (h : Tracks plan origins r) : r.memory.loops.length = origins.length := by
  rw [← h.targets.length_eq, Renderer.targets, List.length_map]

theorem nodup (h : Tracks plan origins r) : origins.Nodup := h.sorted.imp Nat.ne_of_gt

/-- Where no other loops are around, no more loops are on the stack. -/
theorem length_le (h : Tracks plan origins r) (h' : Tracks plan origins' r')
    (hsub : ∀ head, plan.Encloses head r.position → plan.Encloses head r'.position) :
    r.memory.loops.length ≤ r'.memory.loops.length := by
  have hmem : origins ⊆ origins' := fun head hhead =>
    (h'.encloses head).mpr (hsub head ((h.encloses head).mp hhead))
  rw [h.length_loops, h'.length_loops]
  exact (h.nodup.subperm hmem).length_le

/-- Where a loop is around besides, there are more on the stack. -/
theorem length_lt (h : Tracks plan origins r) (h' : Tracks plan origins' r')
    (hsub : ∀ head, plan.Encloses head r.position → plan.Encloses head r'.position) {own : Nat}
    (hown : plan.Encloses own r'.position) (hnot : ¬plan.Encloses own r.position) :
    r.memory.loops.length < r'.memory.loops.length := by
  have hnodup : (own :: origins).Nodup :=
    List.nodup_cons.mpr ⟨fun hmem => hnot ((h.encloses own).mp hmem), h.nodup⟩
  have hmem : own :: origins ⊆ origins' := by
    refine List.cons_subset.mpr ⟨(h'.encloses own).mpr hown, fun head hhead => ?_⟩
    exact (h'.encloses head).mpr (hsub head ((h.encloses head).mp hhead))
  rw [h.length_loops, h'.length_loops]
  exact (hnodup.subperm hmem).length_le

end Tracks

/-! ### Around a loop -/

namespace Plan.Loop

variable {plan : Plan} {header : LoopHeader} {head last stop : Nat} {sites : List Site}
  {origins origins' : List Nat} {r r' : Renderer}

/-- The loops around the place behind a loop are those around its start. -/
theorem encloses_stop (h : plan.Loop header head last stop)
    (hplaced : Placed plan sites 0 plan.size) (outer : Nat) :
    plan.Encloses outer stop ↔ plan.Encloses outer head := by
  rw [hplaced.encloses_leave h.next, ← hplaced.encloses_again h.next,
    hplaced.encloses_enter h.each]
  constructor
  · rintro ⟨hhead | henclosed, hne⟩
    · exact absurd hhead hne
    · exact henclosed
  · intro henclosed
    obtain ⟨_, _, _, hlt, -⟩ := hplaced.encloses_iff.mp henclosed
    exact ⟨.inr henclosed, Nat.ne_of_lt hlt⟩

/-- The loops around the start of a loop are around all that is laid out for it. -/
theorem encloses_of_mem (h : plan.Loop header head last stop)
    (hplaced : Placed plan sites 0 plan.size) {outer p : Nat} (hle : head ≤ p) (hlt : p < stop)
    (hhead : plan.Encloses outer head) : plan.Encloses outer p := by
  obtain ⟨outerHeader, other, heach, hlow, -⟩ := hplaced.encloses_iff.mp hhead
  obtain ⟨_, _, heach', -, hhigh⟩ :=
    hplaced.encloses_iff.mp ((h.encloses_stop hplaced outer).mpr hhead)
  cases heach.symm.trans heach'
  exact hplaced.encloses_iff.mpr ⟨outerHeader, other, heach, by omega, by omega⟩

/-- The end of a body in what is laid out for a loop is that of the loop, or of one inside of it. So
it finds more loops on the stack than there were before. -/
theorem length_lt (h : plan.Loop header head last stop) (hplaced : Placed plan sites 0 plan.size)
    (ht : Tracks plan origins r) (hr : r.position = head) (ht' : Tracks plan origins' r')
    (hle : head ≤ r'.position) (hlt : r'.position < stop) {body exit : Nat}
    (hi : plan.get? r'.position = some (.next body exit)) :
    r.memory.loops.length < r'.memory.loops.length := by
  obtain ⟨own, ownHeader, -, hown, -, heach⟩ := hplaced.each_of_next hi
  have hlow : head ≤ own := by
    by_contra hgt
    -- a loop around the start goes on behind the end
    have hhead : plan.Encloses own head :=
      hplaced.encloses_iff.mpr ⟨ownHeader, _, heach, by omega, by omega⟩
    obtain ⟨_, _, heach', -, hhigh⟩ :=
      hplaced.encloses_iff.mp ((h.encloses_stop hplaced own).mpr hhead)
    cases heach.symm.trans heach'
    omega
  have hencloses : plan.Encloses own r'.position :=
    hplaced.encloses_iff.mpr ⟨ownHeader, _, heach, hown, Nat.lt_succ_self _⟩
  refine ht.length_lt ht' (fun outer houter => ?_) hencloses ?_
  · exact h.encloses_of_mem hplaced hle hlt (hr ▸ houter)
  · rw [hr]
    intro henclosed
    obtain ⟨_, _, _, hown', -⟩ := hplaced.encloses_iff.mp henclosed
    omega

end Plan.Loop

/-! ### Regions without statements -/

/-- The instruction runs statements. -/
def Instruction.isExec : Instruction → Bool
  | exec _ => true
  | literal _ | output _ _ | branch _ _ | jump _ | each _ _ | next _ _ | repetition _ _ => false

/-- There is no statement between two positions. -/
def Plan.ExecFree (plan : Plan) (start stop : Nat) : Prop :=
  ∀ p, p < stop → start < p → (plan.get? p).any Instruction.isExec = false

instance (plan : Plan) (start stop : Nat) : Decidable (plan.ExecFree start stop) :=
  inferInstanceAs (Decidable (∀ p, p < stop → _))

theorem Plan.ExecFree.ne_exec {plan : Plan} {start stop p : Nat} (h : plan.ExecFree start stop)
    (hstart : start < p) (hstop : p < stop) (statements : List Statement) :
    plan.get? p ≠ some (.exec statements) := by
  intro hi
  have hfree := h p hstop hstart
  rw [hi] at hfree
  cases hfree

/-- A run in a region meets no statement, and stays in the region until it arrives at a position. -/
structure Plan.Confines (plan : Plan) (region : Nat → Prop) (stop : Nat) : Prop where
  execFree : ∀ p statements, region p → plan.get? p ≠ some (.exec statements)
  leads : ∀ p i t, region p → plan.get? p = some i →
    (t ∈ i.targets ∨ t = p + 1 ∧ ∀ body exit, i ≠ .next body exit) → region t ∨ t = stop

namespace Plan.Loop

variable {plan : Plan} {header : LoopHeader} {head last stop : Nat} {sites : List Site}
  {origins origins' : List Nat} {r r' final : Renderer} {region : Nat → Prop}

/-- Without statements, all that is laid out for a loop is such a region. -/
theorem confines (h : plan.Loop header head last stop) (hbody : plan.ExecFree head last)
    (hempty : plan.ExecFree last stop) : plan.Confines (fun p => head ≤ p ∧ p < stop) stop where
  execFree := by
    rintro p statements ⟨hle, hlt⟩ hi
    rcases Nat.eq_or_lt_of_le hle with rfl | hhead
    · cases hi.symm.trans h.each
    · rcases Nat.lt_trichotomy p last with hlast | rfl | hlast
      · exact hbody.ne_exec hhead hlast statements hi
      · cases hi.symm.trans h.next
      · exact hempty.ne_exec hlast hlt statements hi
  leads := by
    rintro p i t ⟨hle, hlt⟩ hi (ht | ⟨rfl, -⟩)
    · have hstays := h.stays p i t hle hlt hi ht
      omega
    · omega

/-- Without statements, the body of a loop is such a region, since only its last instruction leads
out of it. -/
theorem confines_body (h : plan.Loop header head last stop)
    (hplaced : Placed plan sites 0 plan.size) (hbody : plan.ExecFree head last) :
    plan.Confines (fun p => head < p ∧ p ≤ last) stop where
  execFree := by
    rintro p statements ⟨hlt, hle⟩ hi
    rcases Nat.eq_or_lt_of_le hle with rfl | hlast
    · cases hi.symm.trans h.next
    · exact hbody.ne_exec hlt hlast statements hi
  leads := by
    rintro p i t ⟨hlt, hle⟩ hi ht
    have hhead := h.head_lt
    rcases Nat.eq_or_lt_of_le hle with rfl | hlast
    · cases hi.symm.trans h.next
      rcases ht with ht | ⟨-, hne⟩
      · simp only [Instruction.targets, List.mem_cons, List.not_mem_nil, or_false] at ht
        omega
      · exact absurd rfl (hne _ _)
    · rcases ht with ht | ⟨rfl, -⟩
      · have hstays := hplaced.stays h.each hi hlt (by omega) ht
        omega
      · omega

/-- A run through such a region leaves the memory from before the loop under the loops upon it. -/
theorem extends_of_arrive? (h : plan.Loop header head last stop)
    (hplaced : Placed plan sites 0 plan.size) (ht : Tracks plan origins r)
    (hr : r.position = head) (hregion : ∀ p, region p → head ≤ p ∧ p < stop)
    (hconfines : plan.Confines region stop) (ht' : Tracks plan origins' r')
    (hr' : region r'.position) (hextends : r.memory.Extends r'.memory)
    {steps : Nat} (harrive : r'.arrive? stop steps = some final) :
    ∃ origins, Tracks plan origins final ∧ final.position = stop
      ∧ r.memory.Extends final.memory := by
  -- one step of the run, from the region to the region or to the end
  have hstep : ∀ {origins' r' r''}, Tracks plan origins' r' → region r'.position →
      r.memory.Extends r'.memory → r'.next? = some r'' →
      (∃ origins, Tracks plan origins r'') ∧ (region r''.position ∨ r''.position = stop)
        ∧ r.memory.Extends r''.memory := by
    intro origins' r' r'' ht' hr' hextends hnext
    have hmove := Renderer.move_of_next? hnext
    have hbounds := hregion _ hr'
    obtain ⟨i, hi, hposition⟩ := hmove.position
    rw [ht'.runs] at hi
    refine ⟨⟨_, ht'.move hplaced hmove⟩, hconfines.leads _ i _ hr' hi hposition, ?_⟩
    refine hextends.next? hnext (fun statements => ?_) fun body exit hend => ?_
    · rw [ht'.runs]
      exact hconfines.execFree _ statements hr'
    · rw [ht'.runs] at hend
      exact h.length_lt hplaced ht hr ht' hbounds.1 hbounds.2 hend
  induction steps generalizing origins' r' with
  | zero => cases harrive
  | succ steps ih =>
    obtain ⟨r'', hnext, hrest⟩ := Option.bind_eq_some_iff.mp harrive
    obtain ⟨⟨origins'', ht''⟩, hposition, hextends'⟩ := hstep ht' hr' hextends hnext
    split at hrest
    · next hstop =>
      cases hrest
      exact ⟨origins'', ht'', hstop, hextends'⟩
    · next hstop => exact ih ht'' (hposition.resolve_right hstop) hextends' hrest

/-- **A loop without statements leaves the memory as it was**: if there is none in its body, and
none in its `empty` part or an item to start with, the memory behind the loop is that from before
it. -/
theorem memory_eq (h : plan.Loop header head last stop) (hplaced : Placed plan sites 0 plan.size)
    (hbody : plan.ExecFree head last) (ht : Tracks plan origins r) (hr : r.position = head)
    (hempty : plan.ExecFree last stop ∨ r.HasItem header) {steps : Nat}
    (harrive : r.arrive? stop steps = some r') : r'.memory = r.memory := by
  have hend : ∃ origins, Tracks plan origins r' ∧ r'.position = stop
      ∧ r.memory.Extends r'.memory := by
    have hhead := h.head_lt
    have hlast := h.last_lt
    rcases hempty with hempty | hitem
    · exact h.extends_of_arrive? hplaced ht hr (fun p hp => hp) (h.confines hbody hempty) ht
        ⟨Nat.le_of_eq hr.symm, by omega⟩ (.refl r.memory) harrive
    · -- the first step leads into the body, and the rest of the run stays there
      have heach : r.plan.get? r.position = some (.each header (last + 1)) := by
        rw [ht.runs, hr, h.each]
      have hfirst : ∀ {r₁}, r.next? = some r₁ →
          r₁.position = head + 1 ∧ r.memory.Extends r₁.memory := by
        intro r₁ hnext
        refine ⟨hr ▸ hitem.position_of_next? heach hnext, (Memory.Extends.refl _).next? hnext ?_ ?_⟩
        · intro statements hi
          cases heach.symm.trans hi
        · intro body exit hi
          cases heach.symm.trans hi
      cases steps with
      | zero => cases harrive
      | succ steps =>
        obtain ⟨r₁, hnext, hrest⟩ := Option.bind_eq_some_iff.mp harrive
        obtain ⟨hposition, hextends⟩ := hfirst hnext
        rw [if_neg (by omega)] at hrest
        have hregion : ∀ p, head < p ∧ p ≤ last → head ≤ p ∧ p < stop := by
          intro p hp
          omega
        exact h.extends_of_arrive? hplaced ht hr hregion (h.confines_body hplaced hbody)
          (ht.move hplaced (Renderer.move_of_next? hnext)) ⟨by omega, by omega⟩ hextends hrest
  obtain ⟨origins', ht', hstop, hextends⟩ := hend
  refine hextends.eq (ht'.length_le ht fun outer houter => ?_)
  rw [hstop, h.encloses_stop hplaced] at houter
  rwa [hr]

end Plan.Loop

/-! ## Compiled templates -/

/-- Where a compiled template starts a loop, there is one. -/
theorem Plan.exists_loop {o : Options} {source : Text} {plan : Plan}
    (hplan : Plan.compile o source = .ok plan) {header : LoopHeader} {head other : Nat}
    (heach : plan.get? head = some (.each header other)) :
    ∃ last stop, plan.Loop header head last stop := by
  obtain ⟨outline, modes, -, rfl⟩ := Plan.exists_outline hplan
  have hlt : head < 0 + Piece.widthAll outline := by
    have hsize := Plan.lt_size_of_get? heach
    simpa [Outline.plan, Plan.size] using hsize
  exact loopsLaid_emitAll outline (Plan.sits _) head header other (Nat.zero_le head) hlt heach

/-- Where a loop leads that has no items. -/
def Instruction.skip? : Instruction → Option Nat
  | each _ other => some other
  | literal _ | output _ _ | branch _ _ | jump _ | next _ _ | repetition _ _ | exec _ => none

/-- A loop is known by where its first instruction and the last one of its body lead. -/
theorem Plan.exists_loop_of {o : Options} {source : Text} {plan : Plan}
    (hplan : Plan.compile o source = .ok plan) {head last body stop : Nat}
    (hhead : (plan.get? head).bind Instruction.skip? = some (last + 1))
    (hlast : (plan.get? last).map Instruction.targets = some [body, stop]) :
    ∃ header, plan.Loop header head last stop := by
  obtain ⟨i, hi, hskip⟩ := Option.bind_eq_some_iff.mp hhead
  cases i with
  | each header other =>
    obtain ⟨last', stop', hloop⟩ := Plan.exists_loop hplan hi
    cases hskip
    cases hi.symm.trans hloop.each
    rw [hloop.next] at hlast
    cases hlast
    exact ⟨header, hloop⟩
  | _ => cases hskip

/-- **Names are scoped.** Whatever a memory holds, a name that is assigned leads to its value, every
other name leads where it led before, and there are as many loops as before. And in every run of
a compiled template, each name leads to the same behind a loop as before it, whatever names the
loop and those inside of it bind, if there is no statement in the body of the loop, and none in
its `empty` part either unless the loop has an item to start with. -/
theorem Plan.names_scoped {o : Options} {source : Text} {plan : Plan}
    (hplan : Plan.compile o source = .ok plan) :
    (∀ (m : Memory) (name : Text) (value : Value),
      (m.assign name value).lookup name = some value
        ∧ (∀ other, other ≠ name → (m.assign name value).lookup other = m.lookup other)
        ∧ (m.assign name value).loops.length = m.loops.length)
    ∧ ∀ head header other, plan.get? head = some (.each header other) →
      ∃ last stop, plan.Loop header head last stop
        ∧ (plan.ExecFree head last → ∀ (context : Context) (steps : Nat) (origins : List Nat)
            (r : Renderer), Renderer.trail? plan context steps = some (origins, r) →
          r.position = head → plan.ExecFree last stop ∨ r.HasItem header →
          ∀ (more : Nat) (r' : Renderer), r.arrive? stop more = some r' →
          ∀ name, r'.memory.lookup name = r.memory.lookup name) := by
  refine ⟨fun m name value =>
    ⟨m.lookup_assign_self name value, ?_, m.length_loops_assign name value⟩,
    fun head header other heach => ?_⟩
  · intro other hne
    exact m.lookup_assign_of_ne value hne
  · obtain ⟨last, stop, hloop⟩ := Plan.exists_loop hplan heach
    refine ⟨last, stop, hloop, ?_⟩
    intro hbody context steps origins r hr hhead hempty more r' harrive name
    obtain ⟨outline, modes, -, rfl⟩ := Plan.exists_outline hplan
    have htracks := Tracks.of_trail? outline.placed hr
    rw [hloop.memory_eq outline.placed hbody htracks hhead hempty harrive]

/-- A loop that binds a name which the context binds too, with another loop inside that binds it
again. -/
theorem Plan.names_scoped_shadowing :
    let source := "{% for x in xs %}{% for x in [x] %}{{ x }}{% endfor %}{% endfor %}{{ x }}".toList
    let context : Context := [("x".toList, .int 0), ("xs".toList, .list [.int 1, .int 2])]
    ∃ plan header r', Plan.compile {} source = .ok plan
      ∧ plan.Loop header 0 4 5 ∧ plan.ExecFree 0 4 ∧ plan.ExecFree 4 5
      ∧ Renderer.trail? plan context 0 = some ([], .start plan context)
      ∧ (Renderer.start plan context).arrive? 5 10 = some r'
      ∧ ∀ name, r'.memory.lookup name = (Renderer.start plan context).memory.lookup name := by
  intro source context
  have hrun : ((Plan.compile {} source).toOption.bind fun plan =>
      ((Renderer.start plan context).arrive? 5 10).map fun _ =>
        ((plan.get? 0).bind Instruction.skip?, (plan.get? 4).map Instruction.targets,
          decide (plan.ExecFree 0 4 ∧ plan.ExecFree 4 5)))
      = some (some 5, some [1, 5], true) := by
    decide +kernel
  obtain ⟨plan, hplan, hrun⟩ := Option.bind_eq_some_iff.mp hrun
  obtain ⟨r', harrive, hdata⟩ := Option.map_eq_some_iff.mp hrun
  obtain ⟨hfirst, hrest⟩ := Prod.mk.inj hdata
  obtain ⟨hlast, hfree⟩ := Prod.mk.inj hrest
  obtain ⟨hbody, hempty⟩ := of_decide_eq_true hfree
  have hcompile := eq_ok_of_toOption hplan
  obtain ⟨header, hloop⟩ := Plan.exists_loop_of hcompile hfirst hlast
  obtain ⟨last, stop, hloop', hkeeps⟩ := (Plan.names_scoped hcompile).2 0 header 5 hloop.each
  obtain ⟨rfl, rfl⟩ := hloop.unique hloop'
  refine ⟨plan, header, r', hcompile, hloop, hbody, hempty, rfl, harrive, ?_⟩
  exact hkeeps hbody context 0 [] _ rfl rfl (.inl hempty) 10 r' harrive

/-- A statement in the `empty` part writes a name for what comes behind the loop, though there is
none in its body. -/
theorem Plan.names_not_scoped_empty :
    let source := "{% for x in [] %}{% empty %}{% exec y = 1 %}{% endfor %}{{ y }}".toList
    let context : Context := [("y".toList, .int 0)]
    ∃ plan header r', Plan.compile {} source = .ok plan
      ∧ plan.Loop header 0 1 3 ∧ plan.ExecFree 0 1
      ∧ Renderer.trail? plan context 0 = some ([], .start plan context)
      ∧ (Renderer.start plan context).arrive? 3 10 = some r'
      ∧ r'.memory.lookup "y".toList ≠ (Renderer.start plan context).memory.lookup "y".toList := by
  intro source context
  have hrun : ((Plan.compile {} source).toOption.bind fun plan =>
      ((Renderer.start plan context).arrive? 3 10).map fun r' =>
        ((plan.get? 0).bind Instruction.skip?, (plan.get? 1).map Instruction.targets,
          decide (plan.ExecFree 0 1 ∧ (r'.memory.lookup "y".toList).map Value.text
            ≠ ((Renderer.start plan context).memory.lookup "y".toList).map Value.text)))
      = some (some 2, some [1, 3], true) := by
    decide +kernel
  obtain ⟨plan, hplan, hrun⟩ := Option.bind_eq_some_iff.mp hrun
  obtain ⟨r', harrive, hdata⟩ := Option.map_eq_some_iff.mp hrun
  obtain ⟨hfirst, hrest⟩ := Prod.mk.inj hdata
  obtain ⟨hlast, hdecide⟩ := Prod.mk.inj hrest
  obtain ⟨hbody, hne⟩ := of_decide_eq_true hdecide
  have hcompile := eq_ok_of_toOption hplan
  obtain ⟨header, hloop⟩ := Plan.exists_loop_of hcompile hfirst hlast
  refine ⟨plan, header, r', hcompile, hloop, hbody, rfl, harrive, fun heq => hne ?_⟩
  rw [heq]

end TemplateEngine

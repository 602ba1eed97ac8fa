import TemplateEngine.Outline.Layout
import TemplateEngine.Proofs.Answers
import TemplateEngine.Proofs.Names
import TemplateEngine.Proofs.Placement

/-!
# A renderer does what the outline says

A renderer that stands at the first instruction of some pieces runs as their trace says
(`Renderer.realizes_runAll`): it yields the same fragments, and then stands behind the pieces with
the same names in scope, or stops with the same error, or goes on for a long time. The items
still to come of the loops around are the same before and behind.

The proof is by induction over the outline. What each control structure does is said once, for
any bodies that are realized: `Realizes.test`, `Realizes.eachItem` and `Realizes.rounds`.
-/

namespace TemplateEngine

theorem Trace.andThen_done (t : Trace) : t.andThen .done = t := by
  obtain ⟨fragments, finish⟩ := t
  cases finish <;> simp [andThen, done]

namespace Renderer

/-! ## Where a renderer stands -/

/-- A renderer stands at a position of a plan, with items of the loops around still to come and
names in scope. -/
structure Stands (plan : Plan) (position : Nat) (pending : Pending) (s : Scopes) (r : Renderer) :
    Prop where
  plan : r.plan = plan
  position : r.position = position
  pending : r.memory.pending = pending
  scopes : r.memory.scopes = s

/-- How a renderer ends up after `n` steps. -/
def Ends (plan : Plan) (stop : Nat) (pending : Pending) (most n : Nat) (last : Renderer) :
    Finish → Prop
  | .done s => Stands plan stop pending s last
  | .failed e => Source.pull last = .failed e
  | .cut => most ≤ n

/-- A renderer does what a trace says, and then stands at a position of the plan with these
items still to come. If the trace is cut, it takes at least `most` steps. -/
def Realizes (plan : Plan) (stop : Nat) (pending : Pending) (most : Nat) (r : Renderer)
    (t : Trace) : Prop :=
  ∃ n last, Source.Runs n r t.fragments last ∧ Ends plan stop pending most n last t.finish

variable {plan : Plan} {most stop position : Nat} {pending : Pending} {s : Scopes}
  {r r' : Renderer} {t : Trace}

/-- The number of steps matters to a run that is cut only. -/
theorem Ends.imp {n most' n' : Nat} {last : Renderer} {finish : Finish}
    (h : Ends plan stop pending most n last finish) (hle : most ≤ n → most' ≤ n') :
    Ends plan stop pending most' n' last finish := by
  cases finish with
  | done s => exact h
  | failed e => exact h
  | cut => exact hle h

namespace Realizes

theorem done (h : Stands plan stop pending s r) : Realizes plan stop pending most r (.done s) :=
  ⟨0, r, .refl r, h⟩

theorem failed {e : RenderError} (hp : Source.pull r = .failed e) :
    Realizes plan stop pending most r ⟨[], .failed e⟩ :=
  ⟨0, r, .refl r, hp⟩

theorem write {text : Text} (hp : Source.pull r = .fragment text r')
    (h : Stands plan stop pending s r') : Realizes plan stop pending most r (.write s text) :=
  ⟨1, r', .fragment hp (.refl r'), h⟩

/-- A step without output counts. -/
theorem busy (hp : Source.pull r = .busy r') (h : Realizes plan stop pending most r' t) :
    Realizes plan stop pending (most + 1) r t := by
  obtain ⟨n, last, hruns, hends⟩ := h
  exact ⟨n + 1, last, .busy hp hruns, hends.imp Nat.succ_le_succ⟩

theorem mono {fewer : Nat} (hle : fewer ≤ most) (h : Realizes plan stop pending most r t) :
    Realizes plan stop pending fewer r t := by
  obtain ⟨n, last, hruns, hends⟩ := h
  exact ⟨n, last, hruns, hends.imp (Nat.le_trans hle)⟩

/-- One run after another: the second starts where the first ends. -/
theorem andThen {middle : Nat} {inner : Pending} {after : Scopes → Trace}
    (h : Realizes plan middle inner most r t)
    (hafter : ∀ s r, Stands plan middle inner s r → Realizes plan stop pending most r (after s)) :
    Realizes plan stop pending most r (t.andThen after) := by
  obtain ⟨n, last, hruns, hends⟩ := h
  obtain ⟨fragments, finish⟩ := t
  cases finish with
  | done s =>
    obtain ⟨m, final, hruns', hends'⟩ := hafter s last hends
    exact ⟨n + m, final, hruns.trans hruns', hends'.imp fun hle => Nat.le_add_left_of_le hle⟩
  | failed e => exact ⟨n, last, hruns, hends⟩
  | cut => exact ⟨n, last, hruns, hends⟩

end Realizes

/-! ## Instructions -/

namespace Stands

theorem fetch (h : Stands plan position pending s r) {i : Instruction}
    (hi : plan.get? position = some i) : r.plan.get? r.position = some i := by
  rw [h.plan, h.position, hi]

theorem goto (h : Stands plan position pending s r) (position' : Nat) :
    Stands plan position' pending s (r.goto position') :=
  ⟨h.plan, rfl, h.pending, h.scopes⟩

theorem goOn (h : Stands plan position pending s r) :
    Stands plan (position + 1) pending s (r.goto (r.position + 1)) := by
  rw [h.position]
  exact h.goto (position + 1)

theorem eval (h : Stands plan position pending s r) (e : Expr) : r.eval e = e.eval s.lookup := by
  rw [← h.scopes, Memory.lookup_scopes]
  rfl

/-- The innermost loop of a renderer, from what is pending. -/
theorem loops {targets : List Text} {items : List Value}
    (h : Stands plan position ((targets, items) :: pending) s r) :
    ∃ names loops, r.memory.loops = ⟨targets, items, names⟩ :: loops
      ∧ s.loops.headD [] = names
      ∧ Memory.pending { r.memory with loops := loops } = pending
      ∧ Memory.scopes { r.memory with loops := loops } = s.leaveLoop := by
  have hpending := h.pending
  have hscopes := h.scopes
  cases hl : r.memory.loops with
  | nil =>
    rw [Memory.pending, hl] at hpending
    cases hpending
  | cons f loops =>
    obtain ⟨targets', items', names⟩ := f
    simp only [Memory.pending, hl, List.map_cons, List.cons.injEq, Prod.mk.injEq] at hpending
    obtain ⟨⟨rfl, rfl⟩, hpending⟩ := hpending
    subst hscopes
    refine ⟨names, loops, rfl, ?_, hpending, ?_⟩
    · simp [Memory.scopes, hl]
    · simp [Memory.scopes, Scopes.leaveLoop, hl]

end Stands

namespace Realizes

theorem literal {text : Text} (h : Stands plan position pending s r)
    (hi : plan.get? position = some (.literal text)) :
    Realizes plan (position + 1) pending most r (.write s text) := by
  refine .write ?_ h.goOn
  change r.step = _
  rw [step, h.fetch hi]

theorem output {value : Expr} {escape : Option Language} (h : Stands plan position pending s r)
    (hi : plan.get? position = some (.output value escape)) :
    Realizes plan (position + 1) pending most r
      (.attempt (s.write value escape) (.write s)) := by
  have hwrite : r.write value escape = s.write value escape := by
    rw [Renderer.write, h.eval]
    rfl
  cases hw : s.write value escape with
  | error e =>
    refine .failed ?_
    change r.step = _
    rw [step, h.fetch hi]
    simp only [hwrite, hw]
  | ok text =>
    refine .write ?_ h.goOn
    change r.step = _
    rw [step, h.fetch hi]
    simp only [hwrite, hw]

theorem exec {statements : List Statement} (h : Stands plan position pending s r)
    (hi : plan.get? position = some (.exec statements)) :
    Realizes plan (position + 1) pending most r
      (.attempt (Statement.runAll s statements) .done) := by
  have hpull : Source.pull r = silently (r.exec statements) := by
    change r.step = _
    rw [step, h.fetch hi]
  have hrun := Memory.scopes_runAll r.memory statements
  rw [h.scopes] at hrun
  rw [← hrun]
  cases hm : Statement.runAll r.memory statements with
  | error e =>
    simp only [Renderer.exec, hm] at hpull
    exact .failed hpull
  | ok m =>
    simp only [Renderer.exec, hm] at hpull
    have hnext : Stands plan (position + 1) pending m.scopes
        { r.goto (r.position + 1) with memory := m } :=
      ⟨h.plan, by rw [← h.position]; rfl, (Memory.pending_of_runAll hm).trans h.pending, rfl⟩
    exact (busy hpull (.done hnext)).mono (Nat.le_succ most)

theorem jump {target : Nat} (h : Stands plan position pending s r)
    (hi : plan.get? position = some (.jump target)) {inner : Pending}
    (hnext : ∀ r, Stands plan target pending s r → Realizes plan stop inner most r t) :
    Realizes plan stop inner (most + 1) r t := by
  refine busy ?_ (hnext _ (h.goto target))
  change r.step = _
  rw [step, h.fetch hi]

/-- A jump behind a run leads on. -/
theorem thenJump {middle : Nat} (h : Realizes plan middle pending most r t)
    (hi : plan.get? middle = some (.jump stop)) : Realizes plan stop pending most r t := by
  rw [← Trace.andThen_done t]
  refine h.andThen fun s r hr => ?_
  exact (jump hr hi fun r hr => .done hr).mono (Nat.le_succ most)

/-- A condition decides between two ways. -/
theorem test {condition : Expr} {other : Nat} {inner : Pending} {yes no : Trace}
    (h : Stands plan position pending s r)
    (hi : plan.get? position = some (.branch condition other)
      ∨ plan.get? position = some (.repetition condition other))
    (hyes : ∀ r, Stands plan (position + 1) pending s r → Realizes plan stop inner most r yes)
    (hno : ∀ r, Stands plan other pending s r → Realizes plan stop inner most r no) :
    Realizes plan stop inner (most + 1) r
      (.attempt (s.test condition) fun holds => if holds then yes else no) := by
  have hpull : Source.pull r = silently (r.test condition other) := by
    change r.step = _
    rcases hi with hi | hi <;> rw [step, h.fetch hi]
  simp only [Renderer.test, h.eval] at hpull
  simp only [Scopes.test]
  cases he : condition.eval s.lookup with
  | error e =>
    rw [he] at hpull
    exact .failed hpull
  | ok v =>
    rw [he] at hpull
    change Realizes _ _ _ _ _ (if v.truthy then yes else no)
    cases hv : v.truthy with
    | true =>
      refine busy (hpull.trans ?_) (hyes _ h.goOn)
      simp [silently, hv, pure, Except.pure, bind, Except.bind]
    | false =>
      refine busy (hpull.trans ?_) (hno _ (h.goto other))
      simp [silently, hv, pure, Except.pure, bind, Except.bind]

/-- A loop without items goes elsewhere, and any other begins with its first item. -/
theorem each {header : LoopHeader} {other : Nat} {inner : Pending} {empty : Trace}
    {body : Scopes → Trace} (h : Stands plan position pending s r)
    (hi : plan.get? position = some (.each header other))
    (hempty : ∀ r, Stands plan other pending s r → Realizes plan stop inner most r empty)
    (hbody : ∀ items s r, Stands plan (position + 1) ((header.targets, items) :: pending) s r →
      Realizes plan stop inner most r
        ((body s).andThen (Trace.eachItem header.targets body items))) :
    Realizes plan stop inner most r
      (.attempt (s.items header) fun items =>
        if items.isEmpty then empty
        else .eachItem header.targets body items s.enterLoop) := by
  have hpull : Source.pull r = silently (r.enterLoop header other) := by
    change r.step = _
    rw [step, h.fetch hi]
  have hitems : (r.eval header.items >>= fun value => value.iterate) = s.items header := by
    rw [h.eval]
    rfl
  rw [enterLoop, ← bind_assoc, hitems] at hpull
  -- the first item is bound on the way in, and the others at the end of the body
  cases hs : s.items header with
  | error e =>
    rw [hs] at hpull
    exact .failed hpull
  | ok items =>
    rw [hs] at hpull
    cases items with
    | nil => exact (busy hpull (hempty _ (h.goto other))).mono (Nat.le_succ most)
    | cons item items =>
      simp only [bind, Except.bind, LoopFrame.advance] at hpull
      change Realizes _ _ _ _ _ (.attempt (Scopes.bindItem header.targets item s.enterLoop) _)
      cases hb : LoopFrame.bind header.targets item [] with
      | error e =>
        rw [hb] at hpull
        simp only [Scopes.bindItem, Scopes.enterLoop, List.headD_cons, hb]
        exact .failed hpull
      | ok names =>
        rw [hb] at hpull
        simp only [Scopes.bindItem, Scopes.enterLoop, List.headD_cons, hb]
        refine (busy hpull (hbody items _ _ ⟨h.plan, ?_, ?_, ?_⟩)).mono (Nat.le_succ most)
        · rw [← h.position]
          rfl
        · rw [← h.pending]
          rfl
        · rw [← h.scopes]
          rfl

/-- At the end of the body of a loop, the items still to come are run. -/
theorem eachItem {targets : List Text} {items : List Value} {body : Scopes → Trace} {start : Nat}
    (hi : plan.get? position = some (.next start stop))
    (hbody : ∀ items s r, Stands plan start ((targets, items) :: pending) s r →
      Realizes plan position ((targets, items) :: pending) most r (body s))
    (h : Stands plan position ((targets, items) :: pending) s r) :
    Realizes plan stop pending most r (.eachItem targets body items s) := by
  -- on the items still to come, as each pass of the body ends where the last one did
  induction items generalizing s r with
  | nil =>
    obtain ⟨names, loops, hloops, -, hpending, hscopes⟩ := h.loops
    have hpull : Source.pull r
        = .busy { r.goto stop with memory := { r.memory with loops := loops } } := by
      change r.step = _
      rw [step, h.fetch hi]
      simp only [nextItem, hloops]
      rfl
    exact (busy hpull (.done ⟨h.plan, rfl, hpending, hscopes⟩)).mono (Nat.le_succ most)
  | cons item items ih =>
    obtain ⟨names, loops, hloops, hnames, hpending, hscopes⟩ := h.loops
    have hpull : Source.pull r
        = silently ((LoopFrame.bind targets item names).map fun names =>
          { r.goto start with
            memory := { r.memory with loops := ⟨targets, items, names⟩ :: loops } }) := by
      change r.step = _
      rw [step, h.fetch hi]
      simp only [nextItem, hloops, LoopFrame.advance]
      cases LoopFrame.bind targets item names <;> rfl
    have hbind : s.bindItem targets item
        = (LoopFrame.bind targets item names).map fun names =>
          { s with loops := names :: s.loops.tail } := by
      rw [Scopes.bindItem, hnames]
      cases LoopFrame.bind targets item names <;> rfl
    rw [Trace.eachItem, hbind]
    cases hb : LoopFrame.bind targets item names with
    | error e =>
      rw [hb] at hpull
      exact .failed hpull
    | ok bound =>
      rw [hb] at hpull
      have hbody := hbody items { s with loops := bound :: s.loops.tail }
        { r.goto start with
          memory := { r.memory with loops := ⟨targets, items, bound⟩ :: loops } }
        ⟨h.plan, rfl, congrArg ((targets, items) :: ·) hpending,
          congrArg (fun s : Scopes => { s with loops := bound :: s.loops }) hscopes⟩
      exact (busy hpull (hbody.andThen fun s r hr => ih hr)).mono (Nat.le_succ most)

/-- A `while` goes back to its condition behind each round. -/
theorem rounds {condition : Expr} {body : Scopes → Trace} {start last : Nat}
    (hi : plan.get? start = some (.repetition condition stop))
    (hjump : plan.get? last = some (.jump start))
    (hbody : ∀ s r, Stands plan (start + 1) pending s r →
      Realizes plan last pending most r (body s))
    {k : Nat} (hk : k ≤ most) (h : Stands plan start pending s r) :
    Realizes plan stop pending k r (.rounds condition body k s) := by
  -- on the rounds left: testing the condition is the one step that each of them must take
  induction k generalizing s r with
  | zero => exact ⟨0, r, .refl r, Nat.le_refl 0⟩
  | succ k ih =>
    refine test h (.inr hi) (fun r hr => ?_) fun r hr => .done hr
    refine ((hbody s r hr).mono (Nat.le_of_succ_le hk)).andThen fun s r hr => ?_
    exact (jump hr hjump fun r hr => ih (Nat.le_of_succ_le hk) hr).mono (Nat.le_succ k)

/-- A piece, and then the pieces behind it. -/
theorem cons {piece : Piece} {rest : List Piece} {start : Nat}
    (hsits : Sits plan.get? start (Piece.emitAll start (piece :: rest)))
    (hpiece : Sits plan.get? start (Piece.emit start piece) →
      Realizes plan (start + piece.width) pending most r (piece.run most s))
    (hrest : ∀ s r,
      Sits plan.get? (start + piece.width) (Piece.emitAll (start + piece.width) rest) →
      Stands plan (start + piece.width) pending s r →
      Realizes plan (start + piece.width + Piece.widthAll rest) pending most r
        (Piece.runAll most rest s)) :
    Realizes plan (start + Piece.widthAll (piece :: rest)) pending most r
      (Piece.runAll most (piece :: rest) s) := by
  rw [Piece.emitAll, Sits.append_iff, Piece.length_emit] at hsits
  rw [Piece.widthAll, ← Nat.add_assoc, Piece.runAll]
  exact (hpiece hsits.1).andThen fun s r hr => hrest s r hsits.2 hr

end Realizes

/-! ## Outlines -/

/-- **Pieces mean what they are laid out as**: a renderer at their first instruction does what their
trace says, and ends behind their last instruction. -/
theorem realizes_runAll (pieces : List Piece) {start : Nat} {s : Scopes}
    (hsits : Sits plan.get? start (Piece.emitAll start pieces))
    (h : Stands plan start pending s r) :
    Realizes plan (start + Piece.widthAll pieces) pending most r (Piece.runAll most pieces s) := by
  induction pieces using Outline.induct generalizing start pending s r with
  | nil => exact .done h
  | literal text rest ih =>
    exact .cons hsits (fun hsits => .literal h hsits.1) fun s r hsits hr => ih hsits hr
  | output value escape rest ih =>
    exact .cons hsits (fun hsits => .output h hsits.1) fun s r hsits hr => ih hsits hr
  | exec statements rest ih =>
    exact .cons hsits (fun hsits => .exec h hsits.1) fun s r hsits hr => ih hsits hr
  | single condition yes rest ihyes ih =>
    refine .cons hsits (fun hsits => ?_) fun s r hsits hr => ih hsits hr
    rw [Piece.emit] at hsits
    rw [Piece.run]
    refine (Realizes.test h (.inl hsits.1) (fun r hr => ?_) fun r hr => .done hr).mono
      (Nat.le_succ most)
    have hyes := ihyes hsits.2 hr
    rwa [Nat.add_right_comm] at hyes
  | double condition yes no rest ihyes ihno ih =>
    refine .cons hsits (fun hsits => ?_) fun s r hsits hr => ih hsits hr
    simp only [Piece.emit, Sits.cons_iff, Sits.append_iff, Piece.length_emitAll] at hsits
    obtain ⟨hbranch, hyes, hjump, hno⟩ := hsits
    -- the first arm is followed by a jump over the second
    have hother : start + 1 + Piece.widthAll yes + 1 = start + Piece.widthAll yes + 2 := by omega
    have hstop := Piece.add_width_double start condition yes no
    rw [hother] at hno
    rw [hstop] at hjump
    rw [Piece.run]
    refine (Realizes.test h (.inl hbranch) (fun r hr => ?_) fun r hr => ?_).mono
      (Nat.le_succ most)
    · exact (ihyes hyes hr).thenJump hjump
    · exact hstop ▸ ihno hno hr
  | plain header body rest ihbody ih =>
    refine .cons hsits (fun hsits => ?_) fun s r hsits hr => ih hsits hr
    simp only [Piece.emit, Sits.cons_iff, Sits.snoc_iff, Piece.length_emitAll] at hsits
    obtain ⟨heach, hbody, hnext⟩ := hsits
    rw [Piece.run]
    refine Realizes.each h heach (fun r hr => .done hr) fun items s r hr => ?_
    refine (ihbody hbody hr).andThen fun s r hr => ?_
    exact .eachItem hnext (fun items s r hr => ihbody hbody hr) hr
  | guarded header body empty rest ihbody ihempty ih =>
    refine .cons hsits (fun hsits => ?_) fun s r hsits hr => ih hsits hr
    simp only [Piece.emit, Sits.cons_iff, Sits.append_iff, Piece.length_emitAll] at hsits
    obtain ⟨heach, hbody, hnext, hempty⟩ := hsits
    have hother : start + 1 + Piece.widthAll body + 1 = start + Piece.widthAll body + 2 := by omega
    have hstop := Piece.add_width_guarded start header body empty
    rw [hother] at hempty
    rw [hstop] at hnext
    rw [Piece.run]
    refine Realizes.each h heach (fun r hr => hstop ▸ ihempty hempty hr) fun items s r hr => ?_
    refine (ihbody hbody hr).andThen fun s r hr => ?_
    exact .eachItem hnext (fun items s r hr => ihbody hbody hr) hr
  | repetition condition body rest ihbody ih =>
    refine .cons hsits (fun hsits => ?_) fun s r hsits hr => ih hsits hr
    simp only [Piece.emit, Sits.cons_iff, Sits.snoc_iff, Piece.length_emitAll] at hsits
    obtain ⟨hhead, hbody, hjump⟩ := hsits
    rw [Piece.run]
    exact .rounds hhead hjump (fun s r hr => ihbody hbody hr) (Nat.le_refl most) h

end Renderer

end TemplateEngine

import TemplateEngine.Proofs.Acceptance
import TemplateEngine.Proofs.Meaning

/-!
# Templates without `while` finish

A renderer may go on for ever only if a `while` does. A `for` has as many rounds as there were items
when it was entered, however often the loops around enter it again. Said of the outline this is
a recursion over its pieces: only the rounds of a `while` are cut (`Piece.finishes_runAll`). Said of
the plan it is `Plan.stops`: the renderer is led to the end of the plan or to an error, since it
takes the steps of a trace that is not cut.

That the outline has no `while` is read off the plan: a template without a `while` tag adds no
instruction for one (`Assembly.whileFree_of_read`).
-/

namespace TemplateEngine

/-! ## Code without `while` -/

namespace Instruction

/-- The instruction is the first one of a `while`. -/
def isRepetition : Instruction → Bool
  | repetition _ _ => true
  | literal _ | output _ _ | branch _ _ | jump _ | each _ _ | next _ _ | exec _ => false

@[simp] theorem isRepetition_lead (i : Instruction) (target : Nat) :
    (i.lead target).isRepetition = i.isRepetition := by
  cases i <;> rfl

/-- There is no `while` in some instructions. -/
def WhileFree (code : List Instruction) : Prop := ∀ i ∈ code, i.isRepetition = false

theorem WhileFree.cons_iff {i : Instruction} {code : List Instruction} :
    WhileFree (i :: code) ↔ i.isRepetition = false ∧ WhileFree code :=
  List.forall_mem_cons

theorem WhileFree.append_iff {before behind : List Instruction} :
    WhileFree (before ++ behind) ↔ WhileFree before ∧ WhileFree behind :=
  List.forall_mem_append

theorem WhileFree.modify {code : List Instruction} (h : WhileFree code) (position target : Nat) :
    WhileFree (code.modify position (·.lead target)) := by
  intro i hi
  obtain ⟨p, hp⟩ := List.mem_iff_getElem?.mp hi
  rw [List.getElem?_modify] at hp
  obtain ⟨j, hj, rfl⟩ := Option.map_eq_some_iff.mp hp
  have hfree := h j (List.mem_of_getElem? hj)
  split
  · rwa [isRepetition_lead]
  · exact hfree

end Instruction

namespace Assembly

open Instruction (WhileFree)

variable {o : Options} {text : Text} {a b : Assembly}

theorem whileFree_push (ha : WhileFree a.code.toList) {i : Instruction}
    (hi : i.isRepetition = false) : WhileFree (a.push i).code.toList := by
  intro j hj
  rw [code_push, Array.toList_push, List.mem_append, List.mem_singleton] at hj
  rcases hj with hj | rfl
  · exact ha j hj
  · exact hi

theorem whileFree_land (ha : WhileFree a.code.toList) (positions : List Nat) :
    WhileFree (a.land positions).code.toList := by
  have hfold : ∀ code : Array Instruction, WhileFree code.toList →
      WhileFree (positions.foldl (fun code position => code.modify position (·.lead a.here))
        code).toList := by
    induction positions with
    | nil => exact fun code hcode => hcode
    | cons position positions ih =>
      intro code hcode
      refine ih _ ?_
      rw [Array.toList_modify]
      exact hcode.modify position a.here
  exact hfold a.code ha

theorem whileFree_beginArm (ha : WhileFree a.code.toList) (pending : Nat) (exits : List Nat)
    (condition : Option Expr) :
    WhileFree (a.beginArm pending exits condition).code.toList := by
  have hland : WhileFree ((a.push (.jump 0)).land [pending]).code.toList :=
    whileFree_land (whileFree_push ha rfl) [pending]
  cases condition with
  | none => exact hland
  | some e => exact whileFree_push hland (i := .branch e 0) rfl

theorem whileFree_conclude (ha : WhileFree a.code.toList) {frame : Frame} :
    WhileFree (a.conclude frame).code.toList := by
  rcases frame with _ | ⟨_, _ | _⟩ | _
  · exact whileFree_land ha _
  · exact whileFree_land (whileFree_push ha rfl) _
  · exact whileFree_land ha _
  · exact whileFree_land (whileFree_push ha rfl) _

theorem whileFree_leave (ha : WhileFree a.code.toList) : WhileFree a.leave.code.toList := by
  cases hf : a.frames with
  | nil => rwa [leave, hf]
  | cons frame frames =>
    rw [leave_eq hf]
    exact whileFree_conclude (a := { a with frames := frames }) ha

/-- Only a `while` tag adds the first instruction of a `while`. -/
theorem Step.whileFree {m : Mark} (h : Step o a m b) (hm : m.begins? ≠ some .repetition)
    (ha : WhileFree a.code.toList) : WhileFree b.code.toList := by
  cases h with
  | text | output | exec | openIf | openFor => exact whileFree_push ha rfl
  | openWhile => exact absurd rfl hm
  | @elif _ _ _ _ _ frames | @otherwise _ _ _ frames =>
    exact whileFree_beginArm (a := { a with frames := frames }) ha _ _ _
  | empty => exact whileFree_land (whileFree_push ha rfl) _
  | close =>
    refine whileFree_leave ?_
    rwa [code_forget]
  | mode => exact ha

theorem whileFree_of_read {marks : List Mark} (h : a.read o text marks = .ok b)
    (hmarks : ∀ m ∈ marks, m.begins? ≠ some .repetition) (ha : WhileFree a.code.toList) :
    WhileFree b.code.toList := by
  induction marks generalizing a with
  | nil =>
    cases h
    exact ha
  | cons m marks ih =>
    obtain ⟨c, hstep, hrest⟩ := read_cons_eq_ok h
    rw [List.forall_mem_cons] at hmarks
    exact ih hrest hmarks.2 (hstep.whileFree hmarks.1 ha)

end Assembly

/-- A template without a `while` tag has a plan without a `while`. -/
theorem Plan.whileFree {o : Options} {text : Text} {plan : Plan} (hplan : read o text = .ok plan)
    (htags : ∀ m ∈ Outline.tags text, m.begins? ≠ some .repetition) :
    Instruction.WhileFree plan.instructions.toList := by
  have hmarks : ∀ m ∈ Outline.marks o text, m.begins? ≠ some .repetition := by
    intro m hm hbegins
    have htag : m.isTag = true := by
      cases m with
      | text => cases hbegins
      | expression | statement => rfl
    refine htags m ?_ hbegins
    rw [← Outline.filter_isTag_marks o]
    exact List.mem_filter.mpr ⟨hm, htag⟩
  obtain ⟨a, ha, hfinish⟩ := read_eq_ok hplan
  have hfree := Assembly.whileFree_of_read ha hmarks (List.forall_mem_nil _)
  rw [Assembly.finish] at hfinish
  split at hfinish
  · cases hfinish
  · cases hfinish
    exact hfree

/-! ## Runs that are not cut -/

/-- A run comes to an end by itself. -/
def Trace.Finishes (t : Trace) : Prop := t.finish ≠ .cut

namespace Trace.Finishes

variable {t : Trace}

theorem done (s : Scopes) : (Trace.done s).Finishes := Finish.noConfusion

theorem write (s : Scopes) (text : Text) : (Trace.write s text).Finishes := Finish.noConfusion

theorem andThen (h : t.Finishes) {next : Scopes → Trace} (hnext : ∀ s, (next s).Finishes) :
    (t.andThen next).Finishes := by
  obtain ⟨fragments, finish⟩ := t
  cases finish with
  | done s => exact hnext s
  | failed e => exact h
  | cut => exact h

theorem attempt {α : Type} {next : α → Trace} (hnext : ∀ a, (next a).Finishes)
    (result : Except RenderError α) : (Trace.attempt result next).Finishes := by
  cases result with
  | ok a => exact hnext a
  | error e => exact Finish.noConfusion

theorem ite {other : Trace} (h : t.Finishes) (hother : other.Finishes) (condition : Bool) :
    (if condition then t else other).Finishes := by
  cases condition with
  | true => exact h
  | false => exact hother

/-- A loop has as many rounds as items. -/
theorem eachItem {body : Scopes → Trace} (hbody : ∀ s, (body s).Finishes) (targets : List Text)
    (items : List Value) (s : Scopes) : (Trace.eachItem targets body items s).Finishes := by
  induction items generalizing s with
  | nil => exact done s.leaveLoop
  | cons item items ih => exact attempt (fun s => (hbody s).andThen ih) _

end Trace.Finishes

namespace Piece

open Instruction (WhileFree)

/-- What begins some pieces has no `while`, and neither have those behind it. -/
theorem whileFree_cons {piece : Piece} {rest : List Piece} {start : Nat}
    (h : WhileFree (emitAll start (piece :: rest))) :
    WhileFree (emit start piece) ∧ WhileFree (emitAll (start + piece.width) rest) := by
  rwa [emitAll, WhileFree.append_iff] at h

/-- **Pieces without `while` finish**, whatever names are in scope. -/
theorem finishes_runAll (most : Nat) (pieces : List Piece) {start : Nat}
    (h : WhileFree (emitAll start pieces)) (s : Scopes) : (runAll most pieces s).Finishes := by
  induction pieces using Outline.induct generalizing start s with
  | nil => exact .done s
  | literal text rest ih => exact .andThen (.write s text) (ih (whileFree_cons h).2)
  | output value escape rest ih =>
    refine .andThen ?_ (ih (whileFree_cons h).2)
    rw [run]
    exact .attempt (.write s) _
  | exec statements rest ih =>
    refine .andThen ?_ (ih (whileFree_cons h).2)
    rw [run]
    exact .attempt .done _
  | single condition yes rest ihyes ih =>
    obtain ⟨hpiece, hrest⟩ := whileFree_cons h
    rw [emit, WhileFree.cons_iff] at hpiece
    refine .andThen ?_ (ih hrest)
    rw [run]
    exact .attempt (.ite (ihyes hpiece.2 s) (.done s)) _
  | double condition yes no rest ihyes ihno ih =>
    obtain ⟨hpiece, hrest⟩ := whileFree_cons h
    simp only [emit, WhileFree.cons_iff, WhileFree.append_iff] at hpiece
    obtain ⟨-, hyes, -, hno⟩ := hpiece
    refine .andThen ?_ (ih hrest)
    rw [run]
    exact .attempt (.ite (ihyes hyes s) (ihno hno s)) _
  | plain header body rest ihbody ih =>
    obtain ⟨hpiece, hrest⟩ := whileFree_cons h
    rw [emit, WhileFree.cons_iff, WhileFree.append_iff] at hpiece
    refine .andThen ?_ (ih hrest)
    rw [run]
    refine .attempt (fun items => .ite (.done s) ?_ _) _
    exact .eachItem (ihbody hpiece.2.1) header.targets items s.enterLoop
  | guarded header body empty rest ihbody ihempty ih =>
    obtain ⟨hpiece, hrest⟩ := whileFree_cons h
    simp only [emit, WhileFree.cons_iff, WhileFree.append_iff] at hpiece
    obtain ⟨-, hbody, -, hempty⟩ := hpiece
    refine .andThen ?_ (ih hrest)
    rw [run]
    refine .attempt (fun items => .ite (ihempty hempty s) ?_ _) _
    exact .eachItem (ihbody hbody) header.targets items s.enterLoop
  | repetition condition body rest ihbody ih =>
    -- its first instruction is excluded
    have hpiece := (whileFree_cons h).1
    rw [emit, WhileFree.cons_iff] at hpiece
    cases hpiece.1

end Piece

/-! ## Renderers that stop -/

/-- A renderer has stopped: it is at the end of its plan, or its next instruction fails. -/
inductive Renderer.Stopped (r : Renderer) : Option RenderError → Prop
  | finished (h : r.position = r.plan.size) : Stopped r none
  | failed {e : RenderError} (h : Source.pull r = .failed e) : Stopped r (some e)

namespace Renderer

variable {r last : Renderer} {n : Nat} {texts : List Text} {e : Option RenderError}

theorem Stopped.ends (h : r.Stopped e) : Source.Ends r [] e := by
  cases h with
  | finished h =>
    refine .finished ?_
    change r.step = _
    rw [step, h, Plan.get?, Plan.size, Array.getElem?_eq_none (Nat.le_refl _)]
  | failed h => exact .failed h

theorem Stopped.ends_of_runs (h : last.Stopped e) (hruns : Source.Runs n r texts last) :
    Source.Ends r texts e := by
  simpa using hruns.ends h.ends

/-- What realizes a run that comes to an end comes to a stop. -/
theorem Realizes.exists_stopped {plan : Plan} {pending : Pending} {most : Nat} {t : Trace}
    (h : Realizes plan plan.size pending most r t) (ht : t.Finishes) :
    ∃ n last e, Source.Runs n r t.fragments last ∧ last.Stopped e := by
  obtain ⟨n, last, hruns, hends⟩ := h
  cases hf : t.finish with
  | done s =>
    rw [hf] at hends
    refine ⟨n, last, none, hruns, .finished ?_⟩
    rw [hends.plan, hends.position]
  | failed e =>
    rw [hf] at hends
    exact ⟨n, last, some e, hruns, .failed hends⟩
  | cut => exact absurd hf ht

end Renderer

/-- **Templates without `while` finish**: whatever the context, the renderer of a template without a
`while` tag comes after finitely many instructions to the end of the plan or to an error. So
there are finitely many items, and a bound on the instructions that one request for the next
item can take, also behind the last. -/
theorem Plan.stops {o : Options} {source : Text} {plan : Plan}
    (hplan : Plan.compile o source = .ok plan)
    (htags : ∀ m ∈ Outline.tags (source.stripComments o), m.begins? ≠ some .repetition)
    (context : Context) :
    ∃ n texts last e, Source.Runs n (Renderer.start plan context) texts last ∧ last.Stopped e
      ∧ ∃ steps, ∀ count, Source.answers? steps count (some (Renderer.start plan context))
        = some ((List.range count).map ((Source.items texts e)[·]?)) := by
  have hfree := Plan.whileFree hplan htags
  obtain ⟨outline, modes, -, rfl⟩ := Plan.exists_outline hplan
  have hfinishes : (outline.run 0 context).Finishes :=
    Piece.finishes_runAll 0 outline hfree _
  have hsize : 0 + Piece.widthAll outline = outline.plan.size := by
    simp [Outline.plan, Plan.size]
  have hrealizes : Renderer.Realizes outline.plan outline.plan.size [] 0
      (.start outline.plan context) (outline.run 0 context) :=
    hsize ▸ Renderer.realizes_runAll outline (Plan.sits _) ⟨rfl, rfl, rfl, rfl⟩
  obtain ⟨n, last, e, hruns, hstopped⟩ := hrealizes.exists_stopped hfinishes
  have hanswers := (hstopped.ends_of_runs hruns).exists_answers?
  exact ⟨n, (outline.run 0 context).fragments, last, e, hruns, hstopped, hanswers⟩

/-- A loop inside of another, which is entered again for each item of the outer one. -/
theorem Plan.stops_nested :
    let source := ("{% for x in xs %}{% for y in x %}{{ y }}{% empty %}{% if a %}-{% endif %}"
      ++ "{% endfor %}{% endfor %}").toList
    (∀ m ∈ Outline.tags (Text.stripComments {} source), m.begins? ≠ some .repetition)
      ∧ ∃ plan, Plan.compile {} source = .ok plan ∧ ∀ context : Context,
        ∃ n texts last e, Source.Runs n (Renderer.start plan context) texts last ∧ last.Stopped e
          ∧ ∃ steps, ∀ count, Source.answers? steps count (some (Renderer.start plan context))
            = some ((List.range count).map ((Source.items texts e)[·]?)) := by
  intro source
  have hcompiles : (Plan.compile {} source).toOption.isSome := by decide +kernel
  have htags : ∀ m ∈ Outline.tags (Text.stripComments {} source),
      m.begins? ≠ some .repetition := by
    decide +kernel
  obtain ⟨plan, hplan⟩ := Option.isSome_iff_exists.mp hcompiles
  refine ⟨htags, plan, eq_ok_of_toOption hplan, ?_⟩
  exact Plan.stops (eq_ok_of_toOption hplan) htags

end TemplateEngine

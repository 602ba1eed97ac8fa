import TemplateEngine.Plan.Assembly
import TemplateEngine.Proofs.Results

/-!
# What reading a mark does

A mark that is read without an error does one of a few things to an assembly: it adds an
instruction, opens a construct, begins another arm of one, closes one, or changes the
autoescape mode. `Assembly.Step` lists them with all that they ask for, and every statement
about what happens while a template is read is a case distinction over it.

The first such statement is that the frames are counted by the opening tags without an end tag
(`Assembly.Balanced`), so there is a frame to close whenever an end tag is accepted.
-/

namespace TemplateEngine

namespace Assembly

/-! ## Steps -/

/-- What a mark can do to an assembly. -/
inductive Step (o : Options) (a : Assembly) : Mark → Assembly → Prop
  | text (literal : Text) : Step o a (.text literal) (a.push (.literal literal))
  | output (found : Tag.Found) {body : Text} {e : Expr} (parse : Expr.parse body = .ok e) :
    Step o a (.expression found body) (a.push (.output e (o.escape a.modes)))
  | exec (found : Tag.Found) {code : Text} {statements : List Statement}
    (parse : Statement.parseAll code = .ok statements) :
    Step o a (.statement found (.exec code)) (a.push (.exec statements))
  | openIf (found : Tag.Found) {condition : Text} {e : Expr}
    (parse : Expr.parse condition = .ok e) :
    Step o a (.statement found (.openIf condition))
      { a.enter (.branch e 0) (.branch (some a.here) []) with branches := found :: a.branches }
  | openFor (found : Tag.Found) {text : Text} {header : LoopHeader}
    (parse : LoopHeader.parse text = .ok header) :
    Step o a (.statement found (.openFor text))
      { a.enter (.each header 0) (.loop a.here none) with loops := found :: a.loops }
  | openWhile (found : Tag.Found) {condition : Text} {e : Expr}
    (parse : Expr.parse condition = .ok e) :
    Step o a (.statement found (.openWhile condition))
      { a.enter (.repetition e 0) (.repetition a.here) with
        repetitions := found :: a.repetitions }
  | elif (found : Tag.Found) {condition : Text} {e : Expr} {pending : Nat} {exits : List Nat}
    {frames : List Frame} (parse : Expr.parse condition = .ok e)
    (innermost : a.frames = .branch (some pending) exits :: frames) :
    Step o a (.statement found (.elif condition))
      ({ a with frames := frames }.beginArm pending exits (some e))
  | otherwise (found : Tag.Found) {pending : Nat} {exits : List Nat} {frames : List Frame}
    (innermost : a.frames = .branch (some pending) exits :: frames) :
    Step o a (.statement found .otherwise)
      ({ a with frames := frames }.beginArm pending exits none)
  | empty (found : Tag.Found) {head : Nat} {frames : List Frame}
    (innermost : a.frames = .loop head none :: frames) :
    Step o a (.statement found .empty) ({ a with frames := frames }.beginEmpty head)
  | close (found : Tag.Found) {directive : Directive} {construct : Construct}
    (ends : directive.ends? = some construct) (opened : a.opens construct ≠ []) :
    Step o a (.statement found directive) (a.forget construct).leave
  | mode (found : Tag.Found) {directive : Directive} {modes : List Bool}
    (change : directive.modes? a.modes = some modes) :
    Step o a (.statement found directive) { a with modes := modes }

variable {o : Options} {text : Text} {found : Tag.Found} {a b : Assembly}

/-- What comes after a successful parse. -/
theorem parsed_bind_eq_ok {α β : Type} {result : Except ParseError α}
    {next : α → Except TemplateError β} {c : β}
    (h : parsed text found result >>= next = .ok c) : ∃ x, result = .ok x ∧ next x = .ok c := by
  cases result with
  | error e => cases h
  | ok x => exact ⟨x, rfl, h⟩

theorem step_of_nextArm {arm : Arm} {condition : Option Expr}
    (h : a.nextArm text found arm condition = .ok b) :
    ∃ pending exits frames, a.frames = .branch (some pending) exits :: frames ∧
      b = { a with frames := frames }.beginArm pending exits condition := by
  rw [nextArm] at h
  split at h
  · cases h
  split at h
  · next hf => exact ⟨_, _, _, hf, (Except.ok.inj h).symm⟩
  · cases h

theorem step_of_emptyArm (h : a.emptyArm text found = .ok b) :
    ∃ head frames, a.frames = .loop head none :: frames ∧
      b = { a with frames := frames }.beginEmpty head := by
  rw [emptyArm] at h
  split at h
  · cases h
  split at h
  · next hf => exact ⟨_, _, hf, (Except.ok.inj h).symm⟩
  · cases h

theorem step_of_close {construct : Construct} (h : a.close text found construct = .ok b) :
    a.opens construct ≠ [] ∧ b = (a.forget construct).leave := by
  rw [close] at h
  split at h
  · cases h
  · next ho => exact ⟨by simp [ho], (Except.ok.inj h).symm⟩

/-- A statement tag that is read without an error takes a step. -/
theorem step_of_directive {directive : Directive} (h : a.directive text found directive = .ok b) :
    Step o a (.statement found directive) b := by
  cases directive with
  | openIf condition =>
    obtain ⟨e, he, hb⟩ := parsed_bind_eq_ok h
    cases hb
    exact .openIf found he
  | elif condition =>
    obtain ⟨e, he, hb⟩ := parsed_bind_eq_ok h
    obtain ⟨pending, exits, frames, hf, rfl⟩ := step_of_nextArm hb
    exact .elif found he hf
  | otherwise =>
    obtain ⟨pending, exits, frames, hf, rfl⟩ := step_of_nextArm h
    exact .otherwise found hf
  | endIf | endFor | endWhile =>
    obtain ⟨ho, rfl⟩ := step_of_close h
    exact .close found rfl ho
  | openFor header =>
    obtain ⟨e, he, hb⟩ := parsed_bind_eq_ok h
    cases hb
    exact .openFor found he
  | empty =>
    obtain ⟨head, frames, hf, rfl⟩ := step_of_emptyArm h
    exact .empty found hf
  | openWhile condition =>
    obtain ⟨e, he, hb⟩ := parsed_bind_eq_ok h
    cases hb
    exact .openWhile found he
  | exec code =>
    obtain ⟨statements, hs, hb⟩ := parsed_bind_eq_ok h
    cases hb
    exact .exec found hs
  | autoescape mode =>
    simp only [Assembly.directive] at h
    split at h
    · next hon =>
      cases h
      exact .mode found (by simp [Directive.modes?, hon])
    split at h
    · next hon hoff =>
      cases h
      exact .mode found (by simp [Directive.modes?, hoff])
    · cases h
  | endAutoescape =>
    simp only [Assembly.directive] at h
    split at h
    · cases h
    · next hm =>
      cases h
      exact .mode found (by simp [Directive.modes?, hm])
  | strayEndBlock | strayExtends | unknown => cases h

/-- A mark that is read without an error takes a step. -/
theorem step_of_mark {m : Mark} (h : a.mark o text m = .ok b) : Step o a m b := by
  cases m with
  | text literal =>
    cases h
    exact .text literal
  | expression found body =>
    obtain ⟨e, he, hb⟩ := parsed_bind_eq_ok h
    cases hb
    exact .output found he
  | statement found directive => exact step_of_directive h

/-! ## Runs -/

/-- Reading more marks is a step and then reading the rest. -/
theorem read_cons_eq_ok {m : Mark} {marks : List Mark} (h : a.read o text (m :: marks) = .ok b) :
    ∃ c, Step o a m c ∧ c.read o text marks = .ok b := by
  rw [read, List.foldlM_cons] at h
  cases hm : a.mark o text m with
  | error e =>
    rw [hm] at h
    cases h
  | ok c =>
    rw [hm] at h
    exact ⟨c, step_of_mark hm, h⟩

/-- What every step keeps up, every run keeps up. -/
theorem read_induct {P : Assembly → Prop} (step : ∀ {a b m}, Step o a m b → P a → P b)
    {marks : List Mark} (h : a.read o text marks = .ok b) (ha : P a) : P b := by
  induction marks generalizing a with
  | nil =>
    cases h
    exact ha
  | cons m marks ih =>
    obtain ⟨c, hstep, hrest⟩ := read_cons_eq_ok h
    exact ih hrest (step hstep ha)

/-! ## Frames -/

theorem frames_conclude (a : Assembly) (frame : Frame) : (a.conclude frame).frames = a.frames := by
  rcases frame with _ | ⟨_, _ | _⟩ | _ <;> rfl

theorem modes_conclude (a : Assembly) (frame : Frame) : (a.conclude frame).modes = a.modes := by
  rcases frame with _ | ⟨_, _ | _⟩ | _ <;> rfl

@[simp] theorem code_forget (a : Assembly) (construct : Construct) :
    (a.forget construct).code = a.code := by
  cases construct <;> rfl

@[simp] theorem frames_forget (a : Assembly) (construct : Construct) :
    (a.forget construct).frames = a.frames := by
  cases construct <;> rfl

@[simp] theorem modes_forget (a : Assembly) (construct : Construct) :
    (a.forget construct).modes = a.modes := by
  cases construct <;> rfl

theorem leave_eq {frame : Frame} {frames : List Frame} (h : a.frames = frame :: frames) :
    a.leave = { a with frames := frames }.conclude frame := by
  rw [leave, h]

theorem opens_leave (a : Assembly) (construct : Construct) :
    a.leave.opens construct = a.opens construct := by
  cases hf : a.frames with
  | nil => rw [leave, hf]
  | cons frame frames =>
    rw [leave_eq hf]
    rcases frame with _ | ⟨_, _ | _⟩ | _ <;> cases construct <;> rfl

theorem opens_beginArm (a : Assembly) (pending : Nat) (exits : List Nat)
    (condition : Option Expr) (construct : Construct) :
    (a.beginArm pending exits condition).opens construct = a.opens construct := by
  cases condition <;> cases construct <;> rfl

/-- The number of opening tags without an end tag. -/
def opened (a : Assembly) : Nat := a.branches.length + a.loops.length + a.repetitions.length

/-- There is a frame for each opening tag without an end tag. -/
def Balanced (a : Assembly) : Prop := a.frames.length = a.opened

/-- Ending a construct takes one of the opening tags. -/
theorem opened_forget {construct : Construct} (h : a.opens construct ≠ []) :
    (a.forget construct).opened + 1 = a.opened := by
  have hpos : 0 < (a.opens construct).length := List.length_pos_iff.mpr h
  cases construct <;> simp only [opens, List.length_nil] at hpos <;>
    simp only [forget, opened, List.length_tail] <;> omega

theorem opened_conclude (a : Assembly) (frame : Frame) : (a.conclude frame).opened = a.opened := by
  rcases frame with _ | ⟨_, _ | _⟩ | _ <;> rfl

/-- **A frame to close**: an end tag that is accepted has a frame to take. -/
theorem Balanced.frames_ne_nil (h : a.Balanced) {construct : Construct}
    (ho : a.opens construct ≠ []) : a.frames ≠ [] := by
  have hcount := opened_forget ho
  rintro hf
  rw [Balanced, hf, List.length_nil] at h
  omega

/-- Every step keeps the count. -/
theorem Balanced.step {m : Mark} (h : a.Balanced) (hstep : Step o a m b) : b.Balanced := by
  cases hstep with
  | text | output | exec | mode => exact h
  | openIf | openFor | openWhile =>
    simp only [Balanced, opened] at h
    simp only [Balanced, opened, enter, push, List.length_cons, h]
    omega
  | elif _ _ hf | otherwise _ hf | empty _ hf =>
    rw [Balanced, hf] at h
    exact h
  | @close _ directive construct _ ho =>
    obtain ⟨frame, frames, hf⟩ := List.exists_cons_of_ne_nil (h.frames_ne_nil ho)
    have hcount := opened_forget ho
    have hlength : frames.length + 1 = a.opened := by rw [← h, hf, List.length_cons]
    have hforget : (a.forget construct).frames = frame :: frames := by rw [frames_forget, hf]
    rw [Balanced, leave_eq hforget, frames_conclude, opened_conclude]
    change frames.length = (a.forget construct).opened
    omega

/-- Whatever has been read, there is a frame for each opening tag without an end tag. -/
theorem balanced_of_read {marks : List Mark} (h : read o text {} marks = .ok a) : a.Balanced :=
  read_induct (fun hstep ha => ha.step hstep) h rfl

/-- When nothing waits for an end tag, no frame is left. -/
theorem Balanced.frames_eq_nil (h : a.Balanced) (hu : a.unclosed? = none) : a.frames = [] := by
  have hopens : a.opened = 0 := by
    simpa [unclosed?, opens, opened, Nat.add_assoc] using hu
  rwa [Balanced, hopens, List.length_eq_zero_iff] at h

/-! ## Code -/

@[simp] theorem here_push (a : Assembly) (i : Instruction) : (a.push i).here = a.here + 1 := by
  simp [here]

@[simp] theorem here_land (a : Assembly) (positions : List Nat) :
    (a.land positions).here = a.here := by
  have hsize : ∀ (target : Nat) (code : Array Instruction),
      (positions.foldl (fun code position => code.modify position (·.lead target)) code).size
        = code.size := by
    intro target
    induction positions with
    | nil => exact fun code => rfl
    | cons position positions ih => exact fun code => (ih _).trans (by simp)
  exact hsize _ _

theorem here_le_conclude (a : Assembly) (frame : Frame) : a.here ≤ (a.conclude frame).here := by
  rcases frame with _ | ⟨_, _ | _⟩ | _ <;> simp [conclude]

theorem here_le_leave (a : Assembly) : a.here ≤ a.leave.here := by
  cases hf : a.frames with
  | nil => simp [leave, hf]
  | cons frame frames =>
    rw [leave_eq hf]
    exact here_le_conclude { a with frames := frames } frame

/-- An arm ends with a jump, and another with a condition begins with a branch. -/
theorem here_beginArm (a : Assembly) (pending : Nat) (exits : List Nat)
    (condition : Option Expr) : (a.beginArm pending exits condition).here
      = a.here + 1 + condition.toList.length := by
  have hland : ((a.push (.jump 0)).land [pending]).here = a.here + 1 := by simp
  cases condition with
  | none => exact hland
  | some e => exact (here_push _ _).trans (congrArg (· + 1) hland)

/-- The body of a loop ends with a way back. -/
theorem here_beginEmpty (a : Assembly) (head : Nat) :
    (a.beginEmpty head).here = a.here + 1 := by
  have hland : ((a.push (.next (head + 1) 0)).land [head]).here = a.here + 1 := by simp
  exact hland

/-- Code is never taken back. -/
theorem Step.here_le {m : Mark} (h : Step o a m b) : a.here ≤ b.here := by
  cases h with
  | text | output | exec => simp
  | openIf | openFor | openWhile => simp [here, enter]
  | elif | otherwise =>
    rw [here_beginArm, Nat.add_assoc]
    exact Nat.le_add_right _ _
  | empty =>
    rw [here_beginEmpty]
    exact Nat.le_succ _
  | @close _ _ construct =>
    have hforget : (a.forget construct).here = a.here := by simp [here]
    exact hforget ▸ here_le_leave _
  | mode => exact Nat.le_refl _

/-- An opening tag adds code. -/
theorem Step.here_lt {found : Tag.Found} {directive : Directive}
    (h : Step o a (.statement found directive) b) (hbegins : directive.begins? ≠ none) :
    a.here < b.here := by
  cases h with
  | openIf | openFor | openWhile => simp [here, enter]
  | exec | elif | otherwise | empty => exact absurd rfl hbegins
  | close found ends => cases directive <;> cases ends <;> exact absurd rfl hbegins
  | mode found change => cases directive <;> first | cases change | exact absurd rfl hbegins

end Assembly

end TemplateEngine

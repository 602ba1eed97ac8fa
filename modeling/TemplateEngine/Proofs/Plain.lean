import TemplateEngine.Proofs.Steps

/-!
# Plain instructions

Literals, outputs and statements are *plain*: they lead nowhere. Whatever is led elsewhere while a
template is read, they stay in the code as they were added (`Assembly.plain_land`), so the plain
instructions of a plan are those that its marks added, one after the other
(`Assembly.Step.plain`).
-/

namespace TemplateEngine

namespace Instruction

/-- The instruction leads nowhere. -/
def isPlain : Instruction → Bool
  | literal _ | output _ _ | exec _ => true
  | branch _ _ | jump _ | each _ _ | next _ _ | repetition _ _ => false

@[simp] theorem isPlain_lead (i : Instruction) (target : Nat) :
    (i.lead target).isPlain = i.isPlain := by
  cases i <;> rfl

theorem lead_of_isPlain {i : Instruction} (h : i.isPlain = true) (target : Nat) :
    i.lead target = i := by
  cases i with
  | literal | output | exec => rfl
  | _ => cases h

/-- Leading an instruction elsewhere changes no plain one. -/
theorem filter_isPlain_modify (target position : Nat) (code : List Instruction) :
    (code.modify position (·.lead target)).filter isPlain = code.filter isPlain := by
  induction code generalizing position with
  | nil => simp
  | cons i code ih =>
    cases position with
    | zero =>
      rw [List.modify_zero_cons, List.filter_cons, List.filter_cons, isPlain_lead]
      split
      · next h => rw [lead_of_isPlain h]
      · rfl
    | succ position => rw [List.modify_succ_cons, List.filter_cons, List.filter_cons, ih]

/-- What only plain instructions have is found by looking at them alone. -/
theorem filterMap_filter_isPlain {β : Type} {f : Instruction → Option β}
    (h : ∀ {i : Instruction} {b : β}, f i = some b → i.isPlain = true) (code : List Instruction) :
    (code.filter isPlain).filterMap f = code.filterMap f := by
  rw [List.filterMap_filter]
  congr 1
  funext i
  cases hi : f i with
  | none => simp
  | some b => rw [if_pos (h hi)]

end Instruction

/-- What the plain instructions are that a mark adds. -/
inductive Mark.Adds (o : Options) (modes : List Bool) : Mark → List Instruction → Prop
  | text (literal : Text) : Adds o modes (.text literal) [.literal literal]
  | expression (found : Tag.Found) {body : Text} {e : Expr} (parse : Expr.parse body = .ok e) :
    Adds o modes (.expression found body) [.output e (o.escape modes)]
  | exec (found : Tag.Found) {code : Text} {statements : List Statement}
    (parse : Statement.parseAll code = .ok statements) :
    Adds o modes (.statement found (.exec code)) [.exec statements]
  | nothing (found : Tag.Found) (directive : Directive) :
    Adds o modes (.statement found directive) []

namespace Assembly

variable {o : Options} {a b : Assembly} {m : Mark}

/-- The plain instructions read so far. -/
def plain (a : Assembly) : List Instruction := a.code.toList.filter Instruction.isPlain

theorem plain_push (a : Assembly) (i : Instruction) :
    (a.push i).plain = a.plain ++ [i].filter Instruction.isPlain := by
  rw [plain, code_push, Array.toList_push, List.filter_append, plain]

theorem plain_push_of_isPlain {i : Instruction} (h : i.isPlain = true) :
    (a.push i).plain = a.plain ++ [i] := by
  rw [plain_push, List.filter_cons_of_pos h, List.filter_nil]

theorem plain_push_of_not_isPlain {i : Instruction} (h : i.isPlain = false) :
    (a.push i).plain = a.plain := by
  rw [plain_push, List.filter_cons_of_neg (Bool.eq_false_iff.mp h), List.filter_nil,
    List.append_nil]

@[simp] theorem plain_land (a : Assembly) (positions : List Nat) :
    (a.land positions).plain = a.plain := by
  have hfold : ∀ code : Array Instruction,
      (positions.foldl (fun code position => code.modify position (·.lead a.here))
        code).toList.filter Instruction.isPlain = code.toList.filter Instruction.isPlain := by
    induction positions with
    | nil => exact fun _ => rfl
    | cons position positions ih =>
      intro code
      rw [List.foldl_cons, ih, Array.toList_modify, Instruction.filter_isPlain_modify]
  exact hfold a.code

theorem plain_beginArm (a : Assembly) (pending : Nat) (exits : List Nat)
    (condition : Option Expr) : (a.beginArm pending exits condition).plain = a.plain := by
  have hland : ((a.push (.jump 0)).land [pending]).plain = a.plain := by
    rw [plain_land, plain_push_of_not_isPlain rfl]
  cases condition with
  | none => exact hland
  | some e =>
    change (((a.push (.jump 0)).land [pending]).push (.branch e 0)).plain = a.plain
    rw [plain_push_of_not_isPlain rfl, hland]

theorem plain_beginEmpty (a : Assembly) (head : Nat) : (a.beginEmpty head).plain = a.plain := by
  change ((a.push (.next (head + 1) 0)).land [head]).plain = a.plain
  rw [plain_land, plain_push_of_not_isPlain rfl]

theorem plain_conclude (a : Assembly) (frame : Frame) : (a.conclude frame).plain = a.plain := by
  rcases frame with _ | ⟨_, _ | _⟩ | _
  · exact plain_land a _
  · rw [conclude, plain_land, plain_push_of_not_isPlain rfl]
  · exact plain_land a _
  · rw [conclude, plain_land, plain_push_of_not_isPlain rfl]

theorem plain_leave (a : Assembly) : a.leave.plain = a.plain := by
  cases hf : a.frames with
  | nil => rw [leave, hf]
  | cons frame frames =>
    rw [leave_eq hf]
    exact plain_conclude _ frame

/-- A mark leaves the plain instructions as they are, and adds its own. -/
theorem Step.plain (h : Step o a m b) :
    ∃ added, m.Adds o a.modes added ∧ b.plain = a.plain ++ added := by
  cases h with
  | text literal => exact ⟨_, .text literal, plain_push_of_isPlain rfl⟩
  | output found parse => exact ⟨_, .expression found parse, plain_push_of_isPlain rfl⟩
  | exec found parse => exact ⟨_, .exec found parse, plain_push_of_isPlain rfl⟩
  | openIf | openFor | openWhile =>
    refine ⟨[], .nothing _ _, ?_⟩
    rw [List.append_nil]
    exact plain_push_of_not_isPlain rfl
  | @elif _ _ _ pending exits frames | @otherwise _ pending exits frames =>
    refine ⟨[], .nothing _ _, ?_⟩
    rw [List.append_nil]
    exact plain_beginArm { a with frames := frames } pending exits _
  | @empty _ head frames =>
    refine ⟨[], .nothing _ _, ?_⟩
    rw [List.append_nil]
    exact plain_beginEmpty { a with frames := frames } head
  | close =>
    refine ⟨[], .nothing _ _, ?_⟩
    rw [List.append_nil, plain_leave, Assembly.plain, code_forget, Assembly.plain]
  | mode => exact ⟨[], .nothing _ _, (List.append_nil _).symm⟩

end Assembly

end TemplateEngine

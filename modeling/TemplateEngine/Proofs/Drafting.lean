import TemplateEngine.Outline.Draft
import TemplateEngine.Proofs.Steps

/-!
# An assembly is the layout of a draft

While marks are read, an assembly and a draft stay in step (`Draft.Matches`): the code of the
assembly is the layout of the draft, and the positions that wait are those of its open
constructs. Every mark keeps this up (`Draft.Matches.mark`). The one step with an argument
in it is closing a construct: leading what waits to the present end of the code gives the
layout of the closed piece (`Part.code_conclude`).

In the end nothing is open, and the plan is the layout of an outline
(`Plan.exists_outline`). Statements about all plans are proved by induction over that outline.
-/

namespace TemplateEngine

/-! ## Leading what waits -/

/-- The code with the instructions at some positions led to a target. -/
def Instruction.leadAll (target : Nat) (positions : List Nat) (code : List Instruction) :
    List Instruction :=
  positions.foldl (fun code position => code.modify position (·.lead target)) code

namespace Instruction

theorem leadAll_cons (target p : Nat) (ps : List Nat) (code : List Instruction) :
    leadAll target (p :: ps) code = leadAll target ps (leadAll target [p] code) := rfl

theorem leadAll_append (target : Nat) (ps qs : List Nat) (code : List Instruction) :
    leadAll target (ps ++ qs) code = leadAll target qs (leadAll target ps code) := by
  simp [leadAll]

/-- Leading an instruction changes nothing before and behind it. -/
theorem leadAll_singleton {before : List Instruction} {position : Nat}
    (h : before.length = position) (target : Nat) (i : Instruction) (after : List Instruction) :
    leadAll target [position] (before ++ i :: after) = before ++ i.lead target :: after := by
  subst h
  induction before with
  | nil => rfl
  | cons j before ih => exact congrArg (j :: ·) ih

end Instruction

namespace Piece

@[simp] theorem length_emitArms (exit start : Nat) (arms : List (Expr × List Piece)) :
    (emitArms exit start arms).length = widthArms arms := by
  induction arms generalizing start with
  | nil => rfl
  | cons arm arms ih =>
    simp only [emitArms, widthArms, List.length_cons, List.length_append, length_emitAll, ih]
    omega

/-- The arms behind the first one begin behind its jump. -/
theorem add_widthArms_cons (start : Nat) (arm : Expr × List Piece)
    (arms : List (Expr × List Piece)) :
    start + widthAll arm.2 + 2 + widthArms arms = start + widthArms (arm :: arms) := by
  rw [widthArms]
  omega

theorem emitArms_snoc (exit start : Nat) (arms : List (Expr × List Piece)) (condition : Expr)
    (yes : List Piece) :
    emitArms exit start (arms ++ [(condition, yes)])
      = emitArms exit start arms
        ++ .branch condition (start + widthArms arms + widthAll yes + 2)
          :: (emitAll (start + widthArms arms + 1) yes ++ [.jump exit]) := by
  induction arms generalizing start with
  | nil => simp [emitArms, widthArms]
  | cons arm arms ih =>
    simp only [List.cons_append, emitArms, ih, add_widthArms_cons, List.append_assoc]

theorem exits_snoc (start : Nat) (arms : List (Expr × List Piece)) (condition : Expr)
    (yes : List Piece) :
    exits start (arms ++ [(condition, yes)])
      = exits start arms ++ [start + widthArms arms + widthAll yes + 1] := by
  induction arms generalizing start with
  | nil => simp [exits, widthArms]
  | cons arm arms ih =>
    simp only [List.cons_append, exits, ih, add_widthArms_cons]

/-- Leading the jumps behind arms is laying the arms out with another exit. -/
theorem leadAll_exits {before : List Instruction} {start : Nat} (h : before.length = start)
    (target exit : Nat) (arms : List (Expr × List Piece)) (after : List Instruction) :
    Instruction.leadAll target (exits start arms) (before ++ (emitArms exit start arms ++ after))
      = before ++ (emitArms target start arms ++ after) := by
  induction arms generalizing before start with
  | nil => rfl
  | cons arm arms ih =>
    obtain ⟨condition, yes⟩ := arm
    -- what precedes the jump of the first arm
    let other := start + widthAll yes + 2
    let head := before ++ .branch condition other :: emitAll (start + 1) yes
    have hhead : head.length = start + widthAll yes + 1 := by
      simp only [head, List.length_append, List.length_cons, length_emitAll]
      omega
    have hlead := Instruction.leadAll_singleton hhead target (.jump exit)
      (emitArms exit other arms ++ after)
    have hrest : (head ++ [Instruction.jump target]).length = other := by
      simp only [List.length_append, hhead, List.length_singleton, other]
    have hih := ih hrest
    simp only [head, List.append_assoc, List.cons_append, List.nil_append] at hlead hih
    simp only [exits, emitArms, List.cons_append, List.append_assoc]
    rw [← List.singleton_append, Instruction.leadAll_append, hlead]
    exact hih

/-- A chain of arms is laid out arm by arm, and all of them are left for the end. -/
theorem emitAll_chain (start : Nat) (arms : List (Expr × List Piece)) (no : List Piece) :
    emitAll start (chain arms no)
        = emitArms (start + widthArms arms + widthAll no) start arms
          ++ emitAll (start + widthArms arms) no
      ∧ widthAll (chain arms no) = widthArms arms + widthAll no := by
  induction arms generalizing start with
  | nil => simp [chain, emitArms, widthArms]
  | cons arm arms ih =>
    obtain ⟨condition, yes⟩ := arm
    obtain ⟨hcode, hwidth⟩ := ih (start + widthAll yes + 2)
    have hlast := add_widthArms_cons start (condition, yes) arms
    have hexit : start + widthAll yes + 2 + widthAll (chain arms no)
        = start + widthArms ((condition, yes) :: arms) + widthAll no := by
      rw [hwidth, ← hlast, Nat.add_assoc _ (widthArms arms)]
    constructor
    · simp only [chain, emitAll, emit, emitArms, hcode, hlast, hexit, List.append_nil,
        List.cons_append, List.append_assoc]
    · simp only [chain, widthAll, width, widthArms, hwidth]
      omega

end Piece

/-! ## Closing a construct -/

theorem Assembly.code_land {a : Assembly} {code : List Instruction} {stop : Nat}
    (h : a.code = code.toArray) (hstop : code.length = stop) (positions : List Nat) :
    (a.land positions).code = (Instruction.leadAll stop positions code).toArray := by
  have hhere : a.here = stop := by simp [Assembly.here, h, hstop]
  simp only [Assembly.land, hhere, h]
  clear h hhere hstop
  induction positions generalizing code with
  | nil => rfl
  | cons position positions ih =>
    simp only [List.foldl_cons, List.modify_toArray]
    exact ih

@[simp] theorem Part.length_code (start : Nat) (part : Part) :
    (part.code start).length = match part.opened with
      | .branch earlier _ => Piece.widthArms earlier + Piece.widthAll part.pieces + 1
      | .otherwise arms => Piece.widthArms arms + Piece.widthAll part.pieces
      | .loop _ | .repetition _ => Piece.widthAll part.pieces + 1
      | .empty _ body => Piece.widthAll body + Piece.widthAll part.pieces + 2 := by
  obtain ⟨opened, pieces⟩ := part
  cases opened <;>
    simp only [code, List.length_append, List.length_cons, Piece.length_emitArms,
      Piece.length_emitAll] <;>
    omega

/-- Pieces added to a part are laid out behind it. -/
theorem Part.code_append (start : Nat) (opened : Opened) (body pieces : List Piece) :
    code start ⟨opened, body ++ pieces⟩ = code start ⟨opened, body⟩
      ++ Piece.emitAll (start + (code start ⟨opened, body⟩).length) pieces := by
  rw [length_code]
  have hfirst : ∀ n : Nat, start + (n + Piece.widthAll body + 1)
      = start + n + 1 + Piece.widthAll body := by omega
  have hsecond : ∀ n : Nat, start + (n + Piece.widthAll body + 2)
      = start + n + 2 + Piece.widthAll body := by omega
  have hbody : start + (Piece.widthAll body + 1) = start + 1 + Piece.widthAll body := by omega
  cases opened <;>
    simp only [code, Piece.emitAll_append, List.append_assoc, List.cons_append, hfirst, hsecond,
      hbody, Nat.add_assoc start]

/-- **Closing a construct**: leading what waits in a part to the end of the code gives the layout
of the pieces that the part becomes. -/
theorem Part.code_conclude {a : Assembly} {before : List Instruction} {part : Part} {start : Nat}
    (hs : before.length = start) (h : a.code = (before ++ part.code start).toArray) :
    (a.conclude (part.frame start)).code
      = (before ++ Piece.emitAll start part.close).toArray := by
  have hlen : (before ++ part.code start).length = start + (part.code start).length := by
    rw [List.length_append, hs]
  obtain ⟨opened, pieces⟩ := part
  cases opened with
  | branch earlier condition =>
    have hlast : (before ++ Piece.emitArms 0 start earlier).length
        = start + Piece.widthArms earlier := by simp [hs]
    simp only [Assembly.conclude, frame, Option.toList_some, Instruction.leadAll_append,
      Assembly.code_land h hlen]
    simp only [code]
    rw [← List.append_assoc before, Instruction.leadAll_singleton hlast, List.append_assoc before,
      Piece.leadAll_exits hs]
    simp [close, Piece.emitAll_chain, Piece.emitAll, Piece.emit, Piece.widthAll, Piece.width,
      Instruction.lead, Nat.add_assoc]
  | otherwise arms =>
    simp only [Assembly.conclude, frame, Option.toList_none, List.nil_append,
      Assembly.code_land h hlen]
    simp only [code]
    rw [Piece.leadAll_exits hs]
    simp [close, Piece.emitAll_chain, Nat.add_assoc]
  | loop header =>
    -- the instruction that ends the body is new, and waits as well
    let stop := start + Piece.widthAll pieces + 2
    have hpush : (a.push (.next (start + 1) 0)).code
        = (before ++ Instruction.each header 0 :: Piece.emitAll (start + 1) pieces
          ++ [Instruction.next (start + 1) 0]).toArray := by
      simp [h, code]
    have hlast : (before ++ Instruction.each header 0 :: Piece.emitAll (start + 1) pieces).length
        = start + Piece.widthAll pieces + 1 := by
      simp only [List.length_append, hs, List.length_cons, Piece.length_emitAll]
      omega
    have hstop : (before ++ Instruction.each header 0 :: Piece.emitAll (start + 1) pieces
        ++ [Instruction.next (start + 1) 0]).length = stop := by
      rw [List.length_append, hlast, List.length_singleton]
    have hhere : a.here = start + Piece.widthAll pieces + 1 := by
      simpa [Assembly.here, h, code] using hlast
    simp only [Assembly.conclude, frame, hhere, Assembly.code_land hpush hstop]
    rw [Instruction.leadAll_cons, Instruction.leadAll_singleton hlast, List.append_assoc,
      List.cons_append, Instruction.leadAll_singleton hs]
    simp [close, Piece.emitAll, Piece.emit, Instruction.lead, stop]
  | empty header body =>
    have hlast : (before ++ Instruction.each header (start + Piece.widthAll body + 2)
        :: Piece.emitAll (start + 1) body).length = start + Piece.widthAll body + 1 := by
      simp only [List.length_append, hs, List.length_cons, Piece.length_emitAll]
      omega
    simp only [Assembly.conclude, frame, Assembly.code_land h hlen]
    simp only [code]
    rw [← List.cons_append, ← List.append_assoc, Instruction.leadAll_singleton hlast]
    simp [close, Piece.emitAll, Piece.emit, Instruction.lead, Nat.add_assoc]
    omega
  | repetition condition =>
    let stop := start + Piece.widthAll pieces + 2
    have hpush : (a.push (.jump start)).code
        = (before ++ Instruction.repetition condition 0 :: (Piece.emitAll (start + 1) pieces
          ++ [Instruction.jump start])).toArray := by
      simp [h, code]
    have hstop : (before ++ Instruction.repetition condition 0
        :: (Piece.emitAll (start + 1) pieces ++ [Instruction.jump start])).length = stop := by
      simp only [List.length_append, hs, List.length_cons, Piece.length_emitAll,
        List.length_nil, stop]
      omega
    simp only [Assembly.conclude, frame, Assembly.code_land hpush hstop]
    rw [Instruction.leadAll_singleton hs]
    simp [close, Piece.emitAll, Piece.emit, Instruction.lead, stop]

/-- Ending an arm with a jump, and leading its branch behind that, gives the layout of an arm that
has another one behind it. -/
theorem Part.code_endArm {a : Assembly} {before : List Instruction} {start : Nat}
    {earlier : List (Expr × List Piece)} {condition : Expr} {yes : List Piece}
    (hs : before.length = start)
    (h : a.code = (before ++ Part.code start ⟨.branch earlier condition, yes⟩).toArray) :
    ((a.push (.jump 0)).land [start + Piece.widthArms earlier]).code
      = (before ++ Piece.emitArms 0 start (earlier ++ [(condition, yes)])).toArray := by
  have hpush : (a.push (.jump 0)).code
      = (before ++ Piece.emitArms 0 start earlier ++ Instruction.branch condition 0
        :: (Piece.emitAll (start + Piece.widthArms earlier + 1) yes
          ++ [Instruction.jump 0])).toArray := by
    simp [h, code]
  have hlast : (before ++ Piece.emitArms 0 start earlier).length
      = start + Piece.widthArms earlier := by simp [hs]
  rw [Assembly.code_land hpush rfl, Instruction.leadAll_singleton hlast, Piece.emitArms_snoc]
  simp [Instruction.lead, hs, Nat.add_assoc]

/-- Ending the body of a loop, and leading the start of the loop behind that, gives the layout of
a loop whose `empty` part begins. -/
theorem Part.code_endLoop {a : Assembly} {before : List Instruction} {start : Nat}
    {header : LoopHeader} {body : List Piece} (hs : before.length = start)
    (h : a.code = (before ++ Part.code start ⟨.loop header, body⟩).toArray) :
    ((a.push (.next (start + 1) 0)).land [start]).code
      = (before ++ Part.code start ⟨.empty header body, []⟩).toArray := by
  have hpush : (a.push (.next (start + 1) 0)).code
      = (before ++ Instruction.each header 0 :: (Piece.emitAll (start + 1) body
        ++ [Instruction.next (start + 1) 0])).toArray := by
    simp [h, code]
  rw [Assembly.code_land hpush rfl, Instruction.leadAll_singleton hs]
  simp [code, Piece.emitAll, Instruction.lead, hs, Nat.add_assoc]

/-! ## What reading a mark does to a draft -/

namespace Draft

/-- What a mark can do to a draft. -/
inductive Step (o : Options) (d : Draft) : Mark → Draft → Prop
  | text (literal : Text) : Step o d (.text literal) (d.add [.literal literal])
  | output (found : Tag.Found) {body : Text} {value : Expr} (parse : Expr.parse body = .ok value) :
    Step o d (.expression found body) (d.add [.output value (o.escape d.modes)])
  | exec (found : Tag.Found) {code : Text} {statements : List Statement}
    (parse : Statement.parseAll code = .ok statements) :
    Step o d (.statement found (.exec code)) (d.add [.exec statements])
  | openIf (found : Tag.Found) {text : Text} {condition : Expr}
    (parse : Expr.parse text = .ok condition) :
    Step o d (.statement found (.openIf text)) (d.enter (.branch [] condition))
  | openFor (found : Tag.Found) {text : Text} {header : LoopHeader}
    (parse : LoopHeader.parse text = .ok header) :
    Step o d (.statement found (.openFor text)) (d.enter (.loop header))
  | openWhile (found : Tag.Found) {text : Text} {condition : Expr}
    (parse : Expr.parse text = .ok condition) :
    Step o d (.statement found (.openWhile text)) (d.enter (.repetition condition))
  | elif (found : Tag.Found) {text : Text} {condition : Expr} {e : Draft}
    (parse : Expr.parse text = .ok condition) (next : d.nextArm (.branch · condition) = some e) :
    Step o d (.statement found (.elif text)) e
  | otherwise (found : Tag.Found) {e : Draft} (next : d.nextArm .otherwise = some e) :
    Step o d (.statement found .otherwise) e
  | empty (found : Tag.Found) {e : Draft} (next : d.emptyArm = some e) :
    Step o d (.statement found .empty) e
  | close (found : Tag.Found) {directive : Directive} {construct : Construct} {e : Draft}
    (ends : directive.ends? = some construct) (closed : d.leave = some e) :
    Step o d (.statement found directive) e
  | mode (found : Tag.Found) {directive : Directive} {modes : List Bool}
    (change : directive.modes? d.modes = some modes) :
    Step o d (.statement found directive) { d with modes := modes }

theorem nextArm_eq_some {d e : Draft} {begin : List (Expr × List Piece) → Opened}
    (h : d.nextArm begin = some e) : ∃ outer earlier condition yes parts modes,
      d = ⟨outer, ⟨.branch earlier condition, yes⟩ :: parts, modes⟩
      ∧ e = ⟨outer, ⟨begin (earlier ++ [(condition, yes)]), []⟩ :: parts, modes⟩ := by
  unfold nextArm at h
  split at h
  · cases h
    exact ⟨_, _, _, _, _, _, rfl, rfl⟩
  · cases h

theorem emptyArm_eq_some {d e : Draft} (h : d.emptyArm = some e) :
    ∃ outer header body parts modes, d = ⟨outer, ⟨.loop header, body⟩ :: parts, modes⟩
      ∧ e = ⟨outer, ⟨.empty header body, []⟩ :: parts, modes⟩ := by
  unfold emptyArm at h
  split at h
  · cases h
    exact ⟨_, _, _, _, _, rfl, rfl⟩
  · cases h

theorem leave_eq_some {d e : Draft} (h : d.leave = some e) :
    ∃ outer part parts modes, d = ⟨outer, part :: parts, modes⟩
      ∧ e = (⟨outer, parts, modes⟩ : Draft).add part.close := by
  obtain ⟨outer, parts, modes⟩ := d
  cases parts with
  | nil => cases h
  | cons part parts =>
    cases h
    exact ⟨_, _, _, _, rfl, rfl⟩

/-- What comes after a successful parse. -/
theorem parse_bind_eq_some {α : Type} {result : Except ParseError α} {next : α → Option Draft}
    {e : Draft} (h : result.toOption >>= next = some e) :
    ∃ a, result = .ok a ∧ next a = some e := by
  cases result with
  | error => cases h
  | ok a => exact ⟨a, rfl, h⟩

/-- A mark that is read takes a step. -/
theorem step_of_mark {o : Options} {d e : Draft} {m : Mark} (h : d.mark o m = some e) :
    Step o d m e := by
  cases m with
  | text literal =>
    cases h
    exact .text literal
  | expression found body =>
    obtain ⟨value, parse, he⟩ := parse_bind_eq_some h
    cases he
    exact .output found parse
  | statement found directive =>
    cases directive with
    | openIf text =>
      obtain ⟨condition, parse, he⟩ := parse_bind_eq_some h
      cases he
      exact .openIf found parse
    | elif text =>
      obtain ⟨condition, parse, he⟩ := parse_bind_eq_some h
      exact .elif found parse he
    | otherwise => exact .otherwise found h
    | openFor text =>
      obtain ⟨header, parse, he⟩ := parse_bind_eq_some h
      cases he
      exact .openFor found parse
    | empty => exact .empty found h
    | openWhile text =>
      obtain ⟨condition, parse, he⟩ := parse_bind_eq_some h
      cases he
      exact .openWhile found parse
    | endIf | endFor | endWhile => exact .close found rfl h
    | exec code =>
      obtain ⟨statements, parse, he⟩ := parse_bind_eq_some h
      cases he
      exact .exec found parse
    | autoescape | endAutoescape =>
      obtain ⟨modes, change, he⟩ := Option.bind_eq_some_iff.mp h
      cases he
      exact .mode found change
    | strayEndBlock | strayExtends | unknown => cases h

end Draft

/-! ## Reading in step -/

/-- The code of an assembly and the positions that wait in it are the layout of a draft. -/
structure Draft.Matches (d : Draft) (a : Assembly) : Prop where
  code : a.code = d.code.toArray
  frames : a.frames = d.frames
  modes : a.modes = d.modes

namespace Draft

theorem code_add (d : Draft) (pieces : List Piece) :
    (d.add pieces).code = d.code ++ Piece.emitAll d.code.length pieces := by
  obtain ⟨before, parts, modes⟩ := d
  cases parts with
  | nil => simp [add, code, codeOf, Piece.emitAll_append]
  | cons part parts =>
    simp only [add, code, codeOf, Part.code_append, List.append_assoc, List.length_append]

theorem frames_add (d : Draft) (pieces : List Piece) : (d.add pieces).frames = d.frames := by
  obtain ⟨before, parts, modes⟩ := d
  cases parts with
  | nil => rfl
  | cons part parts =>
    obtain ⟨opened, body⟩ := part
    cases opened <;> rfl

theorem modes_add (d : Draft) (pieces : List Piece) : (d.add pieces).modes = d.modes := by
  obtain ⟨before, parts, modes⟩ := d
  cases parts <;> rfl

namespace Matches

variable {d : Draft} {a : Assembly}

theorem here (h : d.Matches a) : a.here = d.code.length := by
  simp [Assembly.here, h.code]

/-- A piece of one instruction is added as that instruction. -/
theorem push (h : d.Matches a) {piece : Piece} {i : Instruction}
    (hi : Piece.emitAll d.code.length [piece] = [i]) : (d.add [piece]).Matches (a.push i) where
  code := by simp [h.code, code_add, hi]
  frames := h.frames.trans (frames_add d _).symm
  modes := h.modes.trans (modes_add d _).symm

/-- A construct is opened by its first instruction. -/
theorem enter (h : d.Matches a) (opened : Opened) {i : Instruction} {frame : Frame}
    (hi : (⟨opened, []⟩ : Part).code d.code.length = [i])
    (hf : (⟨opened, []⟩ : Part).frame d.code.length = frame) :
    (d.enter opened).Matches (a.enter i frame) where
  code := by
    simpa [Assembly.enter, h.code, Draft.enter, Draft.code, codeOf] using hi.symm
  frames := by
    simp [Assembly.enter, h.frames, Draft.enter, Draft.frames, framesOf, ← hf, Draft.code]
  modes := h.modes

/-- The innermost construct is closed, if there is one. -/
theorem leave (h : d.Matches a) (hf : a.frames ≠ []) :
    ∃ e, d.leave = some e ∧ e.Matches a.leave := by
  obtain ⟨pieces, parts, modes⟩ := d
  cases parts with
  | nil => exact absurd h.frames hf
  | cons part parts =>
    obtain ⟨hcode, hframes, hmodes⟩ := h
    have hleave : a.leave = { a with frames := framesOf pieces parts }.conclude
        (part.frame (codeOf pieces parts).length) := by
      rw [Assembly.leave_eq hframes]
    refine ⟨_, rfl, ⟨?_, ?_, ?_⟩⟩
    · have hclosed := Part.code_conclude (a := { a with frames := framesOf pieces parts }) rfl hcode
      rw [hleave, hclosed, code_add]
      rfl
    · rw [hleave, Assembly.frames_conclude, frames_add]
      rfl
    · rw [hleave, Assembly.modes_conclude, modes_add]
      exact hmodes

/-- The innermost `if` gets another arm. -/
theorem nextArm (h : d.Matches a) {pending : Nat} {exits : List Nat} {frames : List Frame}
    (hf : a.frames = .branch (some pending) exits :: frames) (condition : Option Expr) :
    ∃ e, d.nextArm (match condition with | some e => (.branch · e) | none => .otherwise) = some e
      ∧ e.Matches ({ a with frames := frames }.beginArm pending exits condition) := by
  obtain ⟨pieces, parts, modes⟩ := d
  obtain ⟨hcode, hframes, hmodes⟩ := h
  rw [hf] at hframes
  cases parts with
  | nil => cases hframes
  | cons part parts =>
    obtain ⟨opened, yes⟩ := part
    cases opened with
    | branch earlier first =>
      simp only [Draft.frames, framesOf, Part.frame, List.cons.injEq, Frame.branch.injEq,
        Option.some.injEq] at hframes
      obtain ⟨⟨rfl, rfl⟩, rfl⟩ := hframes
      have hend := Part.code_endArm (a := { a with frames := framesOf pieces parts }) rfl hcode
      have hhere : a.here = (codeOf pieces parts).length
          + Piece.widthArms earlier + Piece.widthAll yes + 1 := by
        simp [Assembly.here, hcode, Draft.code, codeOf, Nat.add_assoc]
      have hstop : ({ a with frames := framesOf pieces parts } : Assembly).here = a.here := rfl
      cases condition with
      | none =>
        refine ⟨_, rfl, ⟨?_, ?_, hmodes⟩⟩
        · simpa [Assembly.beginArm, Draft.code, codeOf, Part.code, Piece.emitAll] using hend
        · simp only [Assembly.beginArm, hstop, hhere]
          simp [Draft.frames, framesOf, Part.frame, Piece.exits_snoc, Assembly.land, Assembly.push]
      | some second =>
        refine ⟨_, rfl, ⟨?_, ?_, hmodes⟩⟩
        · simp [Assembly.beginArm, Assembly.enter, hend, Draft.code, codeOf, Part.code,
            Piece.emitAll]
        · have hnext : (({ a with frames := framesOf pieces parts }.push (.jump 0)).land
              [(codeOf pieces parts).length + Piece.widthArms earlier]).here
              = (codeOf pieces parts).length + Piece.widthArms (earlier ++ [(first, yes)]) := by
            simp [Assembly.here, hend]
          simp only [Assembly.beginArm, Assembly.enter, hstop, hhere, hnext]
          simp [Draft.frames, framesOf, Part.frame, Piece.exits_snoc, Assembly.land, Assembly.push]
    | otherwise arms => cases hframes
    | loop header => cases hframes
    | empty header body => cases hframes
    | repetition first => cases hframes

/-- The innermost loop gets its `empty` part. -/
theorem emptyArm (h : d.Matches a) {head : Nat} {frames : List Frame}
    (hf : a.frames = .loop head none :: frames) :
    ∃ e, d.emptyArm = some e ∧ e.Matches ({ a with frames := frames }.beginEmpty head) := by
  obtain ⟨pieces, parts, modes⟩ := d
  obtain ⟨hcode, hframes, hmodes⟩ := h
  rw [hf] at hframes
  cases parts with
  | nil => cases hframes
  | cons part parts =>
    obtain ⟨opened, body⟩ := part
    cases opened with
    | loop header =>
      simp only [Draft.frames, framesOf, Part.frame, List.cons.injEq, Frame.loop.injEq,
        and_true] at hframes
      obtain ⟨rfl, rfl⟩ := hframes
      have hend := Part.code_endLoop (a := { a with frames := framesOf pieces parts }) rfl hcode
      refine ⟨_, rfl, ⟨?_, ?_, hmodes⟩⟩
      · simpa [Assembly.beginEmpty, Draft.code, codeOf, Part.code, Piece.emitAll] using hend
      · simp [Assembly.beginEmpty, Draft.frames, framesOf, Part.frame, Assembly.here,
          Assembly.land, Assembly.push, hcode, Draft.code, codeOf, Part.code, Nat.add_assoc]
    | branch earlier first => cases hframes
    | otherwise arms => cases hframes
    | empty header first => cases hframes
    | repetition condition => cases hframes

/-- The opening tags of an assembly are nothing to a draft. -/
theorem congr (h : d.Matches a) {b : Assembly} (hcode : b.code = a.code)
    (hframes : b.frames = a.frames) (hmodes : b.modes = a.modes) : d.Matches b :=
  ⟨hcode.trans h.code, hframes.trans h.frames, hmodes.trans h.modes⟩

/-- **Reading in step**: whatever a mark does to an assembly it does to the draft as well. -/
theorem mark (h : d.Matches a) (hbalanced : a.Balanced) {o : Options} {m : Mark} {b : Assembly}
    (hstep : Assembly.Step o a m b) : ∃ e, d.mark o m = some e ∧ e.Matches b := by
  cases hstep with
  | text literal => exact ⟨_, rfl, h.push rfl⟩
  | @output found _ e parse =>
    refine ⟨d.add [.output e (o.escape d.modes)], by simp [Draft.mark, parse, Except.toOption], ?_⟩
    rw [← h.modes]
    exact h.push rfl
  | exec found parse =>
    exact ⟨_, by simp [Draft.mark, Draft.directive, parse, Except.toOption]; rfl, h.push rfl⟩
  | @openIf found _ e parse =>
    refine ⟨d.enter (.branch [] e),
      by simp [Draft.mark, Draft.directive, parse, Except.toOption], ?_⟩
    exact (h.enter (.branch [] e) rfl (by rw [h.here]; rfl)).congr rfl rfl rfl
  | @openFor found _ header parse =>
    refine ⟨d.enter (.loop header),
      by simp [Draft.mark, Draft.directive, parse, Except.toOption], ?_⟩
    exact (h.enter (.loop header) rfl (by rw [h.here]; rfl)).congr rfl rfl rfl
  | @openWhile found _ e parse =>
    refine ⟨d.enter (.repetition e),
      by simp [Draft.mark, Draft.directive, parse, Except.toOption], ?_⟩
    exact (h.enter (.repetition e) rfl (by rw [h.here]; rfl)).congr rfl rfl rfl
  | @elif found _ e _ _ _ parse innermost =>
    obtain ⟨d', hd, hmatch⟩ := h.nextArm innermost (some e)
    exact ⟨d', by simpa [Draft.mark, Draft.directive, parse, Except.toOption] using hd, hmatch⟩
  | otherwise found innermost => exact h.nextArm innermost none
  | empty found innermost => exact h.emptyArm innermost
  | @close found directive construct ends opened =>
    have hforget : d.Matches (a.forget construct) := h.congr (by simp) (by simp) (by simp)
    obtain ⟨d', hd, hmatch⟩ := hforget.leave (by simpa using hbalanced.frames_ne_nil opened)
    refine ⟨d', ?_, hmatch⟩
    cases directive <;> first | exact hd | cases ends
  | @mode found directive modes change =>
    rw [h.modes] at change
    refine ⟨{ d with modes := modes }, ?_, ⟨h.code, h.frames, rfl⟩⟩
    cases directive <;> first | cases change | simp [Draft.mark, Draft.directive, change]

/-- Marks that are read without an error are read in step. -/
theorem read {o : Options} {text : Text} {marks : List Mark} {b : Assembly} (h : d.Matches a)
    (hbalanced : a.Balanced) (hread : a.read o text marks = .ok b) :
    ∃ e, d.read o marks = some e ∧ e.Matches b := by
  induction marks generalizing d a with
  | nil =>
    cases hread
    exact ⟨d, rfl, h⟩
  | cons m marks ih =>
    obtain ⟨c, hstep, hrest⟩ := Assembly.read_cons_eq_ok hread
    obtain ⟨e, hmark, hmatch⟩ := h.mark hbalanced hstep
    obtain ⟨e', hrun, hlast⟩ := ih hmatch (hbalanced.step hstep) hrest
    exact ⟨e', by rw [Draft.read, List.foldlM_cons, hmark]; exact hrun, hlast⟩

end Matches

/-- A draft with no open construct is laid out as its pieces. -/
theorem frames_eq_nil {d : Draft} : d.frames = [] ↔ d.parts = [] := by
  obtain ⟨pieces, parts, modes⟩ := d
  cases parts <;> simp [frames, framesOf]

end Draft

/-- What reads as a plan leaves nothing open. -/
theorem Assembly.finish_eq_ok {text : Text} {a : Assembly} {plan : Plan}
    (h : a.finish text = .ok plan) : a.unclosed? = none ∧ plan = ⟨a.code⟩ := by
  rw [Assembly.finish] at h
  split at h
  · cases h
  · next hu => exact ⟨hu, (Except.ok.inj h).symm⟩

/-- What reads as a plan reads without an error. -/
theorem Plan.read_eq_ok {o : Options} {text : Text} {plan : Plan}
    (h : Plan.read o text = .ok plan) :
    ∃ a, Assembly.read o text {} (Outline.marks o text) = .ok a ∧ a.finish text = .ok plan := by
  rw [Plan.read] at h
  cases ha : Assembly.read o text {} (Outline.marks o text) with
  | error e =>
    rw [ha] at h
    cases h
  | ok a =>
    rw [ha] at h
    exact ⟨a, rfl, h⟩

/-- **A plan is the layout of an outline**, the one that a draft reads from the same marks. -/
theorem Plan.exists_outline {o : Options} {text : Text} {plan : Plan}
    (h : Plan.read o text = .ok plan) :
    ∃ (outline : Outline) (modes : List Bool),
      Draft.read o {} (Outline.marks o text) = some ⟨outline, [], modes⟩
      ∧ plan = outline.plan := by
  obtain ⟨a, hread, hfinish⟩ := Plan.read_eq_ok h
  obtain ⟨hunclosed, rfl⟩ := Assembly.finish_eq_ok hfinish
  have hstart : (⟨[], [], []⟩ : Draft).Matches {} := ⟨rfl, rfl, rfl⟩
  obtain ⟨⟨outline, parts, modes⟩, hd, hmatch⟩ := hstart.read rfl hread
  have hframes : a.frames = [] := (Assembly.balanced_of_read hread).frames_eq_nil hunclosed
  obtain rfl : parts = [] := Draft.frames_eq_nil.mp (hmatch.frames.symm.trans hframes)
  refine ⟨outline, modes, hd, ?_⟩
  rw [hmatch.code]
  rfl

end TemplateEngine

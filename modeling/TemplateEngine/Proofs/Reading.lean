import TemplateEngine.Outline.Draft
import TemplateEngine.Outline.Grammar
import TemplateEngine.Proofs.Drafting

/-!
# Drafts read by the grammar

A draft takes every end tag to close the innermost construct. Where every end tag does name
the innermost construct, it reads what the grammar reads: marks that the grammar reads as
pieces add just these pieces to a draft (`Outline.Reads.read`), so they read as one outline only;
and what a draft has read is spelled by the marks behind it (`Draft.Spelled`), so marks that
a draft reads to the end do read as an outline (`Outline.exists_reads`).
-/

namespace TemplateEngine

namespace Draft

variable {o : Options} {d e : Draft}

theorem add_add (d : Draft) (pieces rest : List Piece) :
    (d.add pieces).add rest = d.add (pieces ++ rest) := by
  obtain ⟨outer, parts, modes⟩ := d
  cases parts <;> simp [add]

theorem add_nil (d : Draft) : d.add [] = d := by
  obtain ⟨outer, parts, modes⟩ := d
  cases parts <;> simp [add]

/-- What is added has nothing to do with the modes. -/
theorem modes_add_comm (d : Draft) (pieces : List Piece) (modes : List Bool) :
    { d.add pieces with modes := modes } = ({ d with modes := modes } : Draft).add pieces := by
  obtain ⟨outer, parts, before⟩ := d
  cases parts <;> rfl

theorem read_cons {m : Mark} (h : d.mark o m = some e) (marks : List Mark) :
    d.read o (m :: marks) = e.read o marks := by
  simp [read, h]

theorem read_append {marks : List Mark} (h : d.read o marks = some e) (more : List Mark) :
    d.read o (marks ++ more) = e.read o more := by
  rw [read] at h
  simp [read, h]

/-- A mark that adds a piece, and the marks behind it. -/
theorem read_piece {m : Mark} {marks : List Mark} {piece : Piece} {rest : List Piece}
    {behind : List Bool} (hmark : d.mark o m = some (d.add [piece]))
    (hrest : (d.add [piece]).read o marks
      = some (({ d.add [piece] with modes := behind } : Draft).add rest)) :
    d.read o (m :: marks) = some (({ d with modes := behind } : Draft).add (piece :: rest)) := by
  rw [read_cons hmark, hrest, modes_add_comm, add_add]
  rfl

/-- An opening tag, the marks inside of its construct, those that close it and those behind it. -/
theorem read_construct (opened : Opened) {m : Mark} {inside marks : List Mark}
    (closing : List Mark) {pieces rest : List Piece} {piece : Piece} {inner last behind : List Bool}
    (hmark : d.mark o m = some (d.enter opened))
    (hinside : (d.enter opened).read o inside
      = some (({ d.enter opened with modes := inner } : Draft).add pieces))
    (hclosing : (⟨d.pieces, ⟨opened, pieces⟩ :: d.parts, inner⟩ : Draft).read o closing
      = some ((⟨d.pieces, d.parts, last⟩ : Draft).add [piece]))
    (hrest : ((⟨d.pieces, d.parts, last⟩ : Draft).add [piece]).read o marks
      = some (({ (⟨d.pieces, d.parts, last⟩ : Draft).add [piece] with
          modes := behind } : Draft).add rest)) :
    d.read o (m :: (inside ++ (closing ++ marks)))
      = some (({ d with modes := behind } : Draft).add (piece :: rest)) := by
  rw [read_cons hmark, read_append hinside]
  refine (read_append hclosing marks).trans ?_
  rw [hrest, modes_add_comm, add_add]
  rfl

end Draft

theorem Piece.chain_snoc (arms : List (Expr × List Piece)) (condition : Expr)
    (yes no : List Piece) :
    chain (arms ++ [(condition, yes)]) no = chain arms [.branch condition yes (some no)] := by
  induction arms with
  | nil => rfl
  | cons arm arms ih => simp [chain, ih]

namespace Outline

variable {o : Options}

mutual

/-- **Reading adds the pieces**: a draft adds the pieces that marks read as. -/
theorem Reads.read {modes behind : List Bool} {marks : List Mark} {pieces : Outline} :
    Reads o modes marks pieces behind → ∀ {d : Draft}, d.modes = modes →
    d.read o marks = some (({ d with modes := behind } : Draft).add pieces)
  | .nil _, d, hd => by
    subst hd
    rw [Draft.add_nil]
    rfl
  | .text literal h, d, hd => Draft.read_piece rfl (h.read ((Draft.modes_add d _).trans hd))
  | .output found parse h, d, hd => by
    subst hd
    exact Draft.read_piece (by simp [Draft.mark, parse, Except.toOption])
      (h.read (Draft.modes_add d _))
  | .exec found parse h, d, hd =>
    Draft.read_piece (by simp [Draft.mark, Draft.directive, parse, Except.toOption])
      (h.read ((Draft.modes_add d _).trans hd))
  | @Reads.mode _ _ inner _ _ _ found directive change h, d, hd => by
    subst hd
    have hmark : d.mark o (.statement found directive) = some { d with modes := inner } := by
      cases directive <;> first | cases change | simp [Draft.mark, Draft.directive, change]
    rw [Draft.read_cons hmark, h.read rfl]
  | @Reads.branch _ _ _ _ _ _ _ _ _ _ _ found _ e parse hyes hno h, d, hd =>
    Draft.read_construct (.branch [] e) _
      (by simp [Draft.mark, Draft.directive, parse, Except.toOption]) (hyes.read hd)
      hno.read_branch (h.read (Draft.modes_add _ _))
  | @Reads.loop _ _ _ _ _ _ _ _ _ _ _ found _ header parse hbody hempty h, d, hd =>
    Draft.read_construct (.loop header) _
      (by simp [Draft.mark, Draft.directive, parse, Except.toOption]) (hbody.read hd)
      hempty.read_loop (h.read (Draft.modes_add _ _))
  | @Reads.repetition _ _ _ _ _ _ _ _ found last _ e parse hbody h, d, hd =>
    Draft.read_construct (.repetition e) [.statement last .endWhile]
      (by simp [Draft.mark, Draft.directive, parse, Except.toOption]) (hbody.read hd)
      rfl (h.read (Draft.modes_add _ _))

/-- The rest of an `if` closes it. -/
theorem Other.read_branch {modes behind : List Bool} {marks : List Mark} {no : Option Outline}
    {outer : List Piece} {parts : List Part} {earlier : List (Expr × List Piece)}
    {condition : Expr} {yes : List Piece} : Other o .branch modes marks no behind →
    (⟨outer, ⟨.branch earlier condition, yes⟩ :: parts, modes⟩ : Draft).read o marks
      = some ((⟨outer, parts, behind⟩ : Draft).add
          (Piece.chain earlier [.branch condition yes no]))
  | .endIf _ _ => rfl
  | .otherwise found last hno => by
    rw [Draft.read_cons (m := .statement found .otherwise) rfl, Draft.read_append (hno.read rfl),
      ← Piece.chain_snoc]
    rfl
  | @Other.elif _ _ _ _ _ _ _ _ found text e parse hyes hno => by
    have hmark : (⟨outer, ⟨.branch earlier condition, yes⟩ :: parts, modes⟩ : Draft).mark o
        (.statement found (.elif text))
        = some ⟨outer, ⟨.branch (earlier ++ [(condition, yes)]) e, []⟩ :: parts, modes⟩ := by
      simp [Draft.mark, Draft.directive, parse, Except.toOption, Draft.nextArm]
    rw [Draft.read_cons hmark, Draft.read_append (hyes.read rfl), ← Piece.chain_snoc]
    exact hno.read_branch

/-- The rest of a `for` closes it. -/
theorem Other.read_loop {modes behind : List Bool} {marks : List Mark} {empty : Option Outline}
    {outer : List Piece} {parts : List Part} {header : LoopHeader} {body : List Piece} :
    Other o .loop modes marks empty behind →
    (⟨outer, ⟨.loop header, body⟩ :: parts, modes⟩ : Draft).read o marks
      = some ((⟨outer, parts, behind⟩ : Draft).add [.loop header body empty])
  | .endFor _ _ => rfl
  | .empty found last hnone => by
    rw [Draft.read_cons (m := .statement found .empty) rfl, Draft.read_append (hnone.read rfl)]
    rfl

end

/-- Marks read as one outline only. -/
theorem Reads.unique {modes behind behind' : List Bool} {marks : List Mark}
    {pieces pieces' : Outline} (h : Reads o modes marks pieces behind)
    (h' : Reads o modes marks pieces' behind') : pieces = pieces' := by
  have hread := (h.read (d := ⟨[], [], modes⟩) rfl).symm.trans (h'.read rfl)
  exact congrArg Draft.pieces (Option.some.inj hread)

end Outline

/-! ## Marks behind a draft -/

open Outline (Reads Other EndsMatch)

/-- The construct that an open part belongs to. -/
def Opened.construct : Opened → Construct
  | .branch _ _ | .otherwise _ => .branch
  | .loop _ | .empty _ _ => .loop
  | .repetition _ => .repetition

/-- The constructs that are open in a draft, from the innermost. -/
def Draft.constructs (d : Draft) : List Construct := d.parts.map (·.opened.construct)

variable {o : Options}

/-- Marks begin a construct: whatever reads as its last part and closes it makes them read as
the whole construct. -/
def Opened.Begins (o : Options) (before : List Bool) (marks : List Mark) (opened : Opened)
    (inner : List Bool) : Prop :=
  match opened with
  | .branch earlier condition =>
    ∀ (inside others : List Mark) (yes : List Piece) (no : Option (List Piece))
      (middle behind : List Bool), Reads o inner inside yes middle →
      Other o .branch middle others no behind →
      Reads o before (marks ++ (inside ++ others))
        (Piece.chain earlier [.branch condition yes no]) behind
  | .otherwise arms =>
    ∀ (inside : List Mark) (no : List Piece) (behind : List Bool) (last : Tag.Found),
      Reads o inner inside no behind →
      Reads o before (marks ++ (inside ++ [.statement last .endIf])) (Piece.chain arms no) behind
  | .loop header =>
    ∀ (inside others : List Mark) (body : List Piece) (empty : Option (List Piece))
      (middle behind : List Bool), Reads o inner inside body middle →
      Other o .loop middle others empty behind →
      Reads o before (marks ++ (inside ++ others)) [.loop header body empty] behind
  | .empty header body =>
    ∀ (inside : List Mark) (empty : List Piece) (behind : List Bool) (last : Tag.Found),
      Reads o inner inside empty behind →
      Reads o before (marks ++ (inside ++ [.statement last .endFor]))
        [.loop header body (some empty)] behind
  | .repetition condition =>
    ∀ (inside : List Mark) (body : List Piece) (behind : List Bool) (last : Tag.Found),
      Reads o inner inside body behind →
      Reads o before (marks ++ (inside ++ [.statement last .endWhile]))
        [.repetition condition body] behind

/-- Closing a construct by an end tag that names it. -/
theorem Opened.Begins.close {before inner behind : List Bool} {marks inside : List Mark}
    {part : Part} {directive : Directive} (h : part.opened.Begins o before marks inner)
    (found : Tag.Found) (hinside : Reads o inner inside part.pieces behind)
    (hends : directive.ends? = some part.opened.construct) :
    Reads o before (marks ++ (inside ++ [.statement found directive])) part.close behind := by
  obtain ⟨opened, pieces⟩ := part
  cases opened with
  | branch earlier condition =>
    cases directive <;> cases hends
    exact h _ _ _ _ _ _ hinside (.endIf behind found)
  | otherwise arms =>
    cases directive <;> cases hends
    exact h _ _ _ found hinside
  | loop header =>
    cases directive <;> cases hends
    exact h _ _ _ _ _ _ hinside (.endFor behind found)
  | empty header body =>
    cases directive <;> cases hends
    exact h _ _ _ found hinside
  | repetition condition =>
    cases directive <;> cases hends
    exact h _ _ _ found hinside

namespace Opened.Begins

variable {before inner modes : List Bool} {marks inside : List Mark} {pieces : List Piece}
  {condition e : Expr} {text : Text} {header : LoopHeader} {earlier : List (Expr × List Piece)}

theorem branch (found : Tag.Found) (parse : Expr.parse text = .ok e) :
    (Opened.branch [] e).Begins o modes [.statement found (.openIf text)] modes := by
  intro inside others yes no middle behind hyes hno
  simpa [Piece.chain] using Reads.branch found parse hyes hno (.nil behind)

theorem loop (found : Tag.Found) (parse : LoopHeader.parse text = .ok header) :
    (Opened.loop header).Begins o modes [.statement found (.openFor text)] modes := by
  intro inside others body empty middle behind hbody hempty
  simpa using Reads.loop found parse hbody hempty (.nil behind)

theorem repetition (found : Tag.Found) (parse : Expr.parse text = .ok e) :
    (Opened.repetition e).Begins o modes [.statement found (.openWhile text)] modes := by
  intro inside body behind last hbody
  exact Reads.repetition found last parse hbody (.nil behind)

theorem elif (h : (Opened.branch earlier condition).Begins o before marks inner)
    (hinside : Reads o inner inside pieces modes) (found : Tag.Found)
    (parse : Expr.parse text = .ok e) :
    (Opened.branch (earlier ++ [(condition, pieces)]) e).Begins o before
      (marks ++ (inside ++ [.statement found (.elif text)])) modes := by
  intro inside others yes no middle behind hyes hno
  simpa [Piece.chain_snoc] using h _ _ _ _ _ _ hinside (.elif found parse hyes hno)

theorem otherwise (h : (Opened.branch earlier condition).Begins o before marks inner)
    (hinside : Reads o inner inside pieces modes) (found : Tag.Found) :
    (Opened.otherwise (earlier ++ [(condition, pieces)])).Begins o before
      (marks ++ (inside ++ [.statement found .otherwise])) modes := by
  intro inside no behind last hno
  simpa [Piece.chain_snoc] using h _ _ _ _ _ _ hinside (.otherwise found last hno)

theorem empty (h : (Opened.loop header).Begins o before marks inner)
    (hinside : Reads o inner inside pieces modes) (found : Tag.Found) :
    (Opened.empty header pieces).Begins o before
      (marks ++ (inside ++ [.statement found .empty])) modes := by
  intro inside none behind last hnone
  simpa using h _ _ _ _ _ _ hinside (.empty found last hnone)

end Opened.Begins

/-- Marks spell a draft: they read as its pieces, and for each open construct go on with marks that
begin it and with marks that read as the pieces in it. -/
inductive Draft.Spelled (o : Options) : List Mark → Draft → Prop
  | outer {marks : List Mark} {pieces : List Piece} {modes : List Bool}
    (h : Reads o [] marks pieces modes) : Spelled o marks ⟨pieces, [], modes⟩
  | inner {before marks inside : List Mark} {outer : List Piece} {parts : List Part} {part : Part}
    {outside inner modes : List Bool} (h : Spelled o before ⟨outer, parts, outside⟩)
    (hbegins : part.opened.Begins o outside marks inner)
    (hinside : Reads o inner inside part.pieces modes) :
    Spelled o (before ++ (marks ++ inside)) ⟨outer, part :: parts, modes⟩

namespace Draft.Spelled

variable {marks : List Mark} {d e : Draft}

/-- Marks that read as pieces spell them. -/
theorem add (h : Spelled o marks d) {more : List Mark} {pieces : List Piece} {behind : List Bool}
    (hmore : Reads o d.modes more pieces behind) :
    Spelled o (marks ++ more) (({ d with modes := behind } : Draft).add pieces) := by
  cases h with
  | outer h => exact .outer (h.append hmore)
  | inner h hbegins hinside =>
    rw [List.append_assoc, List.append_assoc]
    exact .inner h hbegins (hinside.append hmore)

theorem enter (h : Spelled o marks d) {m : Mark} {opened : Opened}
    (hbegins : opened.Begins o d.modes [m] d.modes) :
    Spelled o (marks ++ [m]) (d.enter opened) :=
  @inner o marks [m] [] d.pieces d.parts ⟨opened, []⟩ d.modes d.modes d.modes h hbegins
    (.nil d.modes)

/-- The innermost construct is closed by an end tag that names it. -/
theorem leave (h : Spelled o marks d) {found : Tag.Found} {directive : Directive}
    (hends : directive.ends? = d.constructs.head?)
    (hleave : d.leave = some e) : Spelled o (marks ++ [.statement found directive]) e := by
  obtain ⟨outer, part, parts, modes, rfl, rfl⟩ := leave_eq_some hleave
  cases h with
  | inner h hbegins hinside => simpa using h.add (hbegins.close found hinside hends)

/-- An arm of the innermost `if` ends, and another begins. -/
theorem nextArm (h : Spelled o marks d) {m : Mark} {begin : List (Expr × List Piece) → Opened}
    (hbegin : ∀ {earlier condition before opening inner inside yes modes},
      (Opened.branch earlier condition).Begins o before opening inner →
      Reads o inner inside yes modes →
      (begin (earlier ++ [(condition, yes)])).Begins o before (opening ++ (inside ++ [m])) modes)
    (hnext : d.nextArm begin = some e) : Spelled o (marks ++ [m]) e := by
  obtain ⟨outer, earlier, condition, yes, parts, modes, rfl, rfl⟩ := nextArm_eq_some hnext
  cases h with
  | @inner before opening inside _ _ _ outside inner _ h hbegins hinside =>
    -- what was read inside the arm now belongs to what begins the next one
    have hspelled := @Spelled.inner o before _ [] outer parts ⟨_, []⟩ outside modes modes h
      (hbegin hbegins hinside) (.nil modes)
    simpa using hspelled

/-- The body of the innermost loop ends, and its `empty` part begins. -/
theorem emptyArm (h : Spelled o marks d) (found : Tag.Found) (hempty : d.emptyArm = some e) :
    Spelled o (marks ++ [.statement found .empty]) e := by
  obtain ⟨outer, header, body, parts, modes, rfl, rfl⟩ := emptyArm_eq_some hempty
  cases h with
  | @inner before opening inside _ _ _ outside inner _ h hbegins hinside =>
    have hspelled := @Spelled.inner o before _ [] outer parts ⟨.empty header body, []⟩ outside
      modes modes h (Opened.Begins.empty hbegins hinside found) (.nil modes)
    simpa using hspelled

/-- A mark is spelled as well, provided that it names the innermost construct if it is an end
tag. -/
theorem mark (h : Spelled o marks d) {m : Mark}
    (hends : m.ends? = none ∨ m.ends? = d.constructs.head?) (hstep : Draft.Step o d m e) :
    Spelled o (marks ++ [m]) e := by
  cases hstep with
  | text literal => exact h.add (.text literal (.nil d.modes))
  | output found parse => exact h.add (.output found parse (.nil d.modes))
  | exec found parse => exact h.add (.exec found parse (.nil d.modes))
  | openIf found parse => exact h.enter (Opened.Begins.branch found parse)
  | openFor found parse => exact h.enter (Opened.Begins.loop found parse)
  | openWhile found parse => exact h.enter (Opened.Begins.repetition found parse)
  | elif found parse hnext =>
    exact h.nextArm (fun hbegins hinside => hbegins.elif hinside found parse) hnext
  | otherwise found hnext =>
    exact h.nextArm (fun hbegins hinside => hbegins.otherwise hinside found) hnext
  | empty found hempty => exact h.emptyArm found hempty
  | @close found directive construct e ends hleave =>
    have hsome : directive.ends? ≠ none := by simp [ends]
    exact h.leave (hends.resolve_left hsome) hleave
  | @mode found directive modes change =>
    have hadd := h.add (.mode found change (.nil modes))
    rwa [Draft.add_nil] at hadd

end Draft.Spelled

namespace Draft

theorem constructs_add (d : Draft) (pieces : List Piece) :
    (d.add pieces).constructs = d.constructs := by
  obtain ⟨outer, parts, modes⟩ := d
  cases parts <;> rfl

theorem constructs_leave {d e : Draft} (h : d.leave = some e) :
    e.constructs = d.constructs.tail := by
  obtain ⟨outer, part, parts, modes, rfl, rfl⟩ := leave_eq_some h
  exact constructs_add _ _

theorem constructs_nextArm {d e : Draft} {begin : List (Expr × List Piece) → Opened}
    (hbegin : ∀ arms, (begin arms).construct = .branch) (h : d.nextArm begin = some e) :
    e.constructs = d.constructs := by
  obtain ⟨outer, earlier, condition, yes, parts, modes, rfl, rfl⟩ := nextArm_eq_some h
  exact congrArg (· :: _) (hbegin _)

theorem constructs_emptyArm {d e : Draft} (h : d.emptyArm = some e) :
    e.constructs = d.constructs := by
  obtain ⟨outer, header, body, parts, modes, rfl, rfl⟩ := emptyArm_eq_some h
  rfl

/-- What is open behind a mark in a draft. -/
theorem constructs_mark {d e : Draft} {m : Mark} (h : Step o d m e) :
    e.constructs = m.openBehind d.constructs := by
  cases h with
  | text | output | exec => exact constructs_add d _
  | openIf | openFor | openWhile => rfl
  | elif _ _ hnext | otherwise _ hnext => exact constructs_nextArm (fun _ => rfl) hnext
  | empty _ hempty => exact constructs_emptyArm hempty
  | @close found directive construct e ends hleave =>
    rw [constructs_leave hleave]
    cases directive <;> first | rfl | cases ends
  | @mode found directive modes change => cases directive <;> first | rfl | cases change

/-- Marks in which every end tag names the innermost construct are spelled as they are read. -/
theorem Spelled.read {before marks : List Mark} {d e : Draft} (h : Spelled o before d)
    (hends : EndsMatch d.constructs marks) (hread : d.read o marks = some e) :
    Spelled o (before ++ marks) e := by
  induction marks generalizing before d with
  | nil =>
    cases hread
    simpa using h
  | cons m marks ih =>
    obtain ⟨c, hmark, hrest⟩ := Option.bind_eq_some_iff.mp hread
    have hstep := step_of_mark hmark
    have hc := ih (h.mark hends.1 hstep) (by rw [constructs_mark hstep]; exact hends.2) hrest
    simpa using hc

end Draft

/-- **Marks that a draft reads to the end read as an outline**, if every end tag names the innermost
construct. -/
theorem Outline.reads_of_read {marks : List Mark} {outline : Outline} {modes : List Bool}
    (hends : EndsMatch [] marks) (hread : Draft.read o {} marks = some ⟨outline, [], modes⟩) :
    Reads o [] marks outline modes := by
  have hstart : Draft.Spelled o [] {} := .outer (.nil [])
  cases hstart.read hends hread with
  | outer h => exact h

end TemplateEngine

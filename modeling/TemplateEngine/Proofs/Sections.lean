import TemplateEngine.Outline.Acceptance
import TemplateEngine.Proofs.Steps

/-!
# Autoescape sections

What an assembly keeps is followed along the tags alone: text between tags only adds a literal
(`Assembly.read_tags_induct`). The first thing followed in this way are the modes. They are those
of the autoescape sections that are open behind the tags read so far, the innermost first
(`Assembly.InSections`). No other tag has a say in it, so a section may begin in one arm of a
construct and end in another.
-/

namespace TemplateEngine

/-- The mode of the section that a tag opens. -/
def Mark.mode : Mark → Bool
  | .statement _ (.autoescape mode) => mode != "off".toList
  | _ => true

namespace Assembly

variable {o : Options} {text : Text} {a b : Assembly} {l : List Mark} {m : Mark}

/-- What holds between the tags read so far and the assembly is kept up by a run if text between
tags and each tag keep it up. -/
theorem read_tags_induct {P : List Mark → Assembly → Prop}
    (literal : ∀ {l a} literal, P l a → P l (a.push (.literal literal)))
    (tag : ∀ {l a b m}, m.isTag = true → Step o a m b → P l a → P (l ++ [m]) b)
    {marks : List Mark} (h : a.read o text marks = .ok b) (ha : P l a) :
    P (l ++ marks.filter Mark.isTag) b := by
  induction marks generalizing l a with
  | nil =>
    cases h
    simpa using ha
  | cons m marks ih =>
    obtain ⟨c, hstep, hrest⟩ := read_cons_eq_ok h
    cases ht : m.isTag with
    | false =>
      rw [List.filter_cons_of_neg (by simp [ht])]
      cases hstep with
      | text t => exact ih hrest (literal t ha)
      | _ => cases ht
    | true =>
      have hc := ih hrest (tag ht hstep ha)
      rwa [List.append_assoc, List.singleton_append, ← List.filter_cons_of_pos ht] at hc

/-! ## Modes -/

/-- The modes are those of the sections that are open behind the tags read so far. -/
def InSections (l : List Mark) (a : Assembly) : Prop :=
  ∃ stack, Mark.sections.Stacked l stack ∧ a.modes = stack.map fun (tag, _) => tag.mode

/-- Only the tags of sections change the modes. -/
theorem InSections.concat (h : InSections l a) (hmodes : b.modes = a.modes)
    (ho : Mark.sections.opens m = false) (hc : Mark.sections.closes m = false) :
    InSections (l ++ [m]) b := by
  obtain ⟨stack, hstack, ha⟩ := h
  refine ⟨_, hstack.append (Brackets.balanced_singleton ho hc), ?_⟩
  rw [hmodes, ha]
  cases stack <;> rfl

/-- Behind a tag that opens a section its mode is the innermost. -/
theorem InSections.autoescape (h : InSections l a) {found : Tag.Found} {mode : Text} {on : Bool}
    (hon : (mode != "off".toList) = on) (hmodes : b.modes = on :: a.modes) :
    InSections (l ++ [.statement found (.autoescape mode)]) b := by
  obtain ⟨stack, hstack, ha⟩ := h
  refine ⟨_, hstack.concat_opens rfl, ?_⟩
  rw [hmodes, ha, ← hon]
  rfl

/-- Behind a tag that ends a section its mode is gone. -/
theorem InSections.endAutoescape (h : InSections l a) {found : Tag.Found} {on : Bool}
    {modes : List Bool} (hon : a.modes = on :: modes) (hmodes : b.modes = modes) :
    InSections (l ++ [.statement found .endAutoescape]) b := by
  obtain ⟨stack, hstack, ha⟩ := h
  cases stack with
  | nil => cases hon.symm.trans ha
  | cons top stack =>
    obtain ⟨rfl, rfl⟩ := List.cons.inj (hon.symm.trans ha)
    refine ⟨_, hstack.concat_closes rfl, ?_⟩
    rw [hmodes]
    cases stack <;> rfl

theorem modes_beginArm (a : Assembly) (pending : Nat) (exits : List Nat)
    (condition : Option Expr) : (a.beginArm pending exits condition).modes = a.modes := by
  cases condition <;> rfl

theorem modes_leave (a : Assembly) : a.leave.modes = a.modes := by
  cases hf : a.frames with
  | nil => rw [leave, hf]
  | cons frame frames =>
    rw [leave_eq hf]
    exact modes_conclude _ frame

/-- Every tag keeps the modes in line with the open sections. -/
theorem InSections.step (h : InSections l a) (hstep : Step o a m b) : InSections (l ++ [m]) b := by
  cases hstep with
  | text | output | exec | openIf | openFor | openWhile => exact h.concat rfl rfl rfl
  | elif | otherwise => exact h.concat (modes_beginArm _ _ _ _) rfl rfl
  | empty => exact h.concat rfl rfl rfl
  | @close found directive construct ends =>
    have hmodes := (modes_leave (a.forget construct)).trans (modes_forget a construct)
    cases directive with
    | endIf | endFor | endWhile => exact h.concat hmodes rfl rfl
    | _ => cases ends
  | @mode found directive modes change =>
    cases directive with
    | autoescape mode =>
      rw [Directive.modes?] at change
      split at change
      · next hon =>
        cases change
        exact h.autoescape (by simp [hon]) rfl
      split at change
      · next hoff =>
        cases change
        exact h.autoescape (by simp [hoff]) rfl
      · cases change
    | endAutoescape =>
      cases hmodes : a.modes with
      | nil =>
        rw [hmodes] at change
        cases change
      | cons on below =>
        rw [hmodes] at change
        cases change
        exact h.endAutoescape hmodes rfl
    | _ => cases change

end Assembly

end TemplateEngine

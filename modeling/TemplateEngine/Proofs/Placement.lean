import TemplateEngine.Plan

/-!
# Lists that stand somewhere

The instructions of a piece stand in a plan from some position on. `Sits` says this of any list
and any function of positions, so that it can be said in the same way of what is known about
those positions besides. A statement about a layout takes such a hypothesis apart along
the list.
-/

namespace TemplateEngine

/-- The entries of a list are what a function gives at a position and behind it. -/
def Sits {α : Type} (entry : Nat → Option α) : (start : Nat) → List α → Prop
  | _, [] => True
  | start, a :: entries => entry start = some a ∧ Sits entry (start + 1) entries

namespace Sits

variable {α : Type} {entry : Nat → Option α} {start : Nat} {before behind : List α} {a : α}

@[simp] theorem nil (entry : Nat → Option α) (start : Nat) : Sits entry start [] := trivial

theorem cons_iff :
    Sits entry start (a :: behind) ↔ entry start = some a ∧ Sits entry (start + 1) behind :=
  Iff.rfl

/-- What stands behind a list begins where the list ends. -/
theorem append_iff : Sits entry start (before ++ behind)
    ↔ Sits entry start before ∧ Sits entry (start + before.length) behind := by
  induction before generalizing start with
  | nil => simp
  | cons a before ih =>
    rw [List.cons_append, cons_iff, cons_iff, ih, and_assoc, List.length_cons,
      Nat.add_comm before.length, Nat.add_assoc]

/-- An entry that ends a list stands at its last position. -/
theorem snoc_iff : Sits entry start (before ++ [a])
    ↔ Sits entry start before ∧ entry (start + before.length) = some a := by
  rw [append_iff, cons_iff, and_iff_left (nil _ _)]

/-- A list stands where it is. -/
theorem of_getElem? (before behind : List α) :
    Sits (fun i => (before ++ behind)[i]?) before.length behind := by
  induction behind generalizing before with
  | nil => simp
  | cons a behind ih =>
    refine ⟨by simp, ?_⟩
    simpa using ih (before ++ [a])

end Sits

/-- The instructions of a plan stand in it. -/
theorem Plan.sits (code : List Instruction) : Sits (Plan.get? ⟨code.toArray⟩) 0 code := by
  have hget : Plan.get? ⟨code.toArray⟩ = fun i => code[i]? := by
    funext i
    simp [Plan.get?]
  rw [hget]
  exact Sits.of_getElem? [] code

end TemplateEngine

import TemplateEngine.Outline.Interpreter

/-!
# Names in a memory

A memory is names in scope (`Memory.scopes`) and items still to come of the loops around
(`Memory.pending`). Expressions and statements see and change the names only: running statements
does the same to a memory as to the names in it (`Memory.scopes_runAll`), and leaves what is
pending alone (`Memory.pending_of_runAll`).
-/

namespace TemplateEngine

/-! ## What statements do -/

namespace Statement

/-- What a statement binds, given what names are bound to. -/
def effect (lookup : Text → Option Value) :
    Statement → Except RenderError (Option (Text × Value))
  | assign target op e => do
    let v ← e.eval lookup
    match op with
    | none => return some (target, v)
    | some op =>
      match lookup target with
      | none => .error (.undefinedVariable target)
      | some current => return some (target, ← Value.binary op current v)
  | evaluate e => do
    let _ ← e.eval lookup
    return none

variable {σ τ : Type} [Scope σ] [Scope τ]

/-- The scope with what a statement binds. -/
def bound (scope : σ) : Option (Text × Value) → σ
  | none => scope
  | some (name, value) => Scope.assign scope name value

/-- All that a statement does is bind a name. -/
theorem run_eq (scope : σ) (statement : Statement) :
    run scope statement = (statement.effect (Scope.lookup scope)).map (bound scope) := by
  cases statement with
  | evaluate e =>
    simp only [run, effect]
    cases e.eval (Scope.lookup scope) <;> rfl
  | assign target op e =>
    simp only [run, effect]
    cases e.eval (Scope.lookup scope) with
    | error => rfl
    | ok v =>
      cases op with
      | none => rfl
      | some op =>
        simp only [bind, Except.bind]
        cases Scope.lookup scope target with
        | none => rfl
        | some current =>
          simp only
          cases Value.binary op current v <;> rfl

variable {view : σ → τ}

/-- A view of a scope that respects names sees what a statement does as the same statement. -/
theorem map_run (hlookup : ∀ scope, Scope.lookup (view scope) = Scope.lookup scope)
    (hassign : ∀ scope name value,
      view (Scope.assign scope name value) = Scope.assign (view scope) name value)
    (scope : σ) (statement : Statement) :
    (run scope statement).map view = run (view scope) statement := by
  rw [run_eq, run_eq, hlookup]
  cases statement.effect (Scope.lookup scope) with
  | error => rfl
  | ok binding =>
    cases binding with
    | none => rfl
    | some binding => exact congrArg Except.ok (hassign scope binding.1 binding.2)

theorem map_runAll (hlookup : ∀ scope, Scope.lookup (view scope) = Scope.lookup scope)
    (hassign : ∀ scope name value,
      view (Scope.assign scope name value) = Scope.assign (view scope) name value)
    (scope : σ) (statements : List Statement) :
    (runAll scope statements).map view = runAll (view scope) statements := by
  induction statements generalizing scope with
  | nil => rfl
  | cons statement statements ih =>
    have hrun := map_run hlookup hassign scope statement
    simp only [runAll, List.foldlM_cons] at ih ⊢
    rw [← hrun]
    cases run scope statement with
    | error => rfl
    | ok next => exact ih next

/-- What no assignment changes, no statements change. -/
theorem runAll_keeps {α : Type} {part : σ → α}
    (hassign : ∀ scope name value, part (Scope.assign scope name value) = part scope)
    {scope scope' : σ} {statements : List Statement} (h : runAll scope statements = .ok scope') :
    part scope' = part scope := by
  induction statements generalizing scope with
  | nil =>
    cases h
    rfl
  | cons statement statements ih =>
    simp only [runAll, List.foldlM_cons, run_eq] at h
    cases heffect : statement.effect (Scope.lookup scope) with
    | error =>
      rw [heffect] at h
      cases h
    | ok binding =>
      rw [heffect] at h
      have hbound : part (bound scope binding) = part scope := by
        cases binding with
        | none => rfl
        | some binding => exact hassign scope binding.1 binding.2
      exact (ih h).trans hbound

end Statement

/-! ## Memories -/

/-- The items still to come of the loops being run, with the names they are for, from the
innermost. -/
abbrev Pending : Type := List (List Text × List Value)

namespace Memory

/-- The names in scope. -/
def scopes (m : Memory) : Scopes := ⟨m.loops.map (·.bindings), m.locals, m.context⟩

/-- What is still to come. -/
def pending (m : Memory) : Pending := m.loops.map fun f => (f.targets, f.items)

theorem lookup_scopes (m : Memory) : m.scopes.lookup = m.lookup := by
  funext name
  simp only [scopes, Scopes.lookup, lookup, List.findSome?_map, Context.toValue]
  rfl

theorem assignLoop?_scopes (name : Text) (value : Value) (loops : List LoopFrame) :
    Scopes.assignLoop? name value (loops.map (·.bindings))
      = (assignLoop? name value loops).map (List.map (·.bindings)) := by
  induction loops with
  | nil => rfl
  | cons f loops ih =>
    simp only [List.map_cons, Scopes.assignLoop?, assignLoop?, ih]
    split
    · rfl
    · cases assignLoop? name value loops <;> rfl

theorem assignLoop?_pending {name : Text} {value : Value} {loops loops' : List LoopFrame}
    (h : assignLoop? name value loops = some loops') :
    (loops'.map fun f => (f.targets, f.items)) = loops.map fun f => (f.targets, f.items) := by
  induction loops generalizing loops' with
  | nil => cases h
  | cons f loops ih =>
    rw [assignLoop?] at h
    split at h
    · cases h
      rfl
    · obtain ⟨others, hothers, rfl⟩ := Option.map_eq_some_iff.mp h
      rw [List.map_cons, List.map_cons, ih hothers]

theorem scopes_assign (m : Memory) (name : Text) (value : Value) :
    (m.assign name value).scopes = m.scopes.assign name value := by
  have h := assignLoop?_scopes name value m.loops
  unfold assign Scopes.assign
  rw [show m.scopes.loops = m.loops.map (·.bindings) from rfl, h]
  cases assignLoop? name value m.loops <;> rfl

theorem pending_assign (m : Memory) (name : Text) (value : Value) :
    (m.assign name value).pending = m.pending := by
  unfold assign
  split
  · next loops h => exact assignLoop?_pending h
  · rfl

/-- Statements do to the names in scope what they do to a memory. -/
theorem scopes_runAll (m : Memory) (statements : List Statement) :
    (Statement.runAll m statements).map scopes = Statement.runAll m.scopes statements :=
  Statement.map_runAll lookup_scopes scopes_assign m statements

/-- Statements take no item of a loop. -/
theorem pending_of_runAll {m m' : Memory} {statements : List Statement}
    (h : Statement.runAll m statements = .ok m') : m'.pending = m.pending :=
  Statement.runAll_keeps pending_assign h

end Memory

end TemplateEngine

import Mathlib.Data.List.Forall2

/-!
# Results and errors

What follows from the result of a computation that can fail. One that goes through a list succeeds
if it does for every member (`mapM_eq_ok`), and otherwise it fails as it does for the first one
that fails (`mapM_eq_error`).
-/

namespace TemplateEngine

theorem exists_of_bind_eq_ok {ε α β : Type} {result : Except ε α} {next : α → Except ε β} {b : β}
    (h : result >>= next = .ok b) : ∃ a, result = .ok a ∧ next a = .ok b := by
  cases result with
  | error e => cases h
  | ok a => exact ⟨a, rfl, h⟩

theorem exists_of_map_eq_ok {ε α β : Type} {result : Except ε α} {f : α → β} {b : β}
    (h : result.map f = .ok b) : ∃ a, result = .ok a ∧ f a = b := by
  cases result with
  | error e => cases h
  | ok a => exact ⟨a, rfl, Except.ok.inj h⟩

theorem eq_ok_of_mapError_eq_ok {ε ε' α : Type} {result : Except ε α} {f : ε → ε'} {a : α}
    (h : result.mapError f = .ok a) : result = .ok a := by
  cases result with
  | error e => cases h
  | ok b => exact congrArg Except.ok (Except.ok.inj h)

theorem eq_ok_of_toOption {ε α : Type} {result : Except ε α} {a : α}
    (h : result.toOption = some a) : result = .ok a := by
  cases result with
  | error e => cases h
  | ok b => exact congrArg Except.ok (Option.some.inj h)

theorem ok_bind {ε α β : Type} (a : α) (next : α → Except ε β) :
    Except.ok a >>= next = next a := rfl

/-- What is made of a result in the end is made of the last step. -/
theorem map_bind_eq {ε α β γ : Type} (result : Except ε α) (next : α → Except ε β) (f : β → γ) :
    (result >>= next).map f = result >>= fun a => (next a).map f := by
  cases result <;> rfl

/-- Every member of a list has a result. -/
theorem mapM_eq_ok {ε α β : Type} {f : α → Except ε β} {l : List α} {results : List β} :
    l.mapM f = .ok results ↔ List.Forall₂ (fun a b => f a = .ok b) l results := by
  induction l generalizing results with
  | nil =>
    rw [List.forall₂_nil_left_iff, List.mapM_nil]
    exact ⟨fun h => (Except.ok.inj h).symm, fun h => h ▸ rfl⟩
  | cons a l ih =>
    rw [List.mapM_cons, List.forall₂_cons_left_iff]
    constructor
    · intro h
      obtain ⟨b, hb, h⟩ := exists_of_bind_eq_ok h
      obtain ⟨others, hothers, h⟩ := exists_of_bind_eq_ok h
      exact ⟨b, others, hb, ih.mp hothers, (Except.ok.inj h).symm⟩
    · rintro ⟨b, others, hb, hothers, rfl⟩
      rw [hb, ih.mpr hothers]
      rfl

/-- Nothing fails for any member of a list. -/
theorem forM_eq_ok {ε α : Type} {f : α → Except ε Unit} {l : List α}
    (h : ∀ a ∈ l, f a = .ok ()) : l.forM f = .ok () := by
  induction l with
  | nil => rfl
  | cons a l ih =>
    obtain ⟨ha, hl⟩ := List.forall_mem_cons.mp h
    rw [List.forM, ha, ok_bind]
    exact ih hl

/-- The first member of a list without a result gives the error. -/
theorem mapM_eq_error {ε α β : Type} {f : α → Except ε β} {l : List α} {e : ε} :
    l.mapM f = .error e ↔ ∃ front a back, l = front ++ a :: back
      ∧ (∀ x ∈ front, ∃ b, f x = .ok b) ∧ f a = .error e := by
  induction l with
  | nil =>
    constructor
    · intro h
      cases h
    · rintro ⟨front, a, back, hl, -⟩
      simp at hl
  | cons x l ih =>
    rw [List.mapM_cons]
    cases hx : f x with
    | error e' =>
      constructor
      · intro h
        obtain rfl := Except.error.inj h
        exact ⟨[], x, l, rfl, by simp, hx⟩
      · rintro ⟨front, a, back, hl, hfront, ha⟩
        cases front with
        | nil =>
          obtain ⟨rfl, -⟩ := List.cons.inj hl
          exact congrArg Except.error (Except.error.inj (hx.symm.trans ha))
        | cons y front =>
          obtain ⟨rfl, -⟩ := List.cons.inj hl
          obtain ⟨b, hb⟩ := hfront x (List.mem_cons_self ..)
          cases hx.symm.trans hb
    | ok b =>
      have hrest : (Except.ok b >>= fun b => l.mapM f >>= fun bs => pure (b :: bs))
          = Except.error e ↔ l.mapM f = .error e := by
        cases hl : l.mapM f with
        | error e' => exact Iff.rfl
        | ok bs => exact ⟨fun h => (nomatch h), fun h => (nomatch h)⟩
      rw [hrest, ih]
      constructor
      · rintro ⟨front, a, back, rfl, hfront, ha⟩
        exact ⟨x :: front, a, back, rfl, List.forall_mem_cons.mpr ⟨⟨b, hx⟩, hfront⟩, ha⟩
      · rintro ⟨front, a, back, hl, hfront, ha⟩
        cases front with
        | nil =>
          obtain ⟨rfl, -⟩ := List.cons.inj hl
          cases hx.symm.trans ha
        | cons y front =>
          obtain ⟨rfl, rfl⟩ := List.cons.inj hl
          exact ⟨front, a, back, rfl, (List.forall_mem_cons.mp hfront).2, ha⟩

theorem exists_mapM_eq_ok {ε α β : Type} {f : α → Except ε β} {l : List α} :
    (∃ results, l.mapM f = .ok results) ↔ ∀ a ∈ l, ∃ b, f a = .ok b := by
  constructor
  · rintro ⟨results, h⟩
    induction mapM_eq_ok.mp h with
    | nil => simp
    | cons hhere hrest ih =>
      exact List.forall_mem_cons.mpr ⟨⟨_, hhere⟩, ih (mapM_eq_ok.mpr hrest)⟩
  · intro h
    cases hresults : l.mapM f with
    | ok results => exact ⟨results, rfl⟩
    | error e =>
      obtain ⟨front, a, back, rfl, -, ha⟩ := mapM_eq_error.mp hresults
      obtain ⟨b, hb⟩ := h a (by simp)
      cases ha.symm.trans hb

theorem forall₂_exists_iff {α β γ : Type} {R : α → β → Prop} {g : β → γ} {l : List α}
    {images : List γ} : List.Forall₂ (fun a c => ∃ b, R a b ∧ g b = c) l images
      ↔ ∃ results, List.Forall₂ R l results ∧ results.map g = images := by
  constructor
  · intro h
    induction h with
    | nil => exact ⟨[], .nil, rfl⟩
    | cons hhere _ ih =>
      obtain ⟨b, hb, rfl⟩ := hhere
      obtain ⟨results, hresults, rfl⟩ := ih
      exact ⟨b :: results, .cons hb hresults, rfl⟩
  · rintro ⟨results, h, rfl⟩
    exact List.forall₂_map_right_iff.mpr (h.imp fun _ b hb => ⟨b, hb, rfl⟩)

theorem forall₂_iff_of_mem {α β : Type} {R S : α → β → Prop} {l : List α} {images : List β}
    (h : ∀ a ∈ l, ∀ b, R a b ↔ S a b) : List.Forall₂ R l images ↔ List.Forall₂ S l images := by
  induction l generalizing images with
  | nil => simp
  | cons a l ih =>
    obtain ⟨hhere, hrest⟩ := List.forall_mem_cons.mp h
    cases images with
    | nil => simp
    | cons b images => rw [List.forall₂_cons, List.forall₂_cons, hhere b, ih hrest]

end TemplateEngine

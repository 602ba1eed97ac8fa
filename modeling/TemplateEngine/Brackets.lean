import Mathlib.Data.List.Induction

/-!
# Brackets

Some members of a list open something, and some close something: a closing bracket is for the
last opening one that has not been closed yet. Whether the brackets of a list fit is said by
counting: nothing is closed that was not opened (`Brackets.Covered`), and in the end everything
is closed (`Brackets.Balanced`). The innermost open bracket is the one behind which the
brackets are balanced; there is at most one (`Brackets.Innermost.unique`).

Whoever reads a list from the left keeps a stack of what is open. `Brackets.Stacked` says what
the stack must be, with what follows each open bracket; there is one lemma for each kind of
member that the list can go on with.
-/

namespace TemplateEngine

/-- What opens and what closes among the members of lists. -/
structure Brackets (α : Type) where
  opens : α → Bool
  closes : α → Bool
  not_closes : ∀ x, opens x = true → closes x = false

namespace Brackets

variable {α : Type} (b : Brackets α)

/-- No beginning of the list closes more than it opens. -/
def Covered (l : List α) : Prop :=
  ∀ front, front <+: l → front.countP b.closes ≤ front.countP b.opens

/-- The list closes what it opens and nothing else. -/
structure Balanced (l : List α) : Prop where
  covered : b.Covered l
  count_eq : l.countP b.closes = l.countP b.opens

/-- The innermost bracket that is open behind a list: what stands before it, the bracket, and what
follows it. -/
structure Innermost (l outer : List α) (x : α) (inside : List α) : Prop where
  eq : l = outer ++ x :: inside
  opens : b.opens x = true
  balanced : b.Balanced inside

/-- The brackets that are open behind a list, from the innermost, each with what follows it up to
the next one. -/
inductive Stacked : List α → List (α × List α) → Prop
  | nil {l : List α} (h : b.Balanced l) : Stacked l []
  | cons {outer inside : List α} {x : α} {stack : List (α × List α)} (h : Stacked outer stack)
    (hx : b.opens x = true) (hinside : b.Balanced inside) :
    Stacked (outer ++ x :: inside) ((x, inside) :: stack)

/-- The stack behind more of the list that leaves nothing open. -/
def extend (more : List α) : List (α × List α) → List (α × List α)
  | [] => []
  | (x, inside) :: stack => (x, inside ++ more) :: stack

/-! ## Counting -/

variable {b} {l front back inside : List α} {x y : α} {stack : List (α × List α)}

/-- A list with one more member is taken apart at that member or before it. -/
theorem split_of_concat (h : l ++ [x] = front ++ y :: back) :
    (l = front ∧ x = y ∧ back = []) ∨ ∃ more, back = more ++ [x] ∧ l = front ++ y :: more := by
  rcases List.eq_nil_or_concat back with rfl | ⟨more, z, rfl⟩
  · obtain ⟨rfl, rfl⟩ := List.concat_inj.mp (by simpa using h)
    exact .inl ⟨rfl, rfl, rfl⟩
  · rw [List.concat_eq_append, ← List.cons_append, ← List.append_assoc] at h
    obtain ⟨rfl, heq⟩ := List.append_inj' h rfl
    obtain rfl := List.singleton_inj.mp heq
    exact .inr ⟨more, List.concat_eq_append, rfl⟩

theorem not_opens (b : Brackets α) (hx : b.closes x = true) : b.opens x = false := by
  cases ho : b.opens x with
  | false => rfl
  | true => exact absurd hx (by simp [b.not_closes x ho])

theorem count_concat_of_neg {p : α → Bool} (hx : p x = false) :
    (l ++ [x]).countP p = l.countP p := by
  simp [hx]

theorem count_concat_of_pos {p : α → Bool} (hx : p x = true) :
    (l ++ [x]).countP p = l.countP p + 1 := by
  simp [hx]

theorem covered_nil : b.Covered [] := by
  intro front hfront
  simp [List.prefix_nil.mp hfront]

theorem Covered.of_prefix (h : b.Covered l) (hfront : front <+: l) : b.Covered front :=
  fun _ hmore => h _ (hmore.trans hfront)

theorem Covered.count_le (h : b.Covered l) : l.countP b.closes ≤ l.countP b.opens :=
  h l (List.prefix_refl l)

/-- A list with one more member is covered if a closing bracket finds something open. -/
theorem covered_concat : b.Covered (l ++ [x]) ↔
    b.Covered l ∧ (b.closes x = true → l.countP b.closes < l.countP b.opens) := by
  constructor
  · intro h
    refine ⟨h.of_prefix (List.prefix_append l [x]), ?_⟩
    intro hx
    have hcount := h.count_le
    rwa [count_concat_of_pos hx, count_concat_of_neg (b.not_opens hx)] at hcount
  · rintro ⟨h, hx⟩ front hfront
    rcases List.prefix_concat_iff.mp hfront with rfl | hfront
    · cases hc : b.closes x with
      | false =>
        rw [count_concat_of_neg hc, List.countP_append]
        exact Nat.le_add_right_of_le h.count_le
      | true =>
        rw [count_concat_of_pos hc, count_concat_of_neg (b.not_opens hc)]
        exact hx hc
    · exact h front hfront

theorem Covered.append (h : b.Covered front) (h' : b.Covered back) :
    b.Covered (front ++ back) := by
  induction back using List.reverseRecOn with
  | nil => simpa using h
  | append_singleton back x ih =>
    obtain ⟨hback, hx⟩ := covered_concat.mp h'
    rw [← List.append_assoc]
    refine covered_concat.mpr ⟨ih hback, ?_⟩
    intro hc
    rw [List.countP_append, List.countP_append]
    exact Nat.add_lt_add_of_le_of_lt h.count_le (hx hc)

theorem covered_singleton (hx : b.closes x = false) : b.Covered [x] :=
  covered_concat.mpr ⟨covered_nil, fun hc => absurd hc (by simp [hx])⟩

/-- Where something is opened that is not closed, more is opened than closed. -/
theorem count_lt_of_opens (hfront : b.Covered front) (hx : b.opens x = true)
    (hback : b.Covered back) :
    (front ++ x :: back).countP b.closes < (front ++ x :: back).countP b.opens := by
  have hc := b.not_closes x hx
  rw [List.countP_append, List.countP_append, List.countP_cons_of_pos hx,
    List.countP_cons_of_neg (by simp [hc])]
  exact Nat.add_lt_add_of_le_of_lt hfront.count_le (Nat.lt_succ_of_le hback.count_le)

theorem balanced_nil : b.Balanced [] := ⟨covered_nil, rfl⟩

theorem Balanced.append (h : b.Balanced front) (h' : b.Balanced back) :
    b.Balanced (front ++ back) :=
  ⟨h.covered.append h'.covered, by simp [h.count_eq, h'.count_eq]⟩

/-- What is no bracket is balanced. -/
theorem balanced_singleton (ho : b.opens x = false) (hc : b.closes x = false) :
    b.Balanced [x] :=
  ⟨covered_singleton hc, by simp [ho, hc]⟩

/-- Brackets around something balanced. -/
theorem Balanced.wrap (h : b.Balanced inside) (hx : b.opens x = true) (hy : b.closes y = true) :
    b.Balanced (x :: inside ++ [y]) := by
  have hx' := b.not_closes x hx
  have hopen : b.Covered ([x] ++ inside) := (covered_singleton hx').append h.covered
  refine ⟨covered_concat.mpr ⟨hopen, fun _ => ?_⟩, ?_⟩
  · exact count_lt_of_opens covered_nil hx h.covered
  · rw [count_concat_of_pos hy, count_concat_of_neg (b.not_opens hy), List.countP_cons_of_pos hx,
      List.countP_cons_of_neg (by simp [hx']), h.count_eq]

/-! ## The innermost open bracket -/

/-- Nothing is open behind a balanced list. -/
theorem Balanced.not_innermost {outer : List α} (h : b.Balanced l) :
    ¬b.Innermost l outer x inside := by
  rintro ⟨rfl, hx, hinside⟩
  have hlt := count_lt_of_opens (h.covered.of_prefix (List.prefix_append _ _)) hx hinside.covered
  rw [h.count_eq] at hlt
  exact absurd hlt (Nat.lt_irrefl _)

/-- At most one bracket is the innermost. -/
theorem Innermost.unique {outer outer' inside' : List α} (h : b.Innermost l outer x inside)
    (h' : b.Innermost l outer' y inside') : outer = outer' ∧ x = y ∧ inside = inside' := by
  obtain ⟨rfl, hx, hinside⟩ := h
  obtain ⟨heq, hy, hinside'⟩ := h'
  -- the one that stands further to the left would be closed by what follows it
  rcases List.append_eq_append_iff.mp heq with ⟨between, rfl, hbehind⟩ | ⟨between, rfl, hbehind⟩
  · rcases between with _ | ⟨z, between⟩
    · simpa using hbehind
    · obtain ⟨rfl, rfl⟩ := List.cons.inj hbehind
      exact absurd ⟨rfl, hy, hinside'⟩ hinside.not_innermost
  · rcases between with _ | ⟨z, between⟩
    · simpa [eq_comm] using hbehind
    · obtain ⟨rfl, rfl⟩ := List.cons.inj hbehind
      exact absurd ⟨rfl, hx, hinside⟩ hinside'.not_innermost

/-! ## The stack of open brackets -/

/-- The stack is as long as there are brackets that are not closed. -/
theorem Stacked.count (h : b.Stacked l stack) :
    l.countP b.closes + stack.length = l.countP b.opens := by
  induction h with
  | nil h => simpa using h.count_eq
  | cons _ hx hinside ih =>
    have hc := b.not_closes _ hx
    have heq := hinside.count_eq
    rw [List.countP_append, List.countP_append, List.countP_cons_of_pos hx,
      List.countP_cons_of_neg (by simp [hc]), List.length_cons]
    omega

/-- The top of the stack is the innermost open bracket. -/
theorem Stacked.innermost (h : b.Stacked l ((x, inside) :: stack)) :
    ∃ outer, b.Innermost l outer x inside := by
  cases h with
  | cons _ hx hinside => exact ⟨_, rfl, hx, hinside⟩

/-- The innermost open bracket is the top of the stack. -/
theorem Stacked.of_innermost {outer : List α} (h : b.Stacked l stack)
    (hinner : b.Innermost l outer x inside) : ∃ below, stack = (x, inside) :: below := by
  cases h with
  | nil h => exact absurd hinner h.not_innermost
  | @cons outer' inside' x' below _ hx hinside =>
    obtain ⟨-, rfl, rfl⟩ := hinner.unique ⟨rfl, hx, hinside⟩
    exact ⟨below, rfl⟩

theorem Stacked.append (h : b.Stacked l stack) {more : List α} (hmore : b.Balanced more) :
    b.Stacked (l ++ more) (extend more stack) := by
  cases h with
  | nil h => exact .nil (h.append hmore)
  | cons h hx hinside =>
    rw [List.append_assoc, List.cons_append]
    exact .cons h hx (hinside.append hmore)

/-- An opening bracket is put on the stack. -/
theorem Stacked.concat_opens (h : b.Stacked l stack) (hx : b.opens x = true) :
    b.Stacked (l ++ [x]) ((x, []) :: stack) :=
  .cons h hx balanced_nil

/-- A closing bracket takes the top off the stack. -/
theorem Stacked.concat_closes (h : b.Stacked l ((x, inside) :: stack)) (hy : b.closes y = true) :
    b.Stacked (l ++ [y]) (extend (x :: inside ++ [y]) stack) := by
  cases h with
  | cons h hx hinside =>
    rw [List.append_assoc]
    exact h.append (hinside.wrap hx hy)

end Brackets

end TemplateEngine

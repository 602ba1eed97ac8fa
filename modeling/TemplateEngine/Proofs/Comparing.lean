import TemplateEngine.Expression.Eval
import TemplateEngine.Proofs.Rounding

/-!
# Comparing two values

What is needed of one comparison. Two strings, two lists and two integers are compared in a way of
their own, all other values by their places among the floats (`Value.order_shapes`); so values that
have an order at all are two strings, two lists or two numbers (`Value.order_cases`). Lists are
compared item by item, so that what is shown of values goes by induction on the lists in them
(`Value.listInduction`). The first use of this is that comparing the other way round gives the
reversed result (`Value.order_reversed`), be it an order or an error (`Value.order_antisymm`).
-/

namespace TemplateEngine

namespace Value

/-! ## Numbers -/

/-- The place of a number among the floats. -/
def rank? (v : Value) : Option Int := v.asFloat?.bind Binary.rank?

theorem natAbs_log2_lt (i : Int64) : i.toInt.natAbs.log2 < 1023 := by
  have hlow := i.le_toInt
  have hhigh := i.toInt_lt
  rcases Nat.eq_zero_or_pos i.toInt.natAbs with hzero | hpos
  · rw [hzero]
    decide
  · have hlog : i.toInt.natAbs.log2 < 64 := (Nat.log2_lt (Nat.ne_of_gt hpos)).mpr (by omega)
    omega

/-- Integers are numbers also when they are taken for floats. -/
theorem rank?_int (i : Int64) : (int i).rank? = some (Binary.placeOfInt i.toInt) :=
  Binary.rank?_ofInt (natAbs_log2_lt i)

variable {v w : Value} {a b : Int} {o : Ordering}

theorem exists_float_of_rank? (h : v.rank? = some a) :
    ∃ x, v.asFloat? = some x ∧ Binary.rank? x = some a :=
  Option.bind_eq_some_iff.mp h

theorem orderNumbers_eq (hv : v.rank? = some a) (hw : w.rank? = some b) :
    orderNumbers v w = .ok (compare a b) := by
  obtain ⟨x, hx, hxa⟩ := exists_float_of_rank? hv
  obtain ⟨y, hy, hyb⟩ := exists_float_of_rank? hw
  rw [orderNumbers, hx, hy]
  simp only [Binary.compare?, hxa, hyb]

theorem exists_of_orderNumbers (h : orderNumbers v w = .ok o) :
    ∃ a b, v.rank? = some a ∧ w.rank? = some b := by
  unfold orderNumbers at h
  split at h
  · next x y hx hy =>
    rw [rank?, rank?, hx, hy, Option.bind_some, Option.bind_some]
    unfold Binary.compare? at h
    cases hrx : Binary.rank? x with
    | none => simp [hrx] at h
    | some a =>
      cases hry : Binary.rank? y with
      | none => simp [hrx, hry] at h
      | some b => exact ⟨a, b, rfl, rfl⟩
  · cases h

theorem sameNumber_iff (hv : v.rank? = some a) (hw : w.rank? = some b) :
    v.sameNumber w = true ↔ a = b := by
  obtain ⟨x, hx, hxa⟩ := exists_float_of_rank? hv
  obtain ⟨y, hy, hyb⟩ := exists_float_of_rank? hw
  rw [sameNumber, hx, hy]
  simp [Binary.same, Binary.compare?, hxa, hyb]

theorem looseEq_numbers (hv : v.rank? = some a) : v.looseEq w = v.sameNumber w := by
  cases v <;> first | cases hv | (cases w <;> rfl)

/-! ## Shapes -/

variable {items others : List Value}

/-- Two strings, two lists and two integers are compared in a way of their own, all other values as
floats. -/
theorem order_shapes (v w : Value) :
    (∃ s t, v = str s ∧ w = str t) ∨ (∃ items others, v = list items ∧ w = list others)
      ∨ (∃ i j, v = int i ∧ w = int j)
      ∨ v.order w = orderNumbers v w ∧ w.order v = orderNumbers w v := by
  cases v with
  | str s =>
    cases w with
    | str t => exact .inl ⟨s, t, rfl, rfl⟩
    | _ => exact .inr (.inr (.inr ⟨rfl, rfl⟩))
  | list items =>
    cases w with
    | list others => exact .inr (.inl ⟨items, others, rfl, rfl⟩)
    | _ => exact .inr (.inr (.inr ⟨rfl, rfl⟩))
  | int i =>
    cases w with
    | int j => exact .inr (.inr (.inl ⟨i, j, rfl, rfl⟩))
    | _ => exact .inr (.inr (.inr ⟨rfl, rfl⟩))
  | _ => cases w <;> exact .inr (.inr (.inr ⟨rfl, rfl⟩))

/-- Two integers are compared as they are, other numbers as floats. -/
theorem order_numbers (hv : v.rank? = some a) :
    v.order w = orderNumbers v w ∨ ∃ i j, v = int i ∧ w = int j := by
  rcases order_shapes v w with ⟨s, t, rfl, -⟩ | ⟨items, others, rfl, -⟩ | hints | ⟨hnumbers, -⟩
  · cases hv
  · cases hv
  · exact .inr hints
  · exact .inl hnumbers

/-- Values that have an order are two strings, two lists or two numbers. -/
theorem order_cases (h : v.order w = .ok o) :
    (∃ s t, v = str s ∧ w = str t) ∨ (∃ items others, v = list items ∧ w = list others)
      ∨ ∃ a b, v.rank? = some a ∧ w.rank? = some b := by
  rcases order_shapes v w with hstrs | hlists | ⟨i, j, rfl, rfl⟩ | ⟨hnumbers, -⟩
  · exact .inl hstrs
  · exact .inr (.inl hlists)
  · exact .inr (.inr ⟨_, _, rank?_int i, rank?_int j⟩)
  · exact .inr (.inr (exists_of_orderNumbers (hnumbers.symm.trans h)))

/-- The first items decide, unless they are equal. -/
theorem orderItems_cons_eq_ok : orderItems (v :: items) (w :: others) = .ok o ↔
    v.order w = .ok .eq ∧ orderItems items others = .ok o ∨ v.order w = .ok o ∧ o ≠ .eq := by
  rw [orderItems]
  split
  · next heq =>
    constructor
    · exact fun h => .inl ⟨heq, h⟩
    · rintro (⟨-, h⟩ | ⟨h, hne⟩)
      · exact h
      · cases heq.symm.trans h
        exact absurd rfl hne
  · next hne =>
    constructor
    · intro h
      exact .inr ⟨h, by rintro rfl; exact hne h⟩
    · rintro (⟨h, -⟩ | ⟨h, -⟩)
      · exact absurd h hne
      · exact h

/-- What holds of a list if it does of its items, and of all that are no lists, holds of all
values. -/
theorem listInduction {P : Value → Prop} (hlist : ∀ items, (∀ v ∈ items, P v) → P (list items))
    (hother : ∀ v, (∀ items, v ≠ list items) → P v) (v : Value) : P v := by
  match v with
  | list items => exact hlist items fun v _ => listInduction hlist hother v
  | null | bool _ | int _ | float _ | str _ | dict _ => exact hother _ nofun

/-! ## Order both ways -/

/-- The error with the types of two values that have no order exchanged. -/
def exchanged : RenderError → RenderError
  | .type (.unordered k l) => .type (.unordered l k)
  | e => e

/-- What comparing the other way round gives: the reversed order, or the error with the types
exchanged. -/
def reversed : Except RenderError Ordering → Except RenderError Ordering
  | .ok o => .ok o.swap
  | .error e => .error (exchanged e)

theorem orderNumbers_reversed (v w : Value) : orderNumbers w v = reversed (orderNumbers v w) := by
  unfold orderNumbers
  cases v.asFloat? with
  | none => cases w.asFloat? <;> rfl
  | some x =>
    cases w.asFloat? with
    | none => rfl
    | some y =>
      simp only [Binary.compare?_swap x y]
      cases Binary.compare? x y <;> rfl

/-- The first unequal items decide both ways, and so do the first without an order. -/
theorem orderItems_reversed (h : ∀ v ∈ items, ∀ w, w.order v = reversed (v.order w))
    (others : List Value) : orderItems others items = reversed (orderItems items others) := by
  induction items generalizing others with
  | nil => cases others <;> rfl
  | cons v items ih =>
    cases others with
    | nil => rfl
    | cons w others =>
      have hitems := ih (fun v hv => h v (List.mem_cons_of_mem _ hv)) others
      rw [orderItems, orderItems, h v List.mem_cons_self w]
      cases v.order w with
      | error e => rfl
      | ok o =>
        cases o with
        | eq => exact hitems
        | lt | gt => rfl

/-- Comparing the other way round gives the reversed result. -/
theorem order_reversed (v w : Value) : w.order v = reversed (v.order w) := by
  induction v using listInduction generalizing w with
  | hlist items ih =>
    rcases order_shapes (list items) w with ⟨s, t, hs, -⟩ | ⟨_, others, -, rfl⟩ | ⟨i, j, hi, -⟩ | h
    · cases hs
    · rw [order, order]
      exact orderItems_reversed ih others
    · cases hi
    · rw [h.1, h.2]
      exact orderNumbers_reversed _ w
  | hother v hv =>
    rcases order_shapes v w with ⟨s, t, rfl, rfl⟩ | ⟨items, others, rfl, -⟩ | ⟨i, j, rfl, rfl⟩ | h
    · rw [order, order, Text.order_swap s t]
      rfl
    · exact absurd rfl (hv items)
    · rw [order, order, ← Int.compare_swap i.toInt j.toInt]
      rfl
    · rw [h.1, h.2]
      exact orderNumbers_reversed v w

/-- Comparing the other way round gives the reversed order. -/
theorem order_swap (h : v.order w = .ok o) : w.order v = .ok o.swap := by
  rw [order_reversed, h]
  rfl

theorem exists_of_orderNumbers_error {e : RenderError} (h : orderNumbers v w = .error e) :
    ∃ k l, e = .type (.unordered k l) := by
  unfold orderNumbers at h
  split at h
  · split at h
    · cases h
    · exact ⟨_, _, (Except.error.inj h).symm⟩
  · exact ⟨_, _, (Except.error.inj h).symm⟩

/-- Lists fail to have an order as some of their items do. -/
theorem exists_of_orderItems_error {e : RenderError} (h : orderItems items others = .error e) :
    ∃ v ∈ items, ∃ w, v.order w = .error e := by
  induction items generalizing others with
  | nil => cases others <;> cases h
  | cons v items ih =>
    cases others with
    | nil => cases h
    | cons w others =>
      rw [orderItems] at h
      split at h
      · obtain ⟨u, hu, hfails⟩ := ih h
        exact ⟨u, List.mem_cons_of_mem v hu, hfails⟩
      · exact ⟨v, List.mem_cons_self, w, h⟩

/-- Comparing fails only for two values that have no order. -/
theorem exists_of_order_error {e : RenderError} (h : v.order w = .error e) :
    ∃ k l, e = .type (.unordered k l) := by
  induction v using listInduction generalizing w with
  | hlist items ih =>
    rcases order_shapes (list items) w with ⟨s, t, hs, -⟩ | ⟨_, others, -, rfl⟩ | ⟨i, j, hi, -⟩ | hw
    · cases hs
    · rw [order] at h
      obtain ⟨v, hv, w, hfails⟩ := exists_of_orderItems_error h
      exact ih v hv hfails
    · cases hi
    · exact exists_of_orderNumbers_error (hw.1.symm.trans h)
  | hother v hv =>
    rcases order_shapes v w with ⟨s, t, rfl, rfl⟩ | ⟨items, others, rfl, -⟩ | ⟨i, j, rfl, rfl⟩ | hw
    · rw [order] at h
      cases h
    · exact absurd rfl (hv items)
    · rw [order] at h
      cases h
    · exact exists_of_orderNumbers_error (hw.1.symm.trans h)

/-- **The order is antisymmetric.** Comparing two values the other way round gives the reversed
order. So it fails in both ways or in none, and then for the same two values inside of them, whose
types the error names in the order in which they were compared. -/
theorem order_antisymm (v w : Value) :
    (∀ o, v.order w = .ok o ↔ w.order v = .ok o.swap)
      ∧ ((∃ e, v.order w = .error e) ↔ ∃ e, w.order v = .error e)
      ∧ ∀ e, v.order w = .error e → ∃ k l, e = .type (.unordered k l)
        ∧ w.order v = .error (.type (.unordered l k)) := by
  have herror : ∀ {v w : Value} {e}, v.order w = .error e → w.order v = .error (exchanged e) := by
    intro v w e h
    rw [order_reversed, h]
    rfl
  refine ⟨fun o => ⟨order_swap, fun h => ?_⟩, ⟨?_, ?_⟩, fun e h => ?_⟩
  · rw [order_swap h, Ordering.swap_swap]
  · rintro ⟨e, h⟩
    exact ⟨_, herror h⟩
  · rintro ⟨e, h⟩
    exact ⟨_, herror h⟩
  · obtain ⟨k, l, rfl⟩ := exists_of_order_error h
    exact ⟨k, l, rfl, herror h⟩

/-- The first items without an order are met behind equal ones, inside of lists of unequal
lengths. -/
example : order (list [list [int 1, str ['a']], null]) (list [list [bool true, int 2, int 3]])
      = .error (.type (.unordered .str .int))
    ∧ order (list [list [bool true, int 2, int 3]]) (list [list [int 1, str ['a']], null])
      = .error (.type (.unordered .int .str)) := by
  exact ⟨rfl, rfl⟩

end Value

end TemplateEngine

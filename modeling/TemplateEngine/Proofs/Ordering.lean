import Mathlib.Logic.ExistsUnique
import TemplateEngine.Proofs.Sorting

/-!
# How equality and order agree

Loose equality takes all numbers for floats, but the order compares two integers as they are. Where
two integers round to one float the two do not agree (`looseEq_of_less`), and the order alone is
not even transitive, for a float may stand between them (`order_equal_greater`).

Where no such integers meet (`RoundsApart`) numbers are ordered by their places among the floats
(`RoundsApart.order_eq`). Then equality agrees with the order (`looseEq_iff_order`), and the order
is transitive, so that sorting puts values in order (`order_transitive`). Each of these is shown of
lists from their items, and so of all values (`listInduction`).
-/

namespace TemplateEngine

namespace Value

variable {v w : Value} {a b : Int} {o : Ordering}

/-! ## Integers that round apart -/

mutual

/-- The integers in a value, those in its lists among them. -/
def integers : Value → List Int64
  | int i => [i]
  | list items => itemIntegers items
  | _ => []

/-- The integers in several values. -/
def itemIntegers : List Value → List Int64
  | [] => []
  | v :: items => integers v ++ itemIntegers items

end

/-- No integer in one value is taken for the same float as a different one in the other. -/
def RoundsApart (v w : Value) : Prop :=
  ∀ i ∈ v.integers, ∀ j ∈ w.integers,
    Binary.same (Float.ofInt i.toInt) (Float.ofInt j.toInt) = true → i = j

theorem same_ofInt_iff (i j : Int64) :
    Binary.same (Float.ofInt i.toInt) (Float.ofInt j.toInt) = true
      ↔ Binary.placeOfInt i.toInt = Binary.placeOfInt j.toInt :=
  sameNumber_iff (rank?_int i) (rank?_int j)

namespace RoundsApart

/-- Integers with at most fifty-three bits round apart. -/
theorem of_small (hv : v.integers.all fun i => i.toInt.natAbs ≤ 2 ^ 53)
    (hw : w.integers.all fun j => j.toInt.natAbs ≤ 2 ^ 53) : RoundsApart v w := by
  intro i hi j hj hsame
  have hi := of_decide_eq_true (List.all_eq_true.mp hv i hi)
  have hj := of_decide_eq_true (List.all_eq_true.mp hw j hj)
  have hplace := (same_ofInt_iff i j).mp hsame
  rcases Int.lt_trichotomy i.toInt j.toInt with hlt | heq | hgt
  · have hless := Binary.placeOfInt_strictMono hlt hi hj
    omega
  · exact Int64.toInt_inj.mp heq
  · have hless := Binary.placeOfInt_strictMono hgt hj hi
    omega

variable {items others : List Value}

theorem head (h : RoundsApart (list (v :: items)) (list (w :: others))) : RoundsApart v w :=
  fun i hi j hj => h i (List.mem_append_left _ hi) j (List.mem_append_left _ hj)

theorem tail (h : RoundsApart (list (v :: items)) (list (w :: others))) :
    RoundsApart (list items) (list others) :=
  fun i hi j hj => h i (List.mem_append_right _ hi) j (List.mem_append_right _ hj)

theorem placeOfInt_inj {i j : Int64} (h : RoundsApart (int i) (int j))
    (heq : Binary.placeOfInt i.toInt = Binary.placeOfInt j.toInt) : i = j :=
  h i List.mem_cons_self j List.mem_cons_self ((same_ofInt_iff i j).mpr heq)

/-- Integers that round apart keep their order. -/
theorem compare_placeOfInt {i j : Int64} (h : RoundsApart (int i) (int j)) :
    compare (Binary.placeOfInt i.toInt) (Binary.placeOfInt j.toInt)
      = compare i.toInt j.toInt := by
  rcases Int.lt_trichotomy i.toInt j.toInt with hlt | heq | hgt
  · have hle := Binary.placeOfInt_mono (Int.le_of_lt hlt)
    have hne := mt h.placeOfInt_inj (by rintro rfl; exact Int.lt_irrefl _ hlt)
    rw [Int.compare_eq_lt.mpr hlt, Int.compare_eq_lt]
    omega
  · rw [heq, Int.compare_eq_eq.mpr rfl, Int.compare_eq_eq.mpr rfl]
  · have hle := Binary.placeOfInt_mono (Int.le_of_lt hgt)
    have hne := mt h.placeOfInt_inj (by rintro rfl; exact Int.lt_irrefl _ hgt)
    rw [Int.compare_eq_gt.mpr hgt, Int.compare_eq_gt]
    omega

/-- Numbers that round apart are ordered like floats. -/
theorem order_eq (h : RoundsApart v w) (hv : v.rank? = some a) (hw : w.rank? = some b) :
    v.order w = .ok (compare a b) := by
  rcases order_numbers (w := w) hv with hnumbers | ⟨i, j, rfl, rfl⟩
  · rw [hnumbers, orderNumbers_eq hv hw]
  · cases hv.symm.trans (rank?_int i)
    cases hw.symm.trans (rank?_int j)
    rw [h.compare_placeOfInt]
    rfl

end RoundsApart

/-! ## Equality and order -/

variable {items others : List Value}

theorem looseEqItems_of_orderItems
    (h : ∀ v ∈ items, ∀ w, v.order w = .ok .eq → v.looseEq w = true)
    (horder : orderItems items others = .ok .eq) : looseEqItems items others = true := by
  induction items generalizing others with
  | nil =>
    cases others with
    | nil => rfl
    | cons w others => cases horder
  | cons v items ih =>
    cases others with
    | nil => cases horder
    | cons w others =>
      rw [orderItems_cons_eq_ok] at horder
      obtain ⟨hhead, htail⟩ | ⟨-, hne⟩ := horder
      · have hitems := ih (fun v hv => h v (List.mem_cons_of_mem _ hv)) htail
        rw [looseEqItems, h v List.mem_cons_self w hhead, hitems, Bool.and_self]
      · exact absurd rfl hne

/-- Values that compare equal are loosely equal. -/
theorem looseEq_of_order (h : v.order w = .ok .eq) : v.looseEq w = true := by
  induction v using listInduction generalizing w with
  | hlist items ih =>
    rcases order_cases h with ⟨s, t, hs, -⟩ | ⟨_, others, -, rfl⟩ | ⟨a, b, ha, -⟩
    · cases hs
    · rw [order] at h
      rw [looseEq]
      exact looseEqItems_of_orderItems (fun v hv w => ih v hv) h
    · cases ha
  | hother v hv =>
    rcases order_cases h with ⟨s, t, rfl, rfl⟩ | ⟨items, others, rfl, -⟩ | ⟨a, b, ha, hb⟩
    · rw [order] at h
      rw [looseEq, Text.eq_of_order (Except.ok.inj h), beq_self_eq_true]
    · exact absurd rfl (hv items)
    · rw [looseEq_numbers ha, sameNumber_iff ha hb]
      rcases order_numbers (w := w) ha with hnumbers | ⟨i, j, rfl, rfl⟩
      · rw [hnumbers, orderNumbers_eq ha hb] at h
        exact Int.compare_eq_eq.mp (Except.ok.inj h)
      · have hij : i.toInt = j.toInt := Int.compare_eq_eq.mp (Except.ok.inj h)
        cases ha.symm.trans (rank?_int i)
        cases hb.symm.trans (rank?_int j)
        rw [hij]

theorem RoundsApart.orderItems_of_looseEqItems (hapart : RoundsApart (list items) (list others))
    (h : ∀ v ∈ items, ∀ w o, RoundsApart v w → v.order w = .ok o → v.looseEq w = true → o = .eq)
    (horder : orderItems items others = .ok o) (heq : looseEqItems items others = true) :
    o = .eq := by
  induction items generalizing others with
  | nil =>
    cases others with
    | nil => exact (Except.ok.inj horder).symm
    | cons w others => cases heq
  | cons v items ih =>
    cases others with
    | nil => cases heq
    | cons w others =>
      rw [orderItems_cons_eq_ok] at horder
      rw [looseEqItems, Bool.and_eq_true] at heq
      obtain ⟨-, htail⟩ | ⟨hhead, hne⟩ := horder
      · exact ih hapart.tail (fun v hv => h v (List.mem_cons_of_mem _ hv)) htail heq.2
      · exact h v List.mem_cons_self w o hapart.head hhead heq.1

/-- Values that are loosely equal compare equal if their integers round apart. -/
theorem RoundsApart.order_of_looseEq (hapart : RoundsApart v w) (h : v.order w = .ok o)
    (heq : v.looseEq w = true) : o = .eq := by
  induction v using listInduction generalizing w o with
  | hlist items ih =>
    rcases order_cases h with ⟨s, t, hs, -⟩ | ⟨_, others, -, rfl⟩ | ⟨a, b, ha, -⟩
    · cases hs
    · rw [order] at h
      rw [looseEq] at heq
      exact hapart.orderItems_of_looseEqItems (fun v hv w o hapart => ih v hv hapart) h heq
    · cases ha
  | hother v hv =>
    rcases order_cases h with ⟨s, t, rfl, rfl⟩ | ⟨items, others, rfl, -⟩ | ⟨a, b, ha, hb⟩
    · rw [order] at h
      rw [looseEq] at heq
      rw [← Except.ok.inj h, eq_of_beq heq, Text.order_self]
    · exact absurd rfl (hv items)
    · rw [looseEq_numbers ha, sameNumber_iff ha hb] at heq
      rw [hapart.order_eq ha hb] at h
      rw [← Except.ok.inj h, Int.compare_eq_eq]
      exact heq

/-! ## Comparisons in expressions -/

/-- A chain with one link is what its comparison says. -/
theorem eval_compare {lookup : Text → Option Value} {e f : Expr} (he : e.eval lookup = .ok v)
    (hf : f.eval lookup = .ok w) (c : Comparison) :
    (Expr.compare e [(c, f)]).eval lookup = (c.holds v w).map .bool := by
  simp only [Expr.eval, Expr.evalLinks, he, hf, bind, Except.bind]
  cases c.holds v w with
  | error e => rfl
  | ok b => cases b <;> rfl

/-- Exactly one of the three comparisons holds. -/
theorem existsUnique_comparison {holds : Comparison → Prop} (hless : holds .less ↔ o = .lt)
    (hequal : holds .equal ↔ o = .eq) (hgreater : holds .greater ↔ o = .gt) :
    ∃! c, c ∈ [Comparison.less, .equal, .greater] ∧ holds c := by
  have hmem : ∀ c, c ∈ [Comparison.less, .equal, .greater] ∧ holds c ↔
      c = .less ∧ o = .lt ∨ c = .equal ∧ o = .eq ∨ c = .greater ∧ o = .gt := by
    intro c
    cases c <;> simp [hless, hequal, hgreater]
  simp only [hmem]
  cases o with
  | lt => exact ⟨.less, by simp, by simp⟩
  | eq => exact ⟨.equal, by simp, by simp⟩
  | gt => exact ⟨.greater, by simp, by simp⟩

/-- **Equality agrees with the order** of values whose integers round apart. Any values that
compare equal are loosely equal, but two integers that round to one float are so too. -/
theorem looseEq_iff_order (h : v.order w = .ok o) :
    (o = .eq → v.looseEq w = true)
      ∧ (RoundsApart v w → (v.looseEq w = true ↔ o = .eq)
        ∧ ∀ (lookup : Text → Option Value) (e f : Expr),
          e.eval lookup = .ok v → f.eval lookup = .ok w →
          let holds (c : Comparison) := (Expr.compare e [(c, f)]).eval lookup = .ok (.bool true)
          (∃! c, c ∈ [Comparison.less, .equal, .greater] ∧ holds c)
            ∧ (holds .atMost ↔ holds .less ∨ holds .equal)
            ∧ (holds .atLeast ↔ holds .greater ∨ holds .equal)) := by
  refine ⟨fun heq => looseEq_of_order (heq ▸ h), fun hapart => ?_⟩
  have hiff : v.looseEq w = true ↔ o = .eq :=
    ⟨hapart.order_of_looseEq h, fun heq => looseEq_of_order (heq ▸ h)⟩
  refine ⟨hiff, fun lookup e f he hf => ?_⟩
  intro holds
  have hholds : ∀ c b, c.holds v w = .ok b → (holds c ↔ b = true) := by
    intro c b hc
    simp only [holds]
    rw [eval_compare he hf, hc]
    exact ⟨fun heq => Value.bool.inj (Except.ok.inj heq), fun heq => heq ▸ rfl⟩
  have hless : holds .less ↔ o = .lt := by
    rw [hholds .less (o == .lt) (by rw [Comparison.holds, h]; rfl), beq_iff_eq]
  have hgreater : holds .greater ↔ o = .gt := by
    rw [hholds .greater (o == .gt) (by rw [Comparison.holds, h]; rfl), beq_iff_eq]
  have hatMost : holds .atMost ↔ o ≠ .gt := by
    rw [hholds .atMost (o != .gt) (by rw [Comparison.holds, h]; rfl), bne_iff_ne]
  have hatLeast : holds .atLeast ↔ o ≠ .lt := by
    rw [hholds .atLeast (o != .lt) (by rw [Comparison.holds, h]; rfl), bne_iff_ne]
  have hequal : holds .equal ↔ o = .eq := (hholds .equal (v.looseEq w) rfl).trans hiff
  refine ⟨existsUnique_comparison hless hequal hgreater, ?_, ?_⟩
  · rw [hatMost, hless, hequal]
    cases o <;> simp
  · rw [hatLeast, hgreater, hequal]
    cases o <;> simp

/-- A list of numbers of all types, all of them small. -/
theorem looseEq_iff_order_small :
    let v := list [bool true, int 9007199254740992, float 2.5]
    let w := list [float 1.0, float 9007199254740992.0, int 2]
    v.order w = .ok .gt ∧ v.RoundsApart w ∧ v.looseEq w = false
      ∧ ∃! c, c ∈ [Comparison.less, .equal, .greater] ∧
        (Expr.compare (.literal v) [(c, .literal w)]).eval (fun _ => none) = .ok (.bool true) := by
  intro v w
  have horder : v.order w = .ok .gt := by rfl
  have hapart : v.RoundsApart w := .of_small (by decide) (by decide)
  obtain ⟨hiff, hcomparisons⟩ := (looseEq_iff_order horder).2 hapart
  refine ⟨horder, hapart, ?_, (hcomparisons _ _ _ rfl rfl).1⟩
  rw [← Bool.not_eq_true, hiff]
  nofun

/-- The least two integers that round to one float: one is less than the other, and yet they are
loosely equal. -/
theorem looseEq_of_less :
    let v := int 9007199254740992
    let w := int 9007199254740993
    v.order w = .ok .lt ∧ v.looseEq w = true :=
  ⟨rfl, by decide +kernel⟩

/-! ## Transitivity -/

/-- Where equal things are the same, and what is less than something less is less, two orders give
a third. -/
theorem compare_eq_then {α : Type} {cmp : α → α → Ordering}
    (heq : ∀ {a b}, cmp a b = .eq → a = b)
    (hlt : ∀ {a b c}, cmp a b = .lt → cmp b c = .lt → cmp a c = .lt) {a b c : α}
    (hab : cmp a b ≠ .gt) (hbc : cmp b c ≠ .gt) : cmp a c = (cmp a b).then (cmp b c) := by
  cases h : cmp a b with
  | lt =>
    cases h' : cmp b c with
    | lt => exact hlt h h'
    | eq => exact heq h' ▸ h
    | gt => exact absurd h' hbc
  | eq => exact heq h ▸ rfl
  | gt => exact absurd h hab

theorem compareInt_eq_then {a b c : Int} (hab : compare a b ≠ .gt) (hbc : compare b c ≠ .gt) :
    compare a c = (compare a b).then (compare b c) := by
  refine compare_eq_then Int.compare_eq_eq.mp ?_ hab hbc
  intro a b c hlt hlt'
  exact Int.compare_eq_lt.mpr (Int.lt_trans (Int.compare_eq_lt.mp hlt) (Int.compare_eq_lt.mp hlt'))

variable {u : Value} {p q : Ordering} {more : List Value}

/-- The orders of the first with the second and of the second with the third, if neither is
greater, give that of the first with the third. -/
def Consistent (v w u : Value) : Prop :=
  ∀ o p q, v.order w = .ok o → w.order u = .ok p → v.order u = .ok q → o ≠ .gt → p ≠ .gt →
    q = o.then p

theorem orderItems_eq_then (hvw : RoundsApart (list items) (list others))
    (hwu : RoundsApart (list others) (list more)) (hvu : RoundsApart (list items) (list more))
    (h : ∀ v ∈ items, ∀ w u, RoundsApart v w → RoundsApart w u → RoundsApart v u →
      Consistent v w u)
    (ho : orderItems items others = .ok o) (hp : orderItems others more = .ok p)
    (hq : orderItems items more = .ok q) (hno : o ≠ .gt) (hnp : p ≠ .gt) : q = o.then p := by
  induction items generalizing others more with
  | nil =>
    cases others with
    | nil =>
      cases ho
      exact Except.ok.inj (hq.symm.trans hp)
    | cons w others =>
      cases ho
      cases more with
      | nil => exact absurd (Except.ok.inj hp).symm hnp
      | cons u more => exact (Except.ok.inj hq).symm
  | cons v items ih =>
    cases others with
    | nil => exact absurd (Except.ok.inj ho).symm hno
    | cons w others =>
      cases more with
      | nil => exact absurd (Except.ok.inj hp).symm hnp
      | cons u more =>
        have hhead := h v List.mem_cons_self w u hvw.head hwu.head hvu.head
        rw [orderItems_cons_eq_ok] at ho hp hq
        obtain ⟨hov, hot⟩ | ⟨hov, hone⟩ := ho
        · obtain ⟨hpw, hpt⟩ | ⟨hpw, hpne⟩ := hp
          · obtain ⟨hqv, hqt⟩ | ⟨hqv, hqne⟩ := hq
            · exact ih hvw.tail hwu.tail hvu.tail (fun v hv => h v (List.mem_cons_of_mem _ hv))
                hot hpt hqt
            · exact absurd (hhead _ _ _ hov hpw hqv nofun nofun) hqne
          · -- the second pair decides, and the third in the same way
            obtain rfl : p = .lt := by cases p <;> trivial
            obtain ⟨hqv, -⟩ | ⟨hqv, -⟩ := hq
            · cases hhead _ _ _ hov hpw hqv nofun nofun
            · rw [hhead _ _ _ hov hpw hqv nofun nofun]
              cases o <;> trivial
        · -- the first pair decides, whatever the second one says
          obtain rfl : o = .lt := by cases o <;> trivial
          obtain ⟨p₀, hpw, hnp₀⟩ : ∃ p₀, w.order u = .ok p₀ ∧ p₀ ≠ .gt := by
            obtain ⟨hpw, -⟩ | ⟨hpw, -⟩ := hp
            · exact ⟨.eq, hpw, nofun⟩
            · exact ⟨p, hpw, hnp⟩
          obtain ⟨hqv, -⟩ | ⟨hqv, -⟩ := hq
          · cases hhead _ _ _ hov hpw hqv nofun hnp₀
          · have hless := hhead _ _ _ hov hpw hqv nofun hnp₀
            exact hless

/-- The orders of three values agree if their integers round apart. -/
theorem RoundsApart.consistent (hvw : RoundsApart v w) (hwu : RoundsApart w u)
    (hvu : RoundsApart v u) : Consistent v w u := by
  induction v using listInduction generalizing w u with
  | hlist items ih =>
    intro o p q ho hp hq hno hnp
    rcases order_cases ho with ⟨s, t, hs, -⟩ | ⟨_, others, -, rfl⟩ | ⟨a, b, ha, -⟩
    · cases hs
    · rcases order_cases hp with ⟨s, t, hs, -⟩ | ⟨_, more, -, rfl⟩ | ⟨a, b, ha, -⟩
      · cases hs
      · rw [order] at ho hp hq
        exact orderItems_eq_then hvw hwu hvu (fun v hv w u => ih v hv) ho hp hq hno hnp
      · cases ha
    · cases ha
  | hother v hv =>
    intro o p q ho hp hq hno hnp
    rcases order_cases ho with ⟨s, t, rfl, rfl⟩ | ⟨items, others, rfl, -⟩ | ⟨a, b, ha, hb⟩
    · rcases order_cases hp with ⟨_, r, -, rfl⟩ | ⟨items, others, hs, -⟩ | ⟨a, b, ha, -⟩
      · rw [order] at ho hp hq
        cases ho
        cases hp
        cases hq
        exact compare_eq_then Text.eq_of_order Text.order_trans hno hnp
      · cases hs
      · cases ha
    · exact absurd rfl (hv items)
    · rcases order_cases hp with ⟨s, t, rfl, -⟩ | ⟨items, others, rfl, -⟩ | ⟨b', c, hb', hc⟩
      · cases hb
      · cases hb
      · rw [hvw.order_eq ha hb] at ho
        rw [hwu.order_eq hb hc] at hp
        rw [hvu.order_eq ha hc] at hq
        cases ho
        cases hp
        cases hq
        exact compareInt_eq_then hno hnp

/-! ## Sorting -/

/-- All pairs of the values have an order, and no integers in them round together. -/
structure Sortable (items : List Value) : Prop where
  ordered : ∀ v ∈ items, ∀ w ∈ items, ∃ o, v.order w = .ok o
  apart : ∀ v ∈ items, ∀ w ∈ items, RoundsApart v w

namespace Sortable

/-- The order is transitive on such values. -/
theorem ranked (h : Sortable items) : Ranked items where
  comparable := List.pairwise_of_forall_mem_list h.ordered
  trans := by
    rintro u hu v hv w hw ⟨o, ho, hno⟩ ⟨p, hp, hnp⟩
    obtain ⟨q, hq⟩ := h.ordered u hu w hw
    have hconsistent := (h.apart u hu v hv).consistent (h.apart v hv w hw) (h.apart u hu w hw)
    refine ⟨q, hq, ?_⟩
    rw [hconsistent o p q ho hp hq hno hnp]
    cases o <;> trivial

/-- Values that can be sorted are: no value of the result is greater than a later one. -/
theorem sort (h : Sortable items) : ∃ sorted, Value.sort items = .ok sorted
    ∧ sorted.Perm items ∧ sorted.Pairwise fun v w => v.order w ≠ .ok .gt := by
  obtain ⟨sorted, hsorted, hsorts⟩ := h.ranked.sort
  exact ⟨sorted, hsorted, hsorts.perm, hsorts.ordered⟩

end Sortable

/-- **The order is transitive** among values whose integers round apart, and sorting such values
puts them in order. -/
theorem order_transitive {v w u : Value} {o p q : Ordering} (hvw : RoundsApart v w)
    (hwu : RoundsApart w u) (hvu : RoundsApart v u) (ho : v.order w = .ok o)
    (hp : w.order u = .ok p) (hq : v.order u = .ok q) (hno : o ≠ .gt) (hnp : p ≠ .gt) :
    (q ≠ .gt ∧ q = o.then p)
      ∧ ∀ items, Sortable items → ∃ sorted, sort items = .ok sorted
        ∧ sorted.Perm items ∧ sorted.Pairwise fun v w => v.order w ≠ .ok .gt := by
  have hthen := hvw.consistent hwu hvu o p q ho hp hq hno hnp
  refine ⟨⟨?_, hthen⟩, fun items => Sortable.sort⟩
  rw [hthen]
  cases o <;> trivial

/-- Numbers of all types, the integers among them as great as they may be. -/
theorem order_transitive_small :
    let v := int 9007199254740991
    let w := float 9007199254740992.0
    let u := int 9007199254740992
    v.order w = .ok .lt ∧ w.order u = .ok .eq
      ∧ (∃ q, v.order u = .ok q ∧ q ≠ .gt ∧ q = Ordering.lt.then .eq)
      ∧ Sortable [w, u, v] ∧ ∃ sorted, sort [w, u, v] = .ok sorted
        ∧ sorted.Perm [w, u, v] ∧ sorted.Pairwise fun v w => v.order w ≠ .ok .gt := by
  intro v w u
  have hsmall : ∀ x ∈ [w, u, v], x.integers.all fun i => i.toInt.natAbs ≤ 2 ^ 53 := by
    rw [List.forall_mem_cons, List.forall_mem_cons, List.forall_mem_singleton]
    decide
  have hsortable : Sortable [w, u, v] := by
    refine ⟨?_, fun x hx y hy => .of_small (hsmall x hx) (hsmall y hy)⟩
    simp only [List.forall_mem_cons, List.not_mem_nil, false_implies, implies_true, and_true]
    exact ⟨⟨⟨_, rfl⟩, ⟨_, rfl⟩, _, rfl⟩, ⟨⟨_, rfl⟩, ⟨_, rfl⟩, _, rfl⟩, ⟨_, rfl⟩, ⟨_, rfl⟩, _, rfl⟩
  have hvw : RoundsApart v w := .of_small (by decide) (by decide)
  have hwu : RoundsApart w u := .of_small (by decide) (by decide)
  have hvu : RoundsApart v u := .of_small (by decide) (by decide)
  obtain ⟨hless, hsort⟩ :=
    order_transitive hvw hwu hvu (o := .lt) (p := .eq) rfl rfl rfl nofun nofun
  exact ⟨rfl, rfl, ⟨_, rfl, hless⟩, hsortable, hsort _ hsortable⟩

/-- Three numbers at the edge of rounding: the first and the last are both equal to the second, and
the first is greater than the last. Sorting leaves them as they are. -/
theorem order_equal_greater :
    let v := int 9007199254740993
    let w := float 9007199254740992.0
    let u := int 9007199254740992
    v.order w = .ok .eq ∧ w.order u = .ok .eq ∧ v.order u = .ok .gt
      ∧ sort [v, w, u] = .ok [v, w, u] :=
  ⟨rfl, rfl, rfl, rfl⟩

end Value

end TemplateEngine

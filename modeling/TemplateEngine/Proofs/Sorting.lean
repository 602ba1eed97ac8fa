import Mathlib.Data.List.Perm.Subperm
import TemplateEngine.Proofs.Comparing

/-!
# Sorting

Sorting puts each value behind those that are not greater. Where every two values have an order and
the order is transitive (`Value.Ranked`), it never fails, and the result is in order and keeps the
order of values that compare equal (`Value.Ranked.sort`). One list alone is sorted in this sense
(`Value.Ranked.sorts_unique`), so that it does not matter in which way values are sorted.
-/

namespace TemplateEngine

namespace Value

variable {u v w : Value} {o : Ordering} {items others done all : List Value}

/-! ## Order as a relation -/

/-- The values have an order. -/
def Comparable (v w : Value) : Prop := ∃ o, v.order w = .ok o

/-- The values have an order, and the first is not greater. -/
def AtMost (v w : Value) : Prop := ∃ o, v.order w = .ok o ∧ o ≠ .gt

theorem Comparable.symm (h : Comparable v w) : Comparable w v := by
  obtain ⟨o, ho⟩ := h
  exact ⟨o.swap, order_swap ho⟩

theorem order_eq_gt_iff : v.order w = .ok .gt ↔ w.order v = .ok .lt :=
  ⟨order_swap, order_swap⟩

theorem order_eq_eq_iff : v.order w = .ok .eq ↔ v.AtMost w ∧ w.AtMost v := by
  constructor
  · intro h
    exact ⟨⟨.eq, h, nofun⟩, ⟨.eq, order_swap h, nofun⟩⟩
  · rintro ⟨⟨o, ho, hne⟩, p, hp, hne'⟩
    cases Except.ok.inj ((order_swap ho).symm.trans hp)
    cases o with
    | lt => exact absurd rfl hne'
    | eq => exact ho
    | gt => exact absurd rfl hne

theorem order_eq_lt_iff : v.order w = .ok .lt ↔ v.AtMost w ∧ ¬w.AtMost v := by
  constructor
  · intro h
    refine ⟨⟨.lt, h, nofun⟩, ?_⟩
    rintro ⟨o, ho, hne⟩
    cases Except.ok.inj ((order_swap h).symm.trans ho)
    exact hne rfl
  · rintro ⟨⟨o, ho, hne⟩, hnot⟩
    cases o with
    | lt => exact ho
    | eq => exact absurd ⟨.eq, order_swap ho, nofun⟩ hnot
    | gt => exact absurd rfl hne

theorem Comparable.order_ne_gt_iff (h : Comparable v w) : v.order w ≠ .ok .gt ↔ v.AtMost w := by
  obtain ⟨o, ho⟩ := h
  constructor
  · intro hne
    exact ⟨o, ho, fun heq => hne (heq ▸ ho)⟩
  · rintro ⟨p, hp, hne⟩ hgt
    exact hne (Except.ok.inj (hp.symm.trans hgt))

theorem Comparable.order_ne_lt_iff (h : Comparable v w) : v.order w ≠ .ok .lt ↔ w.AtMost v := by
  rw [← h.symm.order_ne_gt_iff, Ne, Ne, order_eq_gt_iff]

/-! ## Ranked values -/

/-- Every two of the values have an order, and it is transitive on them. -/
structure Ranked (items : List Value) : Prop where
  comparable : items.Pairwise Comparable
  trans : ∀ u ∈ items, ∀ v ∈ items, ∀ w ∈ items, u.AtMost v → v.AtMost w → u.AtMost w

/-- The values in order, where no value is greater than a later one, and values that compare equal
stand in the order they had. -/
structure Sorts (items sorted : List Value) : Prop where
  perm : sorted.Perm items
  ordered : sorted.Pairwise fun v w => v.order w ≠ .ok .gt
  stable : ∀ u ∈ items, sorted.filter (·.order u = .ok .eq) = items.filter (·.order u = .ok .eq)

namespace Ranked

theorem of_subperm (h : Ranked all) (hsub : items.Subperm all) : Ranked items := by
  have hmem := hsub.subset
  obtain ⟨others, hperm, hsub⟩ := hsub
  refine ⟨(hperm.pairwise_iff Comparable.symm).mp (h.comparable.sublist hsub), ?_⟩
  intro u hu v hv w hw
  exact h.trans u (hmem hu) v (hmem hv) w (hmem hw)

/-- Values are in order if each is at most the later ones. -/
theorem pairwise_iff (h : Ranked items) :
    items.Pairwise (fun v w => v.order w ≠ .ok .gt) ↔ items.Pairwise AtMost := by
  constructor
  · intro hordered
    exact (h.comparable.and hordered).imp fun h => h.1.order_ne_gt_iff.mp h.2
  · intro hordered
    exact (h.comparable.and hordered).imp fun h => h.1.order_ne_gt_iff.mpr h.2

/-- A value is put into its place. The values are in falling order, and what compares equal to any
one of them all is kept in its order. -/
theorem insertBack (h : Ranked all) (hsub : (v :: items).Subperm all)
    (hfalling : items.Pairwise fun v w => w.AtMost v) :
    ∃ done, insertBack v items = .ok done ∧ done.Perm (v :: items)
      ∧ done.Pairwise (fun v w => w.AtMost v)
      ∧ ∀ u ∈ all,
        done.filter (·.order u = .ok .eq) = (v :: items).filter (·.order u = .ok .eq) := by
  induction items with
  | nil => exact ⟨[v], rfl, .refl _, List.pairwise_singleton _ _, fun _ _ => rfl⟩
  | cons w items ih =>
    have hv : v ∈ all := hsub.subset List.mem_cons_self
    have hw : w ∈ all := hsub.subset (List.mem_cons_of_mem v List.mem_cons_self)
    obtain ⟨hlast, hrest⟩ := List.pairwise_cons.mp hfalling
    obtain ⟨hcomparable, -⟩ := List.pairwise_cons.mp (h.of_subperm hsub).comparable
    obtain ⟨o, ho⟩ := hcomparable w List.mem_cons_self
    -- only what is less goes further back, so that equal values stay in their order
    by_cases hlt : o = .lt
    · subst hlt
      obtain ⟨hle, hnot⟩ := order_eq_lt_iff.mp ho
      have hless : (v :: items).Subperm all :=
        (List.Sublist.cons_cons v (List.sublist_cons_self w items)).subperm.trans hsub
      obtain ⟨done, hdone, hperm, hordered, hstable⟩ := ih hless hrest
      refine ⟨w :: done, ?_, (hperm.cons w).trans (.swap v w items), ?_, fun u hu => ?_⟩
      · simp only [Value.insertBack, ho, hdone]
        rfl
      · refine List.pairwise_cons.mpr ⟨fun x hx => ?_, hordered⟩
        rcases List.mem_cons.mp (hperm.mem_iff.mp hx) with rfl | hx
        · exact hle
        · exact hlast x hx
      · rw [List.filter_cons, hstable u hu]
        by_cases htie : w.order u = .ok .eq
        · have hnone : v.order u ≠ .ok .eq := by
            intro hvu
            exact hnot (h.trans w hw u hu v hv (order_eq_eq_iff.mp htie).1
              (order_eq_eq_iff.mp hvu).2)
          simp [htie, hnone]
        · simp [List.filter_cons, htie]
    · have hwv : w.AtMost v := by
        refine ⟨o.swap, order_swap ho, ?_⟩
        cases o <;> first | exact absurd rfl hlt | nofun
      refine ⟨v :: w :: items, ?_, .refl _, ?_, fun _ _ => rfl⟩
      · cases o with
        | lt => exact absurd rfl hlt
        | eq | gt =>
          simp only [Value.insertBack, ho]
          rfl
      · refine List.pairwise_cons.mpr ⟨fun x hx => ?_, hfalling⟩
        have hx' : x ∈ all := hsub.subset (List.mem_cons_of_mem v hx)
        rcases List.mem_cons.mp hx with rfl | hmem
        · exact hwv
        · exact h.trans x hx' w hw v hv (hlast x hmem) hwv

/-- Values are put into their places one after the other. -/
theorem insertAll (h : Ranked all) (hsub : (items ++ done).Subperm all)
    (hfalling : done.Pairwise fun v w => w.AtMost v) :
    ∃ sorted, items.foldlM (fun done v => Value.insertBack v done) done = .ok sorted
      ∧ sorted.Perm (items ++ done) ∧ sorted.Pairwise (fun v w => w.AtMost v)
      ∧ ∀ u ∈ all, sorted.filter (·.order u = .ok .eq)
        = (items.reverse ++ done).filter (·.order u = .ok .eq) := by
  induction items generalizing done with
  | nil => exact ⟨done, rfl, .refl _, hfalling, fun _ _ => rfl⟩
  | cons v items ih =>
    have hfirst : (v :: done).Subperm all :=
      (List.Sublist.cons_cons v (List.sublist_append_right items done)).subperm.trans hsub
    obtain ⟨done', hdone', hperm', hfalling', hstable'⟩ := h.insertBack hfirst hfalling
    have hmiddle : (items ++ done').Perm (v :: items ++ done) :=
      (hperm'.append_left items).trans List.perm_middle
    obtain ⟨sorted, hsorted, hperm, hordered, hstable⟩ := ih (hmiddle.subperm.trans hsub) hfalling'
    refine ⟨sorted, ?_, hperm.trans hmiddle, hordered, fun u hu => ?_⟩
    · rw [List.foldlM_cons, hdone']
      exact hsorted
    · rw [hstable u hu, List.filter_append, hstable' u hu, List.reverse_cons, List.append_assoc,
        List.filter_append, List.singleton_append]

/-- **Ranked values are sorted**, and values that compare equal keep their order. -/
theorem sort (h : Ranked items) : ∃ sorted, Value.sort items = .ok sorted ∧ Sorts items sorted := by
  have hall : (items ++ []).Subperm items := by rw [List.append_nil]
  obtain ⟨falling, hfalling, hperm, hordered, hstable⟩ := h.insertAll hall .nil
  rw [List.append_nil] at hperm
  have hresult := falling.reverse_perm.trans hperm
  refine ⟨falling.reverse, ?_, hresult, ?_, fun u hu => ?_⟩
  · rw [Value.sort, hfalling]
    rfl
  · exact (h.of_subperm hresult.subperm).pairwise_iff.mpr (List.pairwise_reverse.mpr hordered)
  · rw [List.filter_reverse, hstable u hu, List.append_nil, List.filter_reverse,
      List.reverse_reverse]

/-! ## One result alone -/

/-- Ranked values in order are the same list if they are the same values, and those that compare
equal are in the same order. -/
theorem eq_of_perm (h : Ranked items) (hperm : items.Perm others) (hitems : items.Pairwise AtMost)
    (hothers : others.Pairwise AtMost) (hties : ∀ u ∈ items,
      items.filter (·.order u = .ok .eq) = others.filter (·.order u = .ok .eq)) :
    items = others := by
  induction items generalizing others with
  | nil => exact hperm.nil_eq
  | cons v items ih =>
    cases others with
    | nil => exact absurd hperm.symm.nil_eq (List.cons_ne_nil _ _).symm
    | cons w others =>
      obtain ⟨hfirst, hrest⟩ := List.pairwise_cons.mp hitems
      obtain ⟨hfirst', hrest'⟩ := List.pairwise_cons.mp hothers
      have hvw : v = w := by
        by_contra hne
        have hw : w ∈ v :: items := hperm.mem_iff.mpr List.mem_cons_self
        have hv : v ∈ w :: others := hperm.mem_iff.mp List.mem_cons_self
        have hle := hfirst w ((List.mem_cons.mp hw).resolve_left (Ne.symm hne))
        have hge := hfirst' v ((List.mem_cons.mp hv).resolve_left hne)
        -- the two compare equal, so they stand in the same order in both lists
        have hself := h.trans v List.mem_cons_self w hw v List.mem_cons_self hle hge
        have htie : w.order v = .ok .eq := order_eq_eq_iff.mpr ⟨hge, hle⟩
        have hsame : v.order v = .ok .eq := order_eq_eq_iff.mpr ⟨hself, hself⟩
        have hheads := hties v List.mem_cons_self
        rw [List.filter_cons_of_pos (by simp [hsame]),
          List.filter_cons_of_pos (by simp [htie])] at hheads
        exact hne (List.cons.inj hheads).1
      subst hvw
      congr 1
      refine ih (h.of_subperm (List.sublist_cons_self v items).subperm) hperm.cons_inv hrest
        hrest' fun u hu => ?_
      have htails := hties u (List.mem_cons_of_mem v hu)
      rw [List.filter_cons, List.filter_cons] at htails
      split at htails
      · exact (List.cons.inj htails).2
      · exact htails

/-- There is one way to sort ranked values. -/
theorem sorts_unique (h : Ranked items) (hs : Sorts items others) (ht : Sorts items all) :
    others = all := by
  have hothers := h.of_subperm hs.perm.subperm
  refine hothers.eq_of_perm (hs.perm.trans ht.perm.symm) (hothers.pairwise_iff.mp hs.ordered)
    ((h.of_subperm ht.perm.subperm).pairwise_iff.mp ht.ordered) fun u hu => ?_
  have hu := hs.perm.mem_iff.mp hu
  rw [hs.stable u hu, ht.stable u hu]

end Ranked

end Value

end TemplateEngine

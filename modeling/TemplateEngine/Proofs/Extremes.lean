import TemplateEngine.Proofs.Ordering

/-!
# Extremes and sorting agree

`min` and `max` go through values once and keep the best one so far. What they have in the end is
the first of the best: it beats all values before it, and none behind beats it (`Value.FirstBest`,
which each value keeps, `Value.Ranked.firstBest_concat`). Among ranked values the least one is
therefore the first of the sorted values, and the greatest is the first that compares equal to
their last (`Value.sort_extremes`).
-/

namespace TemplateEngine

namespace Value

variable {v w best : Value} {beats : Ordering} {items others done result : List Value}

/-! ## The first of the best -/

/-- A value beats all values before it, and none behind beats it. -/
def FirstBest (beats : Ordering) (items : List Value) (best : Value) : Prop :=
  ∃ before after, items = before ++ best :: after ∧ (∀ w ∈ before, best.order w = .ok beats)
    ∧ ∀ w ∈ after, Comparable w best ∧ w.order best ≠ .ok beats

theorem FirstBest.mem (h : FirstBest beats items best) : best ∈ items := by
  obtain ⟨before, after, rfl, -, -⟩ := h
  simp

/-- No value beats the best one. -/
theorem FirstBest.order_ne (h : FirstBest beats items best) (hbeats : beats ≠ .eq)
    (hw : w ∈ items) (hne : w ≠ best) : Comparable w best ∧ w.order best ≠ .ok beats := by
  obtain ⟨before, after, rfl, hbefore, hafter⟩ := h
  rcases List.mem_append.mp hw with hw | hw
  · have hswap := order_swap (hbefore w hw)
    refine ⟨⟨_, hswap⟩, ?_⟩
    rw [hswap]
    cases beats <;> first | exact absurd rfl hbeats | nofun
  · exact hafter w ((List.mem_cons.mp hw).resolve_left hne)

namespace Ranked

/-- What beats a value beats all that do not beat it. -/
theorem beats_trans (h : Ranked items) (hbeats : beats ≠ .eq) {u : Value} (hv : v ∈ items)
    (hu : u ∈ items) (hw : w ∈ items) (hvu : v.order u = .ok beats) (hwu : Comparable w u)
    (hne : w.order u ≠ .ok beats) : v.order w = .ok beats := by
  cases beats with
  | eq => exact absurd rfl hbeats
  | lt =>
    obtain ⟨hle, hnot⟩ := order_eq_lt_iff.mp hvu
    have huw := hwu.order_ne_lt_iff.mp hne
    rw [order_eq_lt_iff]
    exact ⟨h.trans v hv u hu w hw hle huw, fun hwv => hnot (h.trans u hu w hw v hv huw hwv)⟩
  | gt =>
    rw [order_eq_gt_iff, order_eq_lt_iff] at hvu ⊢
    obtain ⟨hle, hnot⟩ := hvu
    have hwu := hwu.order_ne_gt_iff.mp hne
    exact ⟨h.trans w hw u hu v hv hwu hle, fun hvw => hnot (h.trans v hv w hw u hu hvw hwu)⟩

/-- One more value is the best if it beats the best one so far. -/
theorem firstBest_concat (h : Ranked (done ++ [v])) (hbeats : beats ≠ .eq)
    (hbest : FirstBest beats done best) : ∃ o, v.order best = .ok o
      ∧ FirstBest beats (done ++ [v]) (if o = beats then v else best) := by
  have hmem := hbest.mem
  have hcomparable := (List.pairwise_append.mp h.comparable).2.2 best hmem v (by simp)
  obtain ⟨o, ho⟩ := hcomparable.symm
  refine ⟨o, ho, ?_⟩
  split
  · next heq =>
    subst heq
    refine ⟨done, [], rfl, fun w hw => ?_, fun w hw => absurd hw List.not_mem_nil⟩
    by_cases hne : w = best
    · rw [hne, ho]
    · obtain ⟨hwb, hworse⟩ := hbest.order_ne hbeats hw hne
      exact h.beats_trans hbeats (by simp) (List.mem_append_left _ hmem)
        (List.mem_append_left _ hw) ho hwb hworse
  · next hne =>
    obtain ⟨before, after, rfl, hbefore, hafter⟩ := hbest
    refine ⟨before, after ++ [v], by simp, hbefore, fun w hw => ?_⟩
    rcases List.mem_append.mp hw with hw | hw
    · exact hafter w hw
    · obtain rfl := List.mem_singleton.mp hw
      exact ⟨⟨o, ho⟩, fun heq => hne (Except.ok.inj (ho.symm.trans heq))⟩

/-- Going through values finds the first of the best. -/
theorem exists_firstBest (h : Ranked (done ++ others)) (hbeats : beats ≠ .eq)
    (hbest : FirstBest beats done best) : ∃ final,
      others.foldlM (fun best v => do return if (← v.order best) = beats then v else best) best
        = (.ok final : Except RenderError Value)
      ∧ FirstBest beats (done ++ others) final := by
  induction others generalizing done best with
  | nil =>
    rw [List.append_nil]
    exact ⟨best, rfl, hbest⟩
  | cons v others ih =>
    rw [← List.singleton_append, ← List.append_assoc] at h ⊢
    obtain ⟨o, ho, hnext⟩ := (h.of_subperm
      (List.sublist_append_left (done ++ [v]) others).subperm).firstBest_concat hbeats hbest
    obtain ⟨final, hfinal, hlast⟩ := ih h hnext
    refine ⟨final, ?_, hlast⟩
    rw [List.singleton_append, List.foldlM_cons, ho]
    exact hfinal

/-- There is a first of the best in a list of ranked values, and it is found. -/
theorem extreme_eq (h : Ranked items) (hne : items ≠ []) (callee : Text) (beats : Ordering)
    (hbeats : beats ≠ .eq) :
    ∃ best, extreme callee beats [list items] = .ok best ∧ FirstBest beats items best := by
  obtain ⟨first, others, rfl⟩ := List.exists_cons_of_ne_nil hne
  have hfirst : FirstBest beats [first] first := ⟨[], [], rfl, nofun, nofun⟩
  have hall : Ranked ([first] ++ others) := h
  exact hall.exists_firstBest hbeats hfirst

/-! ## The ends of the sorted values -/

/-- The first of the least values is the first of all when they are sorted. -/
theorem head_eq (h : Ranked items) (hsorts : Sorts items (v :: result))
    (hbest : FirstBest .lt items best) : best = v := by
  by_contra hne
  have hmem := hbest.mem
  have hv : v ∈ items := hsorts.perm.mem_iff.mp List.mem_cons_self
  have hranked := h.of_subperm hsorts.perm.subperm
  obtain ⟨hfirst, -⟩ := List.pairwise_cons.mp (hranked.pairwise_iff.mp hsorts.ordered)
  have hle := hfirst best ((List.mem_cons.mp (hsorts.perm.mem_iff.mpr hmem)).resolve_left hne)
  obtain ⟨hvb, hnot⟩ := hbest.order_ne nofun hv (Ne.symm hne)
  have hge := hvb.order_ne_lt_iff.mp hnot
  -- the two compare equal, so sorting leaves the best one in front
  have hself := h.trans best hmem v hv best hmem hge hle
  have hsame : best.order best = .ok .eq := order_eq_eq_iff.mpr ⟨hself, hself⟩
  have htie : v.order best = .ok .eq := order_eq_eq_iff.mpr ⟨hle, hge⟩
  have hstable := hsorts.stable best hmem
  obtain ⟨before, after, rfl, hbefore, -⟩ := hbest
  have hnone : before.filter (·.order best = .ok .eq) = [] := by
    refine List.filter_eq_nil_iff.mpr fun w hw => ?_
    rw [order_swap (hbefore w hw)]
    decide
  rw [List.filter_append, hnone, List.nil_append, List.filter_cons_of_pos (by simp [htie]),
    List.filter_cons_of_pos (by simp [hsame])] at hstable
  exact hne (List.cons.inj hstable).1.symm

/-- The first of the greatest values compares equal to the last of all when they are sorted, and
those before it are less. -/
theorem getLast_ties (h : Ranked items) (hsorts : Sorts items (result ++ [v]))
    (hbest : FirstBest .gt items best) :
    (∀ w ∈ items, best.order w = .ok .gt → w.order v = .ok .lt)
      ∧ (best.order v = .ok .eq ∨ best = v ∧ ∀ o, v.order v ≠ .ok o) := by
  have hmem := hbest.mem
  by_cases heq : best = v
  · subst heq
    refine ⟨fun w _ hgt => order_eq_gt_iff.mp hgt, ?_⟩
    by_cases hself : Comparable best best
    · obtain ⟨o, ho⟩ := hself
      have hswap := Except.ok.inj ((order_swap ho).symm.trans ho)
      refine .inl (ho.trans (congrArg _ ?_))
      cases o <;> trivial
    · exact .inr ⟨rfl, fun o ho => hself ⟨o, ho⟩⟩
  · have hv : v ∈ items := hsorts.perm.mem_iff.mp (by simp)
    have hin : best ∈ result := by simpa [heq] using hsorts.perm.mem_iff.mpr hmem
    have hranked := h.of_subperm hsorts.perm.subperm
    have hle := (List.pairwise_append.mp (hranked.pairwise_iff.mp hsorts.ordered)).2.2
      best hin v (by simp)
    obtain ⟨hvb, hnot⟩ := hbest.order_ne nofun hv (Ne.symm heq)
    have hge := hvb.order_ne_gt_iff.mp hnot
    refine ⟨fun w hw hgt => ?_, .inl (order_eq_eq_iff.mpr ⟨hle, hge⟩)⟩
    have hnot : v.order best ≠ .ok .lt := hvb.order_ne_lt_iff.mpr hle
    exact h.beats_trans nofun hw hmem hv (order_eq_gt_iff.mp hgt) hvb hnot

end Ranked

/-! ## Sorting and extremes -/

theorem sorted_of_sort (h : sort items = .ok result) (reverse : Bool) :
    sorted (list items) reverse = .ok (list (if reverse then result.reverse else result)) := by
  rw [sorted, iterate]
  simp only [bind, Except.bind, h]
  rfl

/-- **Sorting and extremes agree.** If every two values have an order that is transitive on them,
sorting gives them in order and keeps the order of those that compare equal; nothing else does. The
least value is the first of the result. The greatest is the first, in the order the values had, that
compares equal to the last of the result, or this last itself if it does not even compare with
itself. A second argument that counts as true gives the result in reverse. -/
theorem sort_extremes (h : Ranked items) : ∃ result, sort items = .ok result ∧ Sorts items result
    ∧ (∀ other, Sorts items other → other = result)
    ∧ (∀ first ∈ result.head?, Builtin.call "min".toList [list items] = .ok first)
    ∧ (∀ last ∈ result.getLast?, ∃ before greatest after, items = before ++ greatest :: after
      ∧ Builtin.call "max".toList [list items] = .ok greatest
      ∧ (∀ w ∈ before, w.order last = .ok .lt)
      ∧ (greatest.order last = .ok .eq ∨ greatest = last ∧ ∀ o, last.order last ≠ .ok o))
    ∧ Builtin.call "sorted".toList [list items] = .ok (list result)
    ∧ ∀ flag : Value, Builtin.call "sorted".toList [list items, flag]
      = .ok (list (if flag.truthy then result.reverse else result)) := by
  obtain ⟨result, hresult, hsorts⟩ := h.sort
  refine ⟨result, hresult, hsorts, fun other hother => h.sorts_unique hother hsorts, ?_, ?_,
    sorted_of_sort hresult false, fun flag => sorted_of_sort hresult flag.truthy⟩
  · intro first hfirst
    obtain ⟨rest, rfl⟩ := List.head?_eq_some_iff.mp hfirst
    have hne : items ≠ [] := by
      rintro rfl
      cases hsorts.perm.eq_nil
    obtain ⟨best, hbest, hleast⟩ := h.extreme_eq hne Builtin.min.name .lt nofun
    obtain rfl := h.head_eq hsorts hleast
    exact hbest
  · intro last hlast
    obtain ⟨front, rfl⟩ := List.getLast?_eq_some_iff.mp hlast
    have hne : items ≠ [] := by
      rintro rfl
      simpa using hsorts.perm.length_eq
    obtain ⟨best, hbest, hgreatest⟩ := h.extreme_eq hne Builtin.max.name .gt nofun
    obtain ⟨hless, hties⟩ := h.getLast_ties hsorts hgreatest
    obtain ⟨before, after, hitems, hbefore, -⟩ := hgreatest
    refine ⟨before, best, after, hitems, hbest, fun w hw => ?_, hties⟩
    exact hless w (hitems ▸ List.mem_append_left _ hw) (hbefore w hw)

/-- Lists of numbers of two types, two of them equal. -/
theorem sort_extremes_ties :
    let items := [list [float 2.0], list [int 1], list [int 2]]
    let result := [list [int 1], list [float 2.0], list [int 2]]
    Ranked items ∧ sort items = .ok result ∧ Sorts items result
      ∧ Builtin.call "min".toList [list items] = .ok (list [int 1])
      ∧ (∃ before greatest after, items = before ++ greatest :: after
        ∧ Builtin.call "max".toList [list items] = .ok greatest
        ∧ (∀ w ∈ before, w.order (list [int 2]) = .ok .lt)
        ∧ (greatest.order (list [int 2]) = .ok .eq
          ∨ greatest = list [int 2] ∧ ∀ o, (list [int 2]).order (list [int 2]) ≠ .ok o))
      ∧ Builtin.call "sorted".toList [list items, bool true] = .ok (list result.reverse) := by
  intro items result
  have hsmall : ∀ x ∈ items, x.integers.all fun i => i.toInt.natAbs ≤ 2 ^ 53 := by
    rw [List.forall_mem_cons, List.forall_mem_cons, List.forall_mem_singleton]
    decide
  have hsortable : Sortable items := by
    refine ⟨?_, fun x hx y hy => .of_small (hsmall x hx) (hsmall y hy)⟩
    simp only [items, List.forall_mem_cons, List.not_mem_nil, false_implies, implies_true, and_true]
    exact ⟨⟨⟨_, rfl⟩, ⟨_, rfl⟩, _, rfl⟩, ⟨⟨_, rfl⟩, ⟨_, rfl⟩, _, rfl⟩, ⟨_, rfl⟩, ⟨_, rfl⟩, _, rfl⟩
  obtain ⟨result', hresult, hsorts, -, hmin, hmax, -, hreverse⟩ := sort_extremes hsortable.ranked
  have hsort : sort items = .ok result := by rfl
  obtain rfl := Except.ok.inj (hresult.symm.trans hsort)
  exact ⟨hsortable.ranked, hsort, hsorts, hmin _ rfl, hmax _ rfl, hreverse (bool true)⟩

end Value

end TemplateEngine

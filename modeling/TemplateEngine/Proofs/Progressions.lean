import TemplateEngine.Expression.Function
import TemplateEngine.Proofs.Exactness

/-!
# Ranges are progressions

The builtin `range` counts the items of a progression beforehand (`Value.rangeLength`). That the
count is right means that it goes up to the first item that has reached the stop, and no further
(`Value.lt_rangeLength_iff`). All items in front of it lie between the start and the stop, so each
of them is a word, and they are what walking along in words comes to (`Word.progression_eq`): if
the next item does not fit, it has passed the stop.
-/

namespace TemplateEngine

namespace Value

variable {start stop step : Int}

/-! ## The number of items -/

/-- An item of a progression has not reached the stop. -/
def Before (stop step item : Int) : Prop := 0 < step ∧ item < stop ∨ step < 0 ∧ stop < item

/-- A progression downwards is one upwards of the negated integers. -/
theorem before_neg : Before (-stop) (-step) (-start) ↔ Before stop step start := by
  unfold Before
  omega

theorem rangeLength_neg (h : step < 0) :
    rangeLength (-start) (-stop) (-step) = rangeLength start stop step := by
  rw [rangeLength, rangeLength, if_pos (Int.neg_pos.mpr h),
    if_neg (Int.not_lt.mpr (Int.le_of_lt h))]
  congr 2
  omega

theorem lt_rangeLength_of_pos (h : 0 < step) (i : Nat) :
    i < rangeLength start stop step ↔ Before stop step (start + i * step) := by
  have hmul : ((i : Int) + 1) * step = i * step + step := by rw [Int.add_mul, Int.one_mul]
  rw [rangeLength, if_pos h, Int.lt_toNat, ← Int.add_one_le_iff, Int.le_ediv_iff_mul_le h, hmul,
    Before]
  omega

/-- As many items are counted as have not reached the stop. -/
theorem lt_rangeLength_iff (h : step ≠ 0) (i : Nat) :
    i < rangeLength start stop step ↔ Before stop step (start + i * step) := by
  rcases Int.lt_or_gt_of_ne h with hneg | hpos
  · have hitem : -start + i * -step = -(start + i * step) := by rw [Int.mul_neg]; omega
    rw [← rangeLength_neg hneg, lt_rangeLength_of_pos (Int.neg_pos.mpr hneg), hitem, before_neg]
  · exact lt_rangeLength_of_pos hpos i

/-! ## The items -/

/-- The items of a progression, exactly. -/
def items (start stop step : Int) : List Int :=
  (List.range (rangeLength start stop step)).map fun (i : Nat) => start + i * step

theorem range_eq (h : step ≠ 0) :
    range start stop step
      = .ok (list ((items start stop step).map fun i => int (Int64.ofInt i))) := by
  rw [range, if_neg h, items, List.map_map]
  rfl

/-- A progression goes on behind its first item. -/
theorem items_of_before (h : Before stop step start) :
    items start stop step = start :: items (start + step) stop step := by
  have hstep : step ≠ 0 := by
    unfold Before at h
    omega
  have hlength : rangeLength start stop step = rangeLength (start + step) stop step + 1 := by
    refine eq_of_forall_lt_iff fun i => ?_
    rw [lt_rangeLength_iff hstep]
    cases i with
    | zero => simpa using h
    | succ i =>
      have hitem : start + ((i + 1 : Nat) : Int) * step = start + step + i * step := by
        push_cast
        ring
      rw [Nat.succ_lt_succ_iff, lt_rangeLength_iff hstep, hitem]
  rw [items, hlength, List.range_succ_eq_map, List.map_cons, List.map_map, items]
  congr 1
  · simp
  · refine List.map_congr_left fun i _ => ?_
    simp only [Function.comp_apply, Nat.succ_eq_add_one, Nat.cast_succ]
    ring

/-- There are no items behind the stop. -/
theorem items_of_not_before (hstep : step ≠ 0) (h : ¬Before stop step start) :
    items start stop step = [] := by
  have hlength : rangeLength start stop step = 0 := by
    by_contra hne
    have hfirst := (lt_rangeLength_iff hstep 0).mp (Nat.pos_of_ne_zero hne)
    exact h (by simpa using hfirst)
  rw [items, hlength, List.range_zero, List.map_nil]

/-- The items lie between the start and the stop. -/
theorem inRange_of_before {i : Nat} (hstart : InRange start) (hstop : InRange stop)
    (h : Before stop step (start + i * step)) : InRange (start + i * step) := by
  obtain ⟨hmin, hmax⟩ := hstart
  obtain ⟨hmin', hmax'⟩ := hstop
  rcases h with ⟨hpos, hlt⟩ | ⟨hneg, hlt⟩
  · have hnonneg : 0 ≤ i * step := mul_nonneg (Int.natCast_nonneg i) hpos.le
    exact ⟨by omega, by omega⟩
  · have hnonpos : i * step ≤ 0 := mul_nonpos_of_nonneg_of_nonpos (Int.natCast_nonneg i) hneg.le
    exact ⟨by omega, by omega⟩

end Value

namespace Word

theorem before_iff {stop step item : Int64} :
    Before stop step item ↔ Value.Before stop.toInt step.toInt item.toInt := by
  rw [Before, Value.Before]
  simp only [Int64.lt_iff_toInt_lt, Int64.toInt_zero]

/-- **Walking along in words** comes to all items. If the next one does not fit, it has passed the
stop. -/
theorem progression_eq {stop step : Int64} (hstep : step.toInt ≠ 0) (item : Int64) :
    (progression stop step item).map Int64.toInt
      = Value.items item.toInt stop.toInt step.toInt := by
  fun_induction progression stop step item with
  | case1 item h next hnext _ ih =>
    rw [List.map_cons, ih, toInt_of_fit? hnext, ← Value.items_of_before (before_iff.mp h)]
  | case2 item h hnext =>
    have hout : ¬Value.InRange (item.toInt + step.toInt) := by
      intro hin
      rw [fit?_of_inRange hin] at hnext
      cases hnext
    have hlast : ¬Value.Before stop.toInt step.toInt (item.toInt + step.toInt) := by
      intro hbefore
      have hin := Value.inRange_of_before (i := 1) (inRange_toInt item) (inRange_toInt stop)
        (by simpa using hbefore)
      exact hout (by simpa using hin)
    rw [Value.items_of_before (before_iff.mp h), Value.items_of_not_before hstep hlast]
    rfl
  | case3 item h => rw [Value.items_of_not_before hstep (mt before_iff.mpr h), List.map_nil]

end Word

namespace Builtin

variable {v w s : Value} {a b c : Int}

theorem call_range (hv : v.asInt? = some a) (hw : w.asInt? = some b) (hs : s.asInt? = some c) :
    call "range".toList [v, w, s] = Value.range a b c := by
  have hname : ofName? "range".toList = some range := by decide
  simp only [call, hname, apply, Value.expectInt, hv, hw, hs, bind, Except.bind]

/-- Without a start and a step, these are zero and one. -/
theorem call_range_stop (w : Value) :
    call "range".toList [w] = call "range".toList [.int 0, w, .int 1] := by
  rfl

theorem call_range_start_stop (v w : Value) :
    call "range".toList [v, w] = call "range".toList [v, w, .int 1] := by
  rfl

/-- **A range is a progression.** From any start, to any stop and in any step but zero, `range`
gives all items of the progression up to the first that has reached the stop, each as it is and
none wrapped around. Walking along in words, where the item after the last need not fit, comes to
the same. Without a step the step is one, and without a start the start is zero. -/
theorem range_progression (hv : v.asInt? = some a) (hw : w.asInt? = some b)
    (hs : s.asInt? = some c) (hc : c ≠ 0) : ∃ items : List Int64,
      call "range".toList [v, w, s] = .ok (.list (items.map .int))
      ∧ (∀ i : Nat, i < items.length ↔ 0 < c ∧ a + i * c < b ∨ c < 0 ∧ b < a + i * c)
      ∧ (∀ (i : Nat) (hi : i < items.length), items[i].toInt = a + i * c)
      ∧ Word.progression (Int64.ofInt b) (Int64.ofInt c) (Int64.ofInt a) = items
      ∧ call "range".toList [w] = call "range".toList [.int 0, w, .int 1]
      ∧ call "range".toList [v, w] = call "range".toList [v, w, .int 1] := by
  have ha := Value.inRange_of_asInt? hv
  have hb := Value.inRange_of_asInt? hw
  have hwords : (Word.progression (Int64.ofInt b) (Int64.ofInt c) (Int64.ofInt a)).map Int64.toInt
      = Value.items a b c := by
    have hstep := Word.toInt_ofInt (Value.inRange_of_asInt? hs)
    rw [Word.progression_eq (by rwa [hstep]), hstep, Word.toInt_ofInt ha, Word.toInt_ofInt hb]
  generalize Word.progression (Int64.ofInt b) (Int64.ofInt c) (Int64.ofInt a) = items at hwords
  have hlength : items.length = Value.rangeLength a b c := by
    rw [← List.length_map Int64.toInt, hwords, Value.items, List.length_map, List.length_range]
  refine ⟨items, ?_, fun i => ?_, fun i hi => ?_, rfl, call_range_stop w,
    call_range_start_stop v w⟩
  · rw [call_range hv hw hs, Value.range_eq hc, ← hwords, List.map_map]
    congr 3
    funext i
    rw [Function.comp_apply, Int64.ofInt_toInt]
  · rw [hlength]
    exact Value.lt_rangeLength_iff hc i
  · have hitem : (items.map Int64.toInt)[i]? = some (a + i * c) := by
      rw [hwords, Value.items, List.getElem?_map, List.getElem?_range (hlength ▸ hi),
        Option.map_some]
    rw [List.getElem?_map, List.getElem?_eq_getElem hi, Option.map_some] at hitem
    exact Option.some.inj hitem

/-- Two items up to the greatest integer; the next one would not fit. -/
theorem range_progression_greatest :
    (Value.int Int64.maxValue).asInt? = some 9223372036854775807 ∧ (5 : Int) ≠ 0
      ∧ ∃ items : List Int64, items.length = 2
        ∧ call "range".toList [.int 9223372036854775800, .int Int64.maxValue, .int 5]
          = .ok (.list (items.map .int))
        ∧ Word.progression Int64.maxValue 5 9223372036854775800 = items := by
  obtain ⟨items, hcall, -, -, hwords, -⟩ :=
    range_progression (v := .int 9223372036854775800) (w := .int Int64.maxValue) (s := .int 5)
      rfl rfl rfl (by decide)
  have hitems : call "range".toList [.int 9223372036854775800, .int Int64.maxValue, .int 5]
      = .ok (.list [.int 9223372036854775800, .int 9223372036854775805]) := by rfl
  have hmap := Value.list.inj (Except.ok.inj (hcall.symm.trans hitems))
  refine ⟨rfl, by decide, items, ?_, hcall, hwords⟩
  rw [← List.length_map Value.int, hmap]
  rfl

end Builtin

end TemplateEngine

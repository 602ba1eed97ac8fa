import Mathlib.Data.Rat.Floor
import TemplateEngine.Value.Word

/-!
# Operators on integers are exact

What an operator gives on integers, compared with the exact result (`BinaryOp.result?`), in which
quotients are rational numbers and rounded down. The result is exact wherever it fits in a word,
with one exception (`Value.integers_exact`): the least word by minus one has the remainder zero, but
the quotient that goes with it does not fit (`Word.inRange_fdiv`), and the remainder fails with it
(`Value.overflow_of_exact`).

The same comes of the computation in words (`Word.operate_eq`). There a truncated quotient or its
remainder is corrected where the signs of the operands differ, and a correction never leaves the
range, since what it leads to is in it (`Word.correct_eq`).
-/

namespace TemplateEngine

namespace Word

/-! ## Quotients and remainders -/

/-- The quotient rounded down is the truncated one, or one less. -/
theorem fdiv_eq (a : Int) {b : Int} (hb : b ≠ 0) :
    a.fdiv b = if a.tmod b ≠ 0 ∧ ¬(a < 0 ↔ b < 0) then a.tdiv b - 1 else a.tdiv b := by
  have hmod : a.tmod b = 0 ↔ b ∣ a := Int.dvd_iff_tmod_eq_zero.symm
  have hneg (h : b < 0) : b.sign = -1 := Int.sign_eq_neg_one_of_neg h
  have hpos (h : 0 < b) : b.sign = 1 := Int.sign_eq_one_of_pos h
  rw [Int.fdiv_eq_tdiv]
  by_cases hdvd : b ∣ a
  · simp [hdvd, hmod]
  · have ha : a ≠ 0 := fun h => hdvd (h ▸ dvd_zero b)
    rcases lt_or_gt_of_ne ha with ha | ha <;> rcases lt_or_gt_of_ne hb with hb | hb
    · simp [hdvd, hmod, ha, hb, hneg, not_le.mpr]
    · simp [hdvd, hmod, ha, hb, hpos, hb.le, hb.not_gt, not_le.mpr]
    · simp [hdvd, hmod, hb, ha.le, ha.not_gt, not_le.mpr]
    · simp [hdvd, hmod, ha.le, hb.le, ha.not_gt, hb.not_gt]

/-- The remainder of the quotient rounded down is that of the truncated one, or more by the
divisor. -/
theorem fmod_eq (a : Int) {b : Int} (hb : b ≠ 0) :
    a.fmod b = if a.tmod b ≠ 0 ∧ ¬(a < 0 ↔ b < 0) then a.tmod b + b else a.tmod b := by
  rw [Int.fmod_def, fdiv_eq a hb]
  split
  · rw [Int.tmod_def]
    ring
  · exact (Int.tmod_def a b).symm

theorem natAbs_tmod_lt (a : Int) {b : Int} (hb : b ≠ 0) : (a.tmod b).natAbs < b.natAbs := by
  rw [Int.natAbs_tmod]
  exact Nat.mod_lt _ (Int.natAbs_pos.mpr hb)

/-- A remainder that is not zero has the sign of the dividend. -/
theorem tmod_neg_iff (a : Int) {b : Int} (h : a.tmod b ≠ 0) : a.tmod b < 0 ↔ a < 0 := by
  have hpos (ha : 0 ≤ a) : 0 ≤ a.tmod b := Int.tmod_nonneg b ha
  have hneg (ha : 0 ≤ -a) : 0 ≤ -a.tmod b := Int.neg_tmod a b ▸ Int.tmod_nonneg b ha
  omega

/-- The remainder of the quotient rounded down is smaller than the divisor and has its sign. -/
theorem fmod_sign (a : Int) {b : Int} (hb : b ≠ 0) :
    (a.fmod b).natAbs < b.natAbs ∧ (a.fmod b ≠ 0 → (a.fmod b < 0 ↔ b < 0)) := by
  have hlt := natAbs_tmod_lt a hb
  have hsign := @tmod_neg_iff a b
  rw [fmod_eq a hb]
  split <;> omega

/-- A quotient of words is a word, but for the least word by minus one. -/
theorem inRange_quotient {a b quotient remainder : Int} (ha : Value.InRange a)
    (hle : quotient.natAbs ≤ a.natAbs) (hlt : remainder.natAbs < b.natAbs)
    (heq : b * quotient + remainder = a) :
    Value.InRange quotient ↔ ¬(a = -9223372036854775808 ∧ b = -1) := by
  obtain ⟨hmin, hmax⟩ := ha
  constructor
  · rintro ⟨-, hquotient⟩ ⟨rfl, rfl⟩
    omega
  · intro hne
    refine ⟨by omega, ?_⟩
    by_contra hgt
    obtain rfl : quotient = 9223372036854775808 := by omega
    omega

theorem inRange_tdiv {a b : Int} (ha : Value.InRange a) (hb : b ≠ 0) :
    Value.InRange (a.tdiv b) ↔ ¬(a = -9223372036854775808 ∧ b = -1) :=
  inRange_quotient ha (Int.natAbs_tdiv_le_natAbs a b) (natAbs_tmod_lt a hb)
    (Int.mul_tdiv_add_tmod a b)

theorem inRange_fdiv {a b : Int} (ha : Value.InRange a) (hb : b ≠ 0) :
    Value.InRange (a.fdiv b) ↔ ¬(a = -9223372036854775808 ∧ b = -1) :=
  inRange_quotient ha (Int.natAbs_fdiv_le_natAbs a b) (fmod_sign a hb).1
    (Int.mul_fdiv_add_fmod a b)

/-! ## Steps -/

/-- A checked step that is the last one gives the exact result or an overflow. -/
theorem checked_answer (i : Int) : checked (fit? i) answer = some (Value.exact i) := by
  rw [fit?, Value.exact]
  split <;> rfl

theorem fit?_of_inRange {i : Int} (h : Value.InRange i) : fit? i = some (Int64.ofInt i) := if_pos h

theorem answer_eq {i : Int} (h : Value.InRange i) :
    answer (Int64.ofInt i) = some (Value.exact i) := by
  rw [Value.exact, if_pos h]
  rfl

theorem eq_zero_iff {b : Int64} : b = 0 ↔ b.toInt = 0 := by
  rw [← Int64.toInt_inj, Int64.toInt_zero]

theorem unlike_iff {a b : Int64} : unlike a b ↔ ¬(a.toInt < 0 ↔ b.toInt < 0) := by
  simp [unlike, Int64.lt_iff_toInt_lt]

theorem remainder_ne_zero_iff {a b : Int64} : a % b ≠ 0 ↔ a.toInt.tmod b.toInt ≠ 0 := by
  rw [Ne, eq_zero_iff, Int64.toInt_mod]

/-- The truncated quotient fits in a word if and only if the one that is rounded down does. -/
theorem inRange_quotients (a : Int64) {b : Int64} (hb : b.toInt ≠ 0) :
    Value.InRange (a.toInt.fdiv b.toInt) ↔ Value.InRange (a.toInt.tdiv b.toInt) := by
  rw [inRange_fdiv (inRange_toInt a) hb, inRange_tdiv (inRange_toInt a) hb]

/-- A correction gives the exact result, since that fits in a word. -/
theorem correct_eq {p : Prop} [Decidable p] {i j : Int} {k : Int64} (hk : k.toInt = i)
    (h : Value.InRange (if p then j else i)) :
    (if p then (fit? j).bind answer else answer k) = some (Value.exact (if p then j else i)) := by
  split at h
  · rw [if_pos ‹p›, if_pos ‹p›, fit?_of_inRange h, Option.bind_some, answer_eq h]
  · rw [if_neg ‹¬p›, if_neg ‹¬p›, ← answer_eq h, ← hk, Int64.ofInt_toInt]

theorem quotient?_of_inRange {a b : Int64} (h : Value.InRange (a.toInt.tdiv b.toInt)) :
    quotient? a b = some (Int64.ofInt (a.toInt.tdiv b.toInt)) :=
  fit?_of_inRange h

theorem remainder?_of_inRange {a b : Int64} (h : Value.InRange (a.toInt.tdiv b.toInt)) :
    remainder? a b = some (a % b) := by
  rw [remainder?, quotient?_of_inRange h, Option.map_some]

/-- A quotient in words is the exact one. Taking one away goes past no end of the range. -/
theorem floorDiv_eq (a b : Int64) :
    floorDiv a b = some (Value.integerOp .floorDiv a.toInt b.toInt) := by
  rw [floorDiv, Value.integerOp]
  simp only [eq_zero_iff]
  split
  · rfl
  · next hb =>
    by_cases htdiv : Value.InRange (a.toInt.tdiv b.toInt)
    · have hfdiv := (inRange_quotients a hb).mpr htdiv
      rw [quotient?_of_inRange htdiv, checked, remainder?_of_inRange htdiv]
      rw [fdiv_eq _ hb] at hfdiv ⊢
      simp only [Option.bind_eq_bind, Option.bind_some, remainder_ne_zero_iff, unlike_iff,
        toInt_ofInt htdiv]
      exact correct_eq (toInt_ofInt htdiv) hfdiv
    · have hquotient : quotient? a b = none := if_neg htdiv
      rw [hquotient, Value.exact, if_neg (mt (inRange_quotients a hb).mp htdiv)]
      rfl

/-- A remainder is corrected where the signs of the operands differ. -/
theorem remainder_unlike_iff {a b : Int64} :
    a % b ≠ 0 ∧ unlike (a % b) b
      ↔ a.toInt.tmod b.toInt ≠ 0 ∧ ¬(a.toInt < 0 ↔ b.toInt < 0) := by
  rw [remainder_ne_zero_iff, unlike_iff, Int64.toInt_mod]
  exact and_congr_right fun h => by rw [tmod_neg_iff _ h]

/-- A remainder in words is the exact one, where there is a quotient to go with it. -/
theorem mod_eq (a b : Int64) : mod a b = some (Value.integerOp .mod a.toInt b.toInt) := by
  rw [mod, Value.integerOp]
  simp only [eq_zero_iff]
  split
  · rfl
  · next hb =>
    by_cases htdiv : Value.InRange (a.toInt.tdiv b.toInt)
    · have hfmod : Value.InRange (a.toInt.fmod b.toInt) := by
        have hlt := (fmod_sign a.toInt hb).1
        obtain ⟨hmin, hmax⟩ := inRange_toInt b
        exact ⟨by omega, by omega⟩
      rw [remainder?_of_inRange htdiv, checked, if_pos ((inRange_quotients a hb).mpr htdiv)]
      rw [fmod_eq _ hb] at hfmod ⊢
      simp only [Option.bind_eq_bind, remainder_unlike_iff, Int64.toInt_mod]
      exact correct_eq (Int64.toInt_mod a b) hfmod
    · have hremainder : remainder? a b = none := by
        rw [remainder?, quotient?, fit?, if_neg htdiv, Option.map_none]
      rw [hremainder, if_neg (mt (inRange_quotients a hb).mp htdiv)]
      rfl

/-- **Operators in words** take no step that does not fit, and give the exact results. -/
theorem operate_eq (op : BinaryOp) (a b : Int64) :
    operate op a b = some (Value.integerOp op a.toInt b.toInt) := by
  cases op with
  | add | sub | mul => exact checked_answer _
  | div => rfl
  | floorDiv => exact floorDiv_eq a b
  | mod => exact mod_eq a b

end Word

/-! ## Exact results -/

theorem fdiv_eq_floor (a b : Int) : a.fdiv b = ⌊(a / b : ℚ)⌋ := by
  have hnonneg (a : Int) {b : Int} (hb : 0 ≤ b) : a.fdiv b = ⌊(a / b : ℚ)⌋ := by
    obtain ⟨n, rfl⟩ := Int.eq_ofNat_of_zero_le hb
    rw [Int.fdiv_eq_ediv_of_nonneg a hb]
    exact (Rat.floor_intCast_div_natCast a n).symm
  rcases le_total 0 b with hb | hb
  · exact hnonneg a hb
  · have hneg := hnonneg (-a) (neg_nonneg.mpr hb)
    rwa [Int.neg_fdiv_neg, Int.cast_neg, Int.cast_neg, neg_div_neg_eq] at hneg

/-- The exact result of an operator on integers, however large it is. There is none by zero; and
`/` gives a float. -/
def BinaryOp.result? (op : BinaryOp) (a b : Int) : Option Int :=
  match op with
  | add => some (a + b)
  | sub => some (a - b)
  | mul => some (a * b)
  | div => none
  | floorDiv => if b = 0 then none else some ⌊(a / b : ℚ)⌋
  | mod => if b = 0 then none else some (a - b * ⌊(a / b : ℚ)⌋)

namespace BinaryOp

variable {op : BinaryOp} {a b r : Int}

/-- Only by zero there is no result. -/
theorem result?_eq_none (hop : op ≠ .div) :
    op.result? a b = none ↔ (op = .floorDiv ∨ op = .mod) ∧ b = 0 := by
  cases op <;> simp [result?] at hop ⊢

/-- A remainder is smaller than the divisor and has its sign. -/
theorem sign_of_mod (h : mod.result? a b = some r) :
    r.natAbs < b.natAbs ∧ (r ≠ 0 → (r < 0 ↔ b < 0)) := by
  rw [result?, ← fdiv_eq_floor] at h
  split at h
  · cases h
  · next hb =>
    rw [← Option.some.inj h, ← Int.fmod_def]
    exact Word.fmod_sign a hb

end BinaryOp

namespace Value

variable {op : BinaryOp} {v w : Value} {a b r : Int}

theorem integerOp_of_result?_eq_none (hop : op ≠ .div) (h : op.result? a b = none) :
    integerOp op a b = .error .divisionByZero := by
  obtain ⟨rfl | rfl, rfl⟩ := (BinaryOp.result?_eq_none hop).mp h <;> rfl

/-- The result of an operator is the exact one as far as it fits, but for the remainder of the least
word by minus one. -/
theorem integerOp_of_result? (ha : InRange a) (h : op.result? a b = some r) :
    integerOp op a b =
      if op = .mod ∧ a = -9223372036854775808 ∧ b = -1 then .error .overflow else exact r := by
  cases op with
  | add | sub | mul =>
    obtain rfl := Option.some.inj h
    rfl
  | div => cases h
  | floorDiv =>
    rw [BinaryOp.result?, ← fdiv_eq_floor] at h
    split at h
    · cases h
    · next hb =>
      rw [integerOp, if_neg hb, Option.some.inj h]
      rfl
  | mod =>
    rw [BinaryOp.result?, ← fdiv_eq_floor, ← Int.fmod_def] at h
    split at h
    · cases h
    · next hb =>
      rw [integerOp, if_neg hb, Option.some.inj h]
      have hrange := Word.inRange_fdiv ha hb
      split
      · next hin => rw [if_neg fun hmod => hrange.mp hin hmod.2]
      · next hout => rw [if_pos ⟨rfl, by_contra fun hne => hout (hrange.mpr hne)⟩]

/-- An integer operand is a word. -/
theorem inRange_of_asInt? (h : v.asInt? = some a) : InRange a := by
  cases v with
  | int i =>
    rw [← Option.some.inj h]
    exact Word.inRange_toInt i
  | bool b =>
    rw [← Option.some.inj h]
    cases b <;> decide
  | _ => cases h

/-- On integers and truth values an operator is that on integers. -/
theorem binary_eq_integerOp (hv : v.asInt? = some a) (hw : w.asInt? = some b) :
    binary op v w = integerOp op a b := by
  have hnumber : numberOp op v w = integerOp op a b := by rw [numberOp, hv, hw]
  rw [← hnumber]
  cases v <;> cases hv <;> cases w <;> cases hw <;> cases op <;> rfl

theorem exact_eq_error {e : RenderError} : exact r = .error e ↔ ¬InRange r ∧ e = .overflow := by
  rw [exact]
  split
  · next hin => simp [hin]
  · next hout => simp [hout, eq_comm]

theorem integerOp_eq_overflow (hop : op ≠ .div) (ha : InRange a) :
    integerOp op a b = .error .overflow ↔ (∃ r, op.result? a b = some r ∧ ¬InRange r)
      ∨ op = .mod ∧ a = -9223372036854775808 ∧ b = -1 := by
  cases hr : op.result? a b with
  | none =>
    have hb := (BinaryOp.result?_eq_none hop).mp hr
    rw [integerOp_of_result?_eq_none hop hr]
    simp [hb.2]
  | some r =>
    rw [integerOp_of_result? ha hr]
    split
    · next hmod => simp [hmod]
    · next hne => simp [exact_eq_error, hne]

theorem integerOp_eq_divisionByZero (hop : op ≠ .div) (ha : InRange a) :
    integerOp op a b = .error .divisionByZero ↔ (op = .floorDiv ∨ op = .mod) ∧ b = 0 := by
  rw [← BinaryOp.result?_eq_none hop]
  cases hr : op.result? a b with
  | none => simp [integerOp_of_result?_eq_none hop hr]
  | some r =>
    rw [integerOp_of_result? ha hr]
    split <;> simp [exact_eq_error]

/-- **Operators on integers are exact.** On integers and truth values, whatever operator but `/`
gives the exact result if that has 64 bits, overflows if it has not, and fails if the divisor is
zero. One remainder alone is missing: that of the least integer by minus one, whose quotient
overflows. A remainder is smaller than the divisor and has its sign. Computed in words, no step
goes out of the range unnoticed. -/
theorem integers_exact (hop : op ≠ .div) (hv : v.asInt? = some a) (hw : w.asInt? = some b) :
    (∀ r, op.result? a b = some r → InRange r →
        ¬(op = .mod ∧ a = -9223372036854775808 ∧ b = -1) →
        ∃ i : Int64, i.toInt = r ∧ binary op v w = .ok (.int i))
      ∧ (binary op v w = .error .overflow ↔ (∃ r, op.result? a b = some r ∧ ¬InRange r)
        ∨ op = .mod ∧ a = -9223372036854775808 ∧ b = -1)
      ∧ (binary op v w = .error .divisionByZero ↔ (op = .floorDiv ∨ op = .mod) ∧ b = 0)
      ∧ (∀ r, op = .mod → op.result? a b = some r →
        r.natAbs < b.natAbs ∧ (r ≠ 0 → (r < 0 ↔ b < 0)))
      ∧ Word.operate op (Int64.ofInt a) (Int64.ofInt b) = some (binary op v w) := by
  have ha := inRange_of_asInt? hv
  have hb := inRange_of_asInt? hw
  rw [binary_eq_integerOp hv hw]
  refine ⟨?_, integerOp_eq_overflow hop ha, integerOp_eq_divisionByZero hop ha, ?_, ?_⟩
  · intro r hr hin hne
    rw [integerOp_of_result? ha hr, if_neg hne, exact, if_pos hin]
    exact ⟨Int64.ofInt r, Word.toInt_ofInt hin, rfl⟩
  · rintro r rfl hr
    exact BinaryOp.sign_of_mod hr
  · rw [Word.operate_eq, Word.toInt_ofInt ha, Word.toInt_ofInt hb]

/-- The least integer by an integer, by minus one and by a truth value. -/
theorem integers_exact_least :
    (int Int64.minValue).asInt? = some (-9223372036854775808)
      ∧ (∃ i : Int64, i.toInt = -2 ∧ binary .mod (int Int64.minValue) (int (-3)) = .ok (.int i))
      ∧ binary .floorDiv (int Int64.minValue) (int (-1)) = .error .overflow
      ∧ binary .mod (int Int64.minValue) (bool false) = .error .divisionByZero := by
  have hleast : (int Int64.minValue).asInt? = some (-9223372036854775808) := rfl
  refine ⟨hleast, ?_, ?_, ?_⟩
  · exact (integers_exact (by decide) hleast rfl).1 (-2) (by decide +kernel) (by decide) (by decide)
  · refine (integers_exact (by decide) hleast rfl).2.1.mpr (.inl ?_)
    exact ⟨9223372036854775808, by decide +kernel, by decide⟩
  · exact (integers_exact (by decide) hleast rfl).2.2.1.mpr ⟨.inr rfl, rfl⟩

/-- The remainder of the least integer by minus one is zero, and yet it is no result. -/
theorem overflow_of_exact :
    BinaryOp.mod.result? (-9223372036854775808) (-1) = some 0 ∧ InRange 0
      ∧ binary .mod (int Int64.minValue) (int (-1)) = .error .overflow := by
  exact ⟨by decide +kernel, by decide, rfl⟩

end Value

end TemplateEngine

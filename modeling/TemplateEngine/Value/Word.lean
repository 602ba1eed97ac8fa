import TemplateEngine.Value.Arithmetic

/-!
# Integers in words

A second account of the operators on integers, which computes as a machine does: in words of 64
bits, where a quotient is truncated and a remainder has the sign of the dividend. From these the
quotient that is rounded down and its remainder are made by corrections.

No step may wrap around. A step that does not fit in a word gives nothing. Some steps are checked,
and then nothing becomes an overflow; the corrections are not checked, and if one of them gave
nothing, so would `Word.operate`.

A progression is walked along in words too (`Word.progression`): it goes on from each item to the
next, and it ends where the next one does not fit.
-/

namespace TemplateEngine.Word

/-! ## Steps -/

/-- An integer as a word, if it fits. -/
def fit? (i : Int) : Option Int64 := if Value.InRange i then some (Int64.ofInt i) else none

theorem inRange_toInt (a : Int64) : Value.InRange a.toInt :=
  ⟨a.le_toInt, Int.le_of_lt_add_one a.toInt_lt⟩

theorem toInt_ofInt {i : Int} (h : Value.InRange i) : (Int64.ofInt i).toInt = i :=
  Int64.toInt_ofInt_of_le h.1 (Int.lt_add_one_of_le h.2)

/-- A word that an integer fits in stands for this integer. -/
theorem toInt_of_fit? {i : Int} {a : Int64} (h : fit? i = some a) : a.toInt = i := by
  rw [fit?] at h
  split at h
  · next hin => rw [← Option.some.inj h, toInt_ofInt hin]
  · cases h

/-- The quotient of two words, rounded toward zero. -/
def quotient? (a b : Int64) : Option Int64 := fit? (a.toInt.tdiv b.toInt)

/-- The remainder of the truncated quotient. It is computed along with the quotient. -/
def remainder? (a b : Int64) : Option Int64 := (quotient? a b).map fun _ => a % b

/-- The signs of two words differ. -/
def unlike (a b : Int64) : Bool := decide (a < 0) != decide (b < 0)

/-- A step that is checked. -/
def checked (step : Option Int64) (rest : Int64 → Option (Except RenderError Value)) :
    Option (Except RenderError Value) :=
  match step with
  | none => some (.error .overflow)
  | some i => rest i

/-- The last step of an operator. -/
def answer (i : Int64) : Option (Except RenderError Value) := some (.ok (.int i))

/-! ## Operators -/

/-- The quotient rounded down: one less than the truncated one if that was rounded up. -/
def floorDiv (a b : Int64) : Option (Except RenderError Value) :=
  if b = 0 then some (.error .divisionByZero)
  else
    checked (quotient? a b) fun quotient => do
      let remainder ← remainder? a b
      if remainder ≠ 0 ∧ unlike a b then
        answer (← fit? (quotient.toInt - 1))
      else answer quotient

/-- The remainder of the quotient rounded down: the divisor is added where the signs differ. -/
def mod (a b : Int64) : Option (Except RenderError Value) :=
  if b = 0 then some (.error .divisionByZero)
  else
    checked (remainder? a b) fun remainder => do
      if remainder ≠ 0 ∧ unlike remainder b then
        answer (← fit? (remainder.toInt + b.toInt))
      else answer remainder

/-- An operator on words. Quotients that are floats take no steps in words. -/
def operate (op : BinaryOp) (a b : Int64) : Option (Except RenderError Value) :=
  match op with
  | .add => checked (fit? (a.toInt + b.toInt)) answer
  | .sub => checked (fit? (a.toInt - b.toInt)) answer
  | .mul => checked (fit? (a.toInt * b.toInt)) answer
  | .div => some (Value.integerOp .div a.toInt b.toInt)
  | .floorDiv => floorDiv a b
  | .mod => mod a b

/-! ## Progressions -/

/-- A progression has not reached its stop with an item: upwards that is below the stop, and
downwards above it. -/
def Before (stop step item : Int64) : Prop := 0 < step ∧ item < stop ∨ step < 0 ∧ stop < item

instance (stop step item : Int64) : Decidable (Before stop step item) :=
  inferInstanceAs (Decidable (_ ∨ _))

/-- How far it is to the stop. -/
def distance (stop step item : Int64) : Nat :=
  if 0 < step then (stop.toInt - item.toInt).toNat else (item.toInt - stop.toInt).toNat

/-- Each step leads nearer to the stop, or past it. -/
theorem distance_lt {stop step item next : Int64} (h : Before stop step item)
    (hnext : fit? (item.toInt + step.toInt) = some next) :
    distance stop step next < distance stop step item := by
  have hitem := toInt_of_fit? hnext
  simp only [Before, Int64.lt_iff_toInt_lt, Int64.toInt_zero] at h
  simp only [distance, Int64.lt_iff_toInt_lt, Int64.toInt_zero, hitem]
  split <;> omega

/-- The items from `item` on, in steps of `step` as long as they have not reached `stop`. Where the
next item does not fit there are no more. -/
def progression (stop step item : Int64) : List Int64 :=
  if h : Before stop step item then
    match hnext : fit? (item.toInt + step.toInt) with
    | some next =>
      have : distance stop step next < distance stop step item := distance_lt h hnext
      item :: progression stop step next
    | none => [item]
  else []
termination_by distance stop step item

end TemplateEngine.Word

/-!
# Binary floating point numbers, taken apart

A finite `Float` is a sign, a mantissa and a power of two. Reading these off its bits turns
every question that is not plain arithmetic into one about integers: how two numbers
compare, what the whole part is, which way a half rounds.

* `Binary.ofFloat` reads the parts off the bits;
* `Binary.rank?` numbers the floats in their order, so that comparing floats is comparing
  ranks. The two zeros share a rank and a NaN has none;
* `floor`, `roundEven` and `whole?` are the three ways to an integer.
-/

namespace TemplateEngine

/-- What a float stands for. -/
inductive Binary where
  /-- not a number -/
  | nan
  /-- one of the infinities -/
  | infinite (negative : Bool)
  /-- `mantissa * 2 ^ exponent`, with a sign that also zero has -/
  | finite (negative : Bool) (mantissa : Nat) (exponent : Int)
  deriving DecidableEq

namespace Binary

/-- What the bit of the sign counts. -/
def signUnit : Nat := Nat.pow 2 63

/-- What the last bit of the exponent counts. The bits behind it are the fraction. -/
def exponentUnit : Nat := Nat.pow 2 52

/-- The greatest exponent that is written. It marks infinities and NaNs. -/
def topExponent : Nat := 2047

/-- The parts of a float: one bit of sign, eleven of exponent, fifty-two of fraction. -/
def ofFloat (x : Float) : Binary :=
  let bits := x.toBits.toNat
  let negative := decide (signUnit ≤ bits)
  let written := bits % signUnit / exponentUnit
  let fraction := bits % exponentUnit
  if written = topExponent then if fraction = 0 then .infinite negative else .nan
  else if written = 0 then .finite negative fraction (-1074)
  else .finite negative (exponentUnit + fraction) (Int.ofNat written - 1075)

/-! ## Order -/

/-- The place of a float among all floats. -/
def rank? (x : Float) : Option Int :=
  match ofFloat x with
  | .nan => none
  | _ =>
    let bits := x.toBits.toNat
    some (if signUnit ≤ bits then Int.ofNat signUnit - Int.ofNat bits else Int.ofNat bits)

/-- The order of two floats, if both are numbers. -/
def compare? (x y : Float) : Option Ordering :=
  match rank? x, rank? y with
  | some a, some b => some (compare a b)
  | _, _ => none

/-- Two floats are the same number. A NaN is not even the same as itself. -/
def same (x y : Float) : Bool := compare? x y == some .eq

/-- Comparing the other way round gives the reversed order. -/
theorem compare?_swap (x y : Float) : compare? y x = (compare? x y).map Ordering.swap := by
  unfold compare?
  cases rank? x <;> cases rank? y <;> simp [Int.compare_swap]

/-! ## Whole numbers -/

/-- The whole part of `mantissa * 2 ^ exponent`, and what is left over as a numerator and a
denominator. -/
def divide (mantissa : Nat) (exponent : Int) : Nat × Nat × Nat :=
  match exponent with
  | .ofNat e => (mantissa * Nat.pow 2 e, 0, 1)
  | .negSucc e =>
    let unit := Nat.pow 2 (e + 1)
    (mantissa / unit, mantissa % unit, unit)

/-- The float nearest to a natural number, with a sign. -/
def ofWhole (negative : Bool) (n : Nat) : Float :=
  if negative then -(Float.ofNat n) else Float.ofNat n

/-- The greatest whole number that is not above `x`. Zero keeps its sign. -/
def floor (x : Float) : Float :=
  match ofFloat x with
  | .finite negative m e =>
    let (whole, rest, _) := divide m e
    ofWhole negative (if negative && rest != 0 then whole + 1 else whole)
  | _ => x

/-- The whole number nearest to `x`, the even one of two equally near. Zero keeps its
sign. -/
def roundEven (x : Float) : Float :=
  match ofFloat x with
  | .finite negative m e =>
    let (whole, rest, unit) := divide m e
    let up := unit < 2 * rest || 2 * rest == unit && whole % 2 == 1
    ofWhole negative (if up then whole + 1 else whole)
  | _ => x

/-- The whole part of a number, rounded toward zero. -/
def whole? (x : Float) : Option Int :=
  match ofFloat x with
  | .finite negative m e =>
    let whole := Int.ofNat (divide m e).1
    some (if negative then -whole else whole)
  | _ => none

/-- Powers of ten by repeated squaring: each step rounds once. -/
def pow (base : Float) (n : Nat) : Float := go base 1.0 n
where
  go (base acc : Float) (n : Nat) : Float :=
    if h : n = 0 then acc
    else
      have : n / 2 < n := by omega
      go (base * base) (if n % 2 = 1 then acc * base else acc) (n / 2)
  termination_by n

/-- A power of ten with a positive or a negative exponent. -/
def powerOfTen (exponent : Int) : Float :=
  match exponent with
  | .ofNat n => pow 10.0 n
  | .negSucc n => 1.0 / pow 10.0 (n + 1)

end Binary

end TemplateEngine

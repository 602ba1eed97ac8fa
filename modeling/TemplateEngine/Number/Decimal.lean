import TemplateEngine.Text

/-!
# Reading numbers

Numbers are read in two grammars, both in ASCII digits only:

* `Decimal.int?`: an optional sign and digits;
* `Decimal.float?`: an optional sign, then digits with an optional point among them or at
  either end and an optional exponent, or one of the words `inf`, `infinity` and `nan` in
  any case.

The value of a float literal is the float nearest to the decimal. `Decimal.ofInt` is the
text of an integer.
-/

namespace TemplateEngine.Decimal

/-- The value of a digit sequence. -/
def value (digits : Text) : Nat := Nat.ofDigitChars 10 digits 0

/-- The text of an integer. -/
def ofInt : Int → Text
  | .ofNat n => Nat.toDigits 10 n
  | .negSucc n => '-' :: Nat.toDigits 10 (n + 1)

/-- A text of at least one digit and nothing else. -/
def isNumeral (text : Text) : Bool := !text.isEmpty && text.all Char.isDigit

/-- An optional sign: whether it is a minus, and what follows it. -/
def sign : Text → Bool × Text
  | '-' :: text => (true, text)
  | '+' :: text => (false, text)
  | text => (false, text)

/-- Reads an integer of any size. -/
def int? (text : Text) : Option Int :=
  let (negative, digits) := sign text
  if isNumeral digits then
    some (if negative then -Int.ofNat (value digits) else Int.ofNat (value digits))
  else none

/-- The float nearest to `digits * 10 ^ exponent`. Far outside the range of floats the
answer is known without computing the power. -/
def nearest (digits : Nat) (exponent : Int) : Float :=
  let size := exponent + Int.ofNat (Nat.toDigits 10 digits).length
  if digits = 0 ∨ size < -400 then 0.0
  else if 400 < size then 1.0 / 0.0
  else match exponent with
    | .ofNat e => OfScientific.ofScientific digits false e
    | .negSucc e => OfScientific.ofScientific digits true (e + 1)

/-- Reads an exponent: nothing, or `e` and an integer. -/
def exponent? : Text → Option Int
  | [] => some 0
  | c :: text => if c = 'e' ∨ c = 'E' then int? text else none

/-- Reads digits with an optional fraction and an optional exponent. -/
def unsigned? (text : Text) : Option Float :=
  let whole := text.takeWhile Char.isDigit
  let (fraction, rest) := match text.dropWhile Char.isDigit with
    | '.' :: rest => (rest.takeWhile Char.isDigit, rest.dropWhile Char.isDigit)
    | rest => ([], rest)
  if whole.isEmpty && fraction.isEmpty then none
  else
    (exponent? rest).map fun e => nearest (value (whole ++ fraction)) (e - fraction.length)

/-- Reads a float. -/
def float? (text : Text) : Option Float :=
  let (negative, rest) := sign text
  let magnitude :=
    match String.ofList (rest.map Char.toLower) with
    | "inf" | "infinity" => some (1.0 / 0.0)
    | "nan" => some (0.0 / 0.0)
    | _ => unsigned? rest
  magnitude.map fun x => if negative then -x else x

/-! ## Writing and reading back -/

/-- The text of a natural number begins with a digit. -/
theorem exists_toDigits_eq_cons (n : Nat) :
    ∃ c rest, Nat.toDigits 10 n = c :: rest ∧ c.isDigit = true := by
  obtain ⟨c, rest, hdigits⟩ := List.exists_cons_of_ne_nil (Nat.toDigits_ne_nil (b := 10) (n := n))
  refine ⟨c, rest, hdigits, ?_⟩
  exact Nat.isDigit_of_mem_toDigits (b := 10) (n := n) (by decide) (by decide) (by simp [hdigits])

@[simp] theorem value_toDigits (n : Nat) : value (Nat.toDigits 10 n) = n :=
  Nat.ofDigitChars_toDigits (by decide) (by decide)

end TemplateEngine.Decimal

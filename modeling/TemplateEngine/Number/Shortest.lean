import TemplateEngine.Number.Binary
import TemplateEngine.Text

/-!
# The shortest decimal that reads back

The text of a float shows the fewest digits from which the same float is read again. The
reals that are nearest to a float form an interval around it (`Window`); a decimal reads
back exactly if it lies in that window. `Window.shortest` goes from coarse decimal grids to
fine ones and stops at the first grid with a point in the window. On each grid only the
two neighbours of the float can be in the window, and of two hits the nearer is taken.

`Float.text` decides how the digits are laid out: always positionally, without an
exponent, and with `.0` after a whole number below `10 ^ 16`.
-/

namespace TemplateEngine

namespace Binary

/-- The reals that round to one float: from `low / unit` to `high / unit` around
`value / unit`, with the ends if `closed`. -/
structure Window where
  low : Nat
  value : Nat
  high : Nat
  unit : Nat
  closed : Bool

namespace Window

/-- The window of `mantissa * 2 ^ exponent`. The float below a power of two is nearer than
the one above; the ends round to the float with the even mantissa. -/
def ofParts (mantissa : Nat) (exponent : Int) : Window :=
  let below := if mantissa = exponentUnit ∧ exponent ≠ -1074 then 1 else 2
  let (up, down) := match exponent - 2 with
    | .ofNat e => (Nat.pow 2 e, 1)
    | .negSucc e => (1, Nat.pow 2 (e + 1))
  ⟨(4 * mantissa - below) * up, 4 * mantissa * up, (4 * mantissa + 2) * up, down,
    mantissa % 2 == 0⟩

/-- The window with all numbers divided by `10 ^ place`. -/
def scaled (w : Window) (place : Int) : Window :=
  match place with
  | .ofNat p => { w with unit := w.unit * Nat.pow 10 p }
  | .negSucc p =>
    let k := Nat.pow 10 (p + 1)
    { w with low := w.low * k, value := w.value * k, high := w.high * k }

/-- A whole number lies in the window. -/
def has (w : Window) (n : Nat) : Bool :=
  let point := n * w.unit
  w.low < point && point < w.high || w.closed && (point == w.low || point == w.high)

/-- The whole number in the window that is nearest to its value, the greater of two equally
near. -/
def nearest? (w : Window) : Option Nat :=
  let n := w.value / w.unit
  match w.has n, w.has (n + 1) with
  | false, false => none
  | true, false => some n
  | false, true => some (n + 1)
  | true, true => some (if 2 * (w.value % w.unit) < w.unit then n else n + 1)

/-- Searches the grids `10 ^ place`, `10 ^ (place - 1)`, … for a point in the window. -/
def search (w : Window) : (steps : Nat) → (place : Int) → Nat × Int
  | 0, place => ((w.scaled place).value / (w.scaled place).unit, place)
  | steps + 1, place =>
    match (w.scaled place).nearest? with
    | some n => (n, place)
    | none => search w steps (place - 1)

/-- The shortest decimal in the window: `n * 10 ^ place`. Every window of a float has a
decimal with at most seventeen digits, so the search ends long before its steps do. -/
def shortest (w : Window) : Nat × Int :=
  let digits := (Nat.toDigits 10 (w.high / w.unit)).length
  w.search (digits + 345) digits

end Window

/-- The digits of `n * 10 ^ place`, written positionally. -/
def positional (n : Nat) (place : Int) : Text :=
  let digits := Nat.toDigits 10 n
  match place with
  | .ofNat p => digits ++ List.replicate p '0'
  | .negSucc p =>
    let places := p + 1
    let padded := List.replicate (places + 1 - digits.length) '0' ++ digits
    padded.take (padded.length - places) ++ '.' :: padded.drop (padded.length - places)

/-- The text of a float. -/
def text (x : Float) : Text :=
  match ofFloat x with
  | .nan => "nan".toList
  | .infinite negative => if negative then "-inf".toList else "inf".toList
  | .finite negative m e =>
    let (whole, rest, _) := divide m e
    let magnitude :=
      if rest = 0 ∧ whole < Nat.pow 10 16 then Nat.toDigits 10 whole ++ ".0".toList
      else
        let (n, place) := (Window.ofParts m e).shortest
        positional n place
    if negative then '-' :: magnitude else magnitude

end Binary

end TemplateEngine

/-!
# Texts

Template sources, names, paths and rendered output are all *texts*: lists of characters.
This module holds the operations on them that know nothing about templates, in three
groups:

* **order**: code point by code point, the order of dictionary keys and of compared
  strings;
* **cutting**: what stands before and after a fixed piece of text, from which splitting,
  replacing and counting are built;
* **bytes**: positions are reported as UTF-8 byte offsets, so a text has a byte size and
  can be split at a byte offset.
-/

namespace TemplateEngine

/-- A text is the list of its characters. -/
abbrev Text : Type := List Char

namespace Text

/-! ## Order -/

/-- The order of texts: the first character in which they differ decides, by code point,
and a text comes before its continuations. -/
def order : Text → Text → Ordering
  | [], [] => .eq
  | [], _ :: _ => .lt
  | _ :: _, [] => .gt
  | a :: s, b :: t =>
    match compare a.toNat b.toNat with
    | .eq => order s t
    | unequal => unequal

@[simp] theorem order_self (s : Text) : order s s = .eq := by
  induction s with
  | nil => rfl
  | cons a s ih => simp [order, ih]

/-- Texts that compare equal are equal. -/
theorem eq_of_order {s t : Text} (h : order s t = .eq) : s = t := by
  induction s generalizing t with
  | nil => cases t with
    | nil => rfl
    | cons b t => simp [order] at h
  | cons a s ih => cases t with
    | nil => simp [order] at h
    | cons b t =>
      simp only [order] at h
      split at h
      · next hab =>
        rw [Char.toNat_inj.1 (Nat.compare_eq_eq.1 hab), ih h]
      · next o ho => exact absurd h ho

/-- Swapping the texts swaps the order. -/
theorem order_swap (s t : Text) : order t s = (order s t).swap := by
  induction s generalizing t with
  | nil => cases t <;> rfl
  | cons a s ih => cases t with
    | nil => rfl
    | cons b t =>
      simp only [order]
      rw [← Nat.compare_swap a.toNat b.toNat]
      cases compare a.toNat b.toNat with
      | lt => rfl
      | eq => exact ih t
      | gt => rfl

theorem order_cons_eq_lt {a b : Char} {s t : Text} : order (a :: s) (b :: t) = .lt ↔
    a.toNat < b.toNat ∨ a.toNat = b.toNat ∧ order s t = .lt := by
  rw [order]
  split
  · next heq =>
    have hab := Nat.compare_eq_eq.mp heq
    have hnot : ¬a.toNat < b.toNat := fun hlt => Nat.ne_of_lt hlt hab
    exact ⟨fun h => .inr ⟨hab, h⟩, fun h => (h.resolve_left hnot).2⟩
  · next hne =>
    constructor
    · exact fun h => .inl (Nat.compare_eq_lt.mp h)
    · rintro (hlt | ⟨heq, -⟩)
      · exact Nat.compare_eq_lt.mpr hlt
      · exact absurd (Nat.compare_eq_eq.mpr heq) hne

theorem order_trans {s t u : Text} (hst : order s t = .lt) (htu : order t u = .lt) :
    order s u = .lt := by
  induction s generalizing t u with
  | nil =>
    cases u with
    | nil => cases t <;> cases htu
    | cons c u => rfl
  | cons a s ih =>
    cases t with
    | nil => cases hst
    | cons b t =>
      cases u with
      | nil => cases htu
      | cons c u =>
        rw [order_cons_eq_lt] at hst htu ⊢
        rcases hst with hab | ⟨hab, hst⟩
        · rcases htu with hbc | ⟨hbc, -⟩
          · exact .inl (Nat.lt_trans hab hbc)
          · exact .inl (hbc ▸ hab)
        · rcases htu with hbc | ⟨hbc, htu⟩
          · exact .inl (hab ▸ hbc)
          · exact .inr ⟨hab.trans hbc, ih hst htu⟩

/-! ## Cutting -/

/-- What follows `start` in a text that starts with it. -/
def after? : (text start : Text) → Option Text
  | text, [] => some text
  | [], _ :: _ => none
  | c :: text, s :: start => if c = s then after? text start else none

@[simp] theorem after?_nil (text : Text) : after? text [] = some text := by
  cases text <;> rfl

theorem after?_append (start rest : Text) : after? (start ++ rest) start = some rest := by
  induction start with
  | nil => simp
  | cons s start ih => simpa [after?] using ih

theorem after?_eq_some {text start rest : Text} :
    after? text start = some rest ↔ text = start ++ rest := by
  induction start generalizing text with
  | nil => simp
  | cons s start ih =>
    cases text with
    | nil => simp [after?]
    | cons c text => by_cases h : c = s <;> simp [after?, h, ih]

/-- What precedes `ending` in a text that ends with it. -/
def before? (text ending : Text) : Option Text :=
  (after? text.reverse ending.reverse).map List.reverse

/-- Cuts a text around the first occurrence of `needle`. -/
def cut? : (text needle : Text) → Option (Text × Text)
  | [], needle => if needle = [] then some ([], []) else none
  | c :: text, needle =>
    match after? (c :: text) needle with
    | some rest => some ([], rest)
    | none => (cut? text needle).map fun (before, rest) => (c :: before, rest)

/-- Cutting loses nothing but the needle. -/
theorem eq_of_cut? {text needle before rest : Text} (h : cut? text needle = some (before, rest)) :
    text = before ++ needle ++ rest := by
  induction text generalizing before with
  | nil =>
    by_cases hn : needle = []
    · simp only [cut?, hn, if_true, Option.some.injEq, Prod.mk.injEq] at h
      simp [hn, ← h.1, ← h.2]
    · simp [cut?, hn] at h
  | cons c text ih =>
    simp only [cut?] at h
    split at h
    · next r hr =>
      simp only [Option.some.injEq, Prod.mk.injEq] at h
      obtain ⟨rfl, rfl⟩ := h
      simpa using after?_eq_some.1 hr
    · simp only [Option.map_eq_some_iff, Prod.mk.injEq, Prod.exists] at h
      obtain ⟨b, r, hb, rfl, rfl⟩ := h
      simp [ih hb]

/-- What follows the first occurrence of a non-empty needle is shorter than the text. -/
theorem length_lt_of_cut? {text needle before rest : Text} (hn : needle ≠ [])
    (h : cut? text needle = some (before, rest)) : rest.length < text.length := by
  have := List.length_pos_iff.2 hn
  simp only [eq_of_cut? h, List.length_append]
  omega

/-- A text holds `needle` somewhere. -/
def holds (text needle : Text) : Bool := (cut? text needle).isSome

/-- The pieces of a text between the occurrences of `separator`, found from the left and
without overlaps. An empty separator separates nothing. -/
def pieces (text separator : Text) : List Text :=
  if hs : separator = [] then [text]
  else
    match h : cut? text separator with
    | none => [text]
    | some (before, rest) =>
      have : rest.length < text.length := length_lt_of_cut? hs h
      before :: pieces rest separator
termination_by text.length

/-- Writes `new` for every occurrence of `old`. An empty `old` occurs before each
character and at the end. -/
def substitute (text old new : Text) : Text :=
  if old = [] then new ++ text.flatMap (· :: new)
  else new.intercalate (pieces text old)

/-- The number of occurrences of `needle`, counted from the left without overlaps. An
empty needle occurs before each character and at the end. -/
def occurrences (text needle : Text) : Nat :=
  if needle = [] then text.length + 1 else (pieces text needle).length - 1

/-- The text with `new` in place of what stands from `start` up to `stop`. -/
def replaceRange (text : Text) (start stop : Nat) (new : Text) : Text :=
  text.take start ++ new ++ text.drop stop

/-- Texts with others in between. -/
def interleave : (texts fills : List Text) → Text
  | [], fills => fills.flatten
  | text :: texts, [] => text ++ interleave texts []
  | text :: texts, fill :: fills => text ++ fill ++ interleave texts fills

/-- The text without the characters of a class at its end. -/
def trimEnd (text : Text) (drop : Char → Bool) : Text :=
  (text.reverse.dropWhile drop).reverse

/-- The text without the characters of a class at either end. -/
def trim (text : Text) (drop : Char → Bool) : Text :=
  trimEnd (text.dropWhile drop) drop

/-- The longest runs of characters outside the class `gap`. -/
def fields (text : Text) (gap : Char → Bool) : List Text :=
  (text.splitOnP gap).filter (· ≠ [])

/-- The lines of a text: what stands between its newlines. -/
def lines (text : Text) : List Text := pieces text ['\n']

/-- The text ends with a newline and then only spaces, at least one. -/
def endsInIndent (text : Text) : Bool :=
  let line := text.trimEnd (· == ' ')
  line.length < text.length && line.getLast? == some '\n'

/-! ## Bytes -/

/-- The number of bytes of the text in UTF-8. -/
def byteSize : Text → Nat
  | [] => 0
  | c :: text => c.utf8Size + byteSize text

@[simp] theorem byteSize_append (s t : Text) : byteSize (s ++ t) = byteSize s + byteSize t := by
  induction s with
  | nil => simp [byteSize]
  | cons c s ih => simp [byteSize, ih, Nat.add_assoc]

/-- Splits a text at a byte offset. There is no split inside a character or past the end. -/
def splitAtByte? : Text → Nat → Option (Text × Text)
  | text, 0 => some ([], text)
  | [], _ + 1 => none
  | c :: text, n + 1 =>
    if c.utf8Size ≤ n + 1 then
      (splitAtByte? text (n + 1 - c.utf8Size)).map fun (before, rest) => (c :: before, rest)
    else none

/-- As many whole characters from the start of a text as fit into `limit` bytes. -/
def takeBytes : (text : Text) → (limit : Nat) → Text
  | [], _ => []
  | c :: text, limit =>
    if c.utf8Size ≤ limit then c :: takeBytes text (limit - c.utf8Size) else []

end Text

end TemplateEngine

import TemplateEngine.Text

/-!
# Entries

Dictionaries, contexts, locals and the names a loop binds are all *entries*: items under
keys, listed in the order of the keys. `put` keeps the order and replaces the item of a key
that is already there; `get?_put` says that it changes nothing else, and `Ordered.put` that it
keeps the order.
-/

namespace TemplateEngine

/-- Items under keys, in the order of the keys. -/
abbrev Entries (α : Type) : Type := List (Text × α)

namespace Entries

variable {α : Type}

/-- The item under a key. -/
def get? (key : Text) : Entries α → Option α
  | [] => none
  | (k, a) :: entries => if k = key then some a else get? key entries

/-- The entries with an item put under a key. -/
def put (key : Text) (item : α) : Entries α → Entries α
  | [] => [(key, item)]
  | (k, a) :: entries =>
    match key.order k with
    | .lt => (key, item) :: (k, a) :: entries
    | .eq => (key, item) :: entries
    | .gt => (k, a) :: put key item entries

/-- The entries of a list of pairs. Of two pairs with one key the later counts. -/
def ofList (pairs : List (Text × α)) : Entries α :=
  pairs.foldl (fun entries (key, item) => put key item entries) []

/-- Whether there is an item under a key. -/
def has (key : Text) (entries : Entries α) : Bool := (get? key entries).isSome

/-- The item just put is found, and every other key leads where it led before. -/
theorem get?_put (key other : Text) (item : α) (entries : Entries α) :
    get? other (put key item entries) = if key = other then some item else get? other entries := by
  induction entries with
  | nil => simp [put, get?]
  | cons entry entries ih =>
    obtain ⟨k, a⟩ := entry
    simp only [put]
    split
    · simp [get?]
    · next h =>
      obtain rfl := Text.eq_of_order h
      by_cases hk : key = other <;> simp [get?, hk]
    · next h =>
      by_cases hk : k = other
      · have hne : key ≠ other := by
          rintro rfl
          simp [hk] at h
        simp [get?, hk, hne]
      · simp [get?, hk, ih]

@[simp] theorem get?_put_self (key : Text) (item : α) (entries : Entries α) :
    get? key (put key item entries) = some item := by
  simp [get?_put]

theorem get?_put_of_ne {key other : Text} (h : key ≠ other) (item : α) (entries : Entries α) :
    get? other (put key item entries) = get? other entries := by
  simp [get?_put, h]

/-! ## The order of keys -/

/-- Each key comes before all keys behind it. -/
def Ordered (entries : Entries α) : Prop := entries.Pairwise fun a b => a.1.order b.1 = .lt

instance (entries : Entries α) : Decidable entries.Ordered :=
  inferInstanceAs (Decidable (List.Pairwise _ _))

/-- Putting an item adds at most its key. -/
theorem fst_of_mem_put {key : Text} {item : α} {entries : Entries α} {entry : Text × α}
    (h : entry ∈ put key item entries) : entry.1 = key ∨ ∃ old ∈ entries, old.1 = entry.1 := by
  induction entries with
  | nil =>
    rw [put, List.mem_singleton] at h
    exact .inl (by rw [h])
  | cons first entries ih =>
    obtain ⟨k, a⟩ := first
    rw [put] at h
    split at h
    · rcases List.mem_cons.mp h with rfl | hmem
      · exact .inl rfl
      · exact .inr ⟨entry, hmem, rfl⟩
    · rcases List.mem_cons.mp h with rfl | hmem
      · exact .inl rfl
      · exact .inr ⟨entry, List.mem_cons_of_mem _ hmem, rfl⟩
    · rcases List.mem_cons.mp h with rfl | hmem
      · exact .inr ⟨_, List.mem_cons_self, rfl⟩
      · refine (ih hmem).imp_right ?_
        rintro ⟨old, hold, heq⟩
        exact ⟨old, List.mem_cons_of_mem _ hold, heq⟩

/-- **The order is kept** when an item is put under a key. -/
theorem Ordered.put {entries : Entries α} (h : entries.Ordered) (key : Text) (item : α) :
    (put key item entries).Ordered := by
  induction entries with
  | nil => exact List.pairwise_singleton _ _
  | cons first entries ih =>
    obtain ⟨k, a⟩ := first
    obtain ⟨hfirst, htail⟩ := List.pairwise_cons.mp h
    rw [Entries.put]
    split
    · next hkey =>
      refine List.pairwise_cons.mpr ⟨?_, h⟩
      intro entry hentry
      rcases List.mem_cons.mp hentry with rfl | hmem
      · exact hkey
      · exact Text.order_trans hkey (hfirst entry hmem)
    · next hkey =>
      obtain rfl := Text.eq_of_order hkey
      exact List.pairwise_cons.mpr ⟨hfirst, htail⟩
    · next hkey =>
      refine List.pairwise_cons.mpr ⟨?_, ih htail⟩
      intro entry hentry
      rcases fst_of_mem_put hentry with heq | ⟨old, hold, heq⟩
      · rw [heq, Text.order_swap, hkey]
        rfl
      · rw [← heq]
        exact hfirst old hold

/-- Entries that are made of pairs are ordered. -/
theorem ordered_ofList (pairs : List (Text × α)) : (ofList pairs).Ordered := by
  have hfold : ∀ entries : Entries α, entries.Ordered →
      (pairs.foldl (fun entries (key, item) => put key item entries) entries).Ordered := by
    induction pairs with
    | nil => exact fun _ h => h
    | cons pair pairs ih => exact fun _ h => ih _ (h.put _ _)
  exact hfold [] .nil

/-- An item under a key behind all others is put at the end. -/
theorem put_of_ordered {key : Text} {item : α} {entries : Entries α}
    (h : Ordered (entries ++ [(key, item)])) : put key item entries = entries ++ [(key, item)] := by
  induction entries with
  | nil => rfl
  | cons first entries ih =>
    obtain ⟨k, a⟩ := first
    obtain ⟨hfirst, htail⟩ := List.pairwise_cons.mp h
    have hkey : key.order k = .gt := by
      rw [Text.order_swap, hfirst (key, item) (by simp)]
      rfl
    rw [put, hkey]
    exact congrArg _ (ih htail)

end Entries

end TemplateEngine

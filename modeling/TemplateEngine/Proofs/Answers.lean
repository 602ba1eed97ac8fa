import TemplateEngine.Stream

/-!
# What a stream answers

A source is followed step by step (`Source.Runs`), and its answers are read off such a run: a run
that yields some fragments fixes the first answers (`Source.Runs.answers?`), and a source
that has answered `count` requests yields `count` fragments in every run that is long enough
(`Source.Runs.count_le`). Answers do not depend on the number of steps allowed
(`Source.answers?_unique`).

A stream that ends is known by its fragments and by the error that ends it, if there is one
(`Source.Ends`). It is what collecting the stream gives (`Source.exists_collect?_iff`), and
there is at most one.
-/

namespace TemplateEngine

namespace Source

variable {σ : Type} [Source σ]

/-! ## More steps -/

/-- More steps give the same item. -/
theorem next?_mono {steps more : Nat} (hle : steps ≤ more) {s : σ}
    {r : Option (Except RenderError Text) × Option σ} (h : next? steps s = some r) :
    next? more s = some r := by
  induction hle with
  | refl => exact h
  | step _ ih => exact next?_succ ih

/-- More steps give the same answers. -/
theorem answers?_mono {steps more : Nat} (hle : steps ≤ more) {count : Nat} {s : Option σ}
    {answers : Answers} (h : answers? steps count s = some answers) :
    answers? more count s = some answers := by
  induction count generalizing s answers with
  | zero => exact h
  | succ count ih =>
    cases s with
    | none => exact h
    | some s =>
      simp only [answers?, Option.bind_eq_bind, Option.bind_eq_some_iff] at h ⊢
      obtain ⟨⟨item, rest⟩, hnext, others, hrest, hanswers⟩ := h
      exact ⟨_, next?_mono hle hnext, others, ih hrest, hanswers⟩

/-- The answers do not depend on the number of steps. -/
theorem answers?_unique {steps steps' count : Nat} {s : Option σ} {answers answers' : Answers}
    (h : answers? steps count s = some answers) (h' : answers? steps' count s = some answers') :
    answers = answers' := by
  have h₁ := answers?_mono (Nat.le_max_left steps steps') h
  have h₂ := answers?_mono (Nat.le_max_right steps steps') h'
  exact Option.some.inj (h₁.symm.trans h₂)

/-- A step without output is not seen. -/
theorem answers?_of_busy {steps count : Nat} {s rest : σ} {answers : Answers}
    (hp : pull s = .busy rest) (h : answers? steps count (some rest) = some answers) :
    answers? (steps + 1) count (some s) = some answers := by
  cases count with
  | zero => exact h
  | succ count =>
    simp only [answers?, Option.bind_eq_bind, Option.bind_eq_some_iff] at h ⊢
    obtain ⟨⟨item, behind⟩, hnext, others, hrest, hanswers⟩ := h
    refine ⟨(item, behind), ?_, others, answers?_mono (Nat.le_succ steps) hrest, hanswers⟩
    simpa only [next?, hp] using hnext

/-- A fragment is the first answer. -/
theorem answers?_of_fragment {steps count : Nat} {s rest : σ} {text : Text} {answers : Answers}
    (hp : pull s = .fragment text rest)
    (h : answers? steps count (some rest) = some answers) :
    answers? (steps + 1) (count + 1) (some s) = some (some (.ok text) :: answers) := by
  simp [answers?, next?, hp, answers?_mono (Nat.le_succ steps) h]

theorem answers?_of_failed {s : σ} {e : RenderError} (hp : pull s = .failed e) (count : Nat) :
    answers? 1 (count + 1) (some s) = some (some (.error e) :: .replicate count none) := by
  cases count <;> simp [answers?, next?, hp]

theorem answers?_of_finished {s : σ} (hp : pull s = .finished) (count : Nat) :
    answers? 1 count (some s) = some (.replicate count none) := by
  rcases count with _ | _ | count <;> simp [answers?, next?, hp, List.replicate_succ]

/-! ## Runs -/

/-- Some number of steps, with the fragments they yield. -/
inductive Runs : Nat → σ → List Text → σ → Prop
  | refl (s : σ) : Runs 0 s [] s
  | fragment {n : Nat} {s rest last : σ} {text : Text} {texts : List Text}
    (hp : pull s = .fragment text rest) (h : Runs n rest texts last) :
    Runs (n + 1) s (text :: texts) last
  | busy {n : Nat} {s rest last : σ} {texts : List Text} (hp : pull s = .busy rest)
    (h : Runs n rest texts last) : Runs (n + 1) s texts last

variable {n : Nat} {s last : σ} {texts : List Text}

theorem Runs.trans {m : Nat} {final : σ} {others : List Text} (h : Runs n s texts last)
    (h' : Runs m last others final) : Runs (n + m) s (texts ++ others) final := by
  induction h with
  | refl s => simpa using h'
  | fragment hp _ ih =>
    rw [Nat.succ_add]
    exact .fragment hp (ih h')
  | busy hp _ ih =>
    rw [Nat.succ_add]
    exact .busy hp (ih h')

/-- The fragments of a run are the first answers; the rest are those of where it ends. -/
theorem Runs.answers? (h : Runs n s texts last) {count steps : Nat} {answers : Answers}
    (hlast : answers? steps (count - texts.length) (some last) = some answers) :
    ∃ steps', Source.answers? steps' count (some s)
      = some ((texts.take count).map (some <| .ok ·) ++ answers) := by
  induction h generalizing count with
  | refl s => exact ⟨steps, by simpa using hlast⟩
  | @fragment n s rest last text texts hp _ ih =>
    cases count with
    | zero => exact ⟨0, by simpa [Source.answers?] using hlast⟩
    | succ count =>
      rw [List.length_cons, Nat.add_sub_add_right] at hlast
      obtain ⟨steps', hsteps⟩ := ih hlast
      exact ⟨steps' + 1, answers?_of_fragment hp hsteps⟩
  | busy hp _ ih =>
    obtain ⟨steps', hsteps⟩ := ih hlast
    exact ⟨steps' + 1, answers?_of_busy hp hsteps⟩

/-- A run that is long enough yields the item that comes next. -/
theorem Runs.of_next? {steps : Nat} {item : Option (Except RenderError Text)} {behind : Option σ}
    (h : Runs n s texts last) (hnext : next? steps s = some (item, behind)) (hle : steps ≤ n) :
    ∃ m text others rest, texts = text :: others ∧ behind = some rest ∧ Runs m rest others last
      ∧ n ≤ m + steps := by
  induction steps generalizing n s with
  | zero => cases hnext
  | succ steps ih =>
    cases h with
    | refl => omega
    | @fragment m _ rest _ text others hp hrest =>
      rw [next?, hp] at hnext
      cases hnext
      exact ⟨m, text, others, rest, rfl, rfl, hrest, by omega⟩
    | busy hp hrest =>
      rw [next?, hp] at hnext
      obtain ⟨m, text, others, rest, htexts, hbehind, hrun, hm⟩ := ih hrest hnext (by omega)
      exact ⟨m, text, others, rest, htexts, hbehind, hrun, by omega⟩

/-- A source that answers some requests and still goes on after so many steps has yielded a
fragment for each of them. -/
theorem Runs.count_le {steps count : Nat} {answers : Answers} (h : Runs n s texts last)
    (hanswers : Source.answers? steps count (some s) = some answers) (hle : steps * count ≤ n) :
    count ≤ texts.length := by
  -- each of the requests takes at most `steps` steps off the run
  induction count generalizing n s texts answers with
  | zero => exact Nat.zero_le _
  | succ count ih =>
    simp only [Source.answers?, Option.bind_eq_bind, Option.bind_eq_some_iff] at hanswers
    obtain ⟨⟨item, behind⟩, hnext, others, hrest, -⟩ := hanswers
    rw [Nat.mul_succ] at hle
    obtain ⟨m, text, texts', rest, rfl, rfl, hrun, hm⟩ := h.of_next? hnext (by omega)
    have hcount := ih hrun hrest (by omega)
    rw [List.length_cons]
    omega

/-! ## Whole streams -/

/-- The stream has these fragments, and ends with the error if there is one. -/
inductive Ends : σ → List Text → Option RenderError → Prop
  | fragment {s rest : σ} {text : Text} {texts : List Text} {e : Option RenderError}
    (hp : pull s = .fragment text rest) (h : Ends rest texts e) : Ends s (text :: texts) e
  | failed {s : σ} {e : RenderError} (hp : pull s = .failed e) : Ends s [] (some e)
  | finished {s : σ} (hp : pull s = .finished) : Ends s [] none
  | busy {s rest : σ} {texts : List Text} {e : Option RenderError}
    (hp : pull s = .busy rest) (h : Ends rest texts e) : Ends s texts e

variable {others : List Text} {e e' : Option RenderError}

/-- A run to where the rest of the stream is known. -/
theorem Runs.ends (h : Runs n s texts last) (hlast : Ends last others e) :
    Ends s (texts ++ others) e := by
  induction h with
  | refl => exact hlast
  | fragment hp _ ih => exact .fragment hp (ih hlast)
  | busy hp _ ih => exact .busy hp (ih hlast)

/-- A stream ends in one way only. -/
theorem Ends.unique (h : Ends s texts e) (h' : Ends s others e') : texts = others ∧ e = e' := by
  induction h generalizing others with
  | fragment hp _ ih =>
    cases h' with
    | fragment hp' h' =>
      cases hp.symm.trans hp'
      obtain ⟨rfl, rfl⟩ := ih h'
      exact ⟨rfl, rfl⟩
    | failed hp' | finished hp' | busy hp' => cases hp.symm.trans hp'
  | failed hp =>
    cases h' with
    | failed hp' =>
      cases hp.symm.trans hp'
      exact ⟨rfl, rfl⟩
    | fragment hp' | finished hp' | busy hp' => cases hp.symm.trans hp'
  | finished hp =>
    cases h' with
    | finished hp' => exact ⟨rfl, rfl⟩
    | fragment hp' | failed hp' | busy hp' => cases hp.symm.trans hp'
  | busy hp _ ih =>
    cases h' with
    | busy hp' h' =>
      cases hp.symm.trans hp'
      exact ih h'
    | fragment hp' | failed hp' | finished hp' => cases hp.symm.trans hp'

theorem ends_of_collectFrom? {steps : Nat} {done all : List Text}
    (h : collectFrom? steps done s = some (all, e)) :
    ∃ texts, all = done.reverse ++ texts ∧ Ends s texts e := by
  induction steps generalizing s done with
  | zero => cases h
  | succ steps ih =>
    rw [collectFrom?] at h
    cases hp : pull s with
    | fragment text rest =>
      rw [hp] at h
      obtain ⟨texts, rfl, hends⟩ := ih h
      exact ⟨text :: texts, by simp, .fragment hp hends⟩
    | failed e =>
      rw [hp] at h
      cases h
      exact ⟨[], by simp, .failed hp⟩
    | finished =>
      rw [hp] at h
      cases h
      exact ⟨[], by simp, .finished hp⟩
    | busy rest =>
      rw [hp] at h
      obtain ⟨texts, rfl, hends⟩ := ih h
      exact ⟨texts, rfl, .busy hp hends⟩

theorem Ends.collectFrom? (h : Ends s texts e) (done : List Text) :
    ∃ steps, Source.collectFrom? steps done s = some (done.reverse ++ texts, e) := by
  induction h generalizing done with
  | @fragment s rest text texts e hp _ ih =>
    obtain ⟨steps, hsteps⟩ := ih (text :: done)
    exact ⟨steps + 1, by simp [Source.collectFrom?, hp, hsteps]⟩
  | failed hp | finished hp => exact ⟨1, by simp [Source.collectFrom?, hp]⟩
  | busy hp _ ih =>
    obtain ⟨steps, hsteps⟩ := ih done
    exact ⟨steps + 1, by simp [Source.collectFrom?, hp, hsteps]⟩

/-- Collecting a stream gives its fragments and the error that ends it. -/
theorem exists_collect?_iff : (∃ steps, collect? steps s = some (texts, e)) ↔ Ends s texts e := by
  constructor
  · rintro ⟨steps, h⟩
    obtain ⟨texts, rfl, hends⟩ := ends_of_collectFrom? h
    exact hends
  · exact fun h => h.collectFrom? []

/-- What a stream comes to as a whole. -/
def joined (texts : List Text) : Option RenderError → Except RenderError Text
  | some e => .error e
  | none => .ok texts.flatten

/-- The whole output of a stream is that of its fragments. -/
theorem exists_join?_iff {result : Except RenderError Text} :
    (∃ steps, join? steps s = some result)
      ↔ ∃ texts e, Ends s texts e ∧ joined texts e = result := by
  constructor
  · rintro ⟨steps, h⟩
    obtain ⟨⟨texts, e⟩, hcollect, rfl⟩ := Option.map_eq_some_iff.mp h
    refine ⟨texts, e, exists_collect?_iff.mp ⟨steps, hcollect⟩, ?_⟩
    cases e <;> rfl
  · rintro ⟨texts, e, hends, rfl⟩
    obtain ⟨steps, hsteps⟩ := exists_collect?_iff.mpr hends
    refine ⟨steps, ?_⟩
    rw [join?, hsteps]
    cases e <;> rfl

/-- What there is to be answered: the fragments, and then the error if there is one. -/
def items (texts : List Text) (e : Option RenderError) : List (Except RenderError Text) :=
  texts.map .ok ++ e.toList.map .error

/-- Whoever asks gets the items of the stream one after the other, and then nothing any more. No
request takes more steps than the whole stream. -/
theorem Ends.exists_answers? (h : Ends s texts e) :
    ∃ steps, ∀ count, Source.answers? steps count (some s)
      = some ((List.range count).map ((items texts e)[·]?)) := by
  induction h with
  | fragment hp _ ih =>
    obtain ⟨steps, hsteps⟩ := ih
    refine ⟨steps + 1, fun count => ?_⟩
    cases count with
    | zero => rfl
    | succ count =>
      refine (answers?_of_fragment hp (hsteps count)).trans ?_
      simp [items, List.range_succ_eq_map, Function.comp_def]
  | failed hp =>
    refine ⟨1, fun count => ?_⟩
    cases count with
    | zero => rfl
    | succ count =>
      refine (answers?_of_failed hp count).trans ?_
      simp [items, List.range_succ_eq_map, List.map_const', Function.comp_def]
  | finished hp =>
    refine ⟨1, fun count => (answers?_of_finished hp count).trans ?_⟩
    simp [items, List.map_const']
  | busy hp _ ih =>
    obtain ⟨steps, hsteps⟩ := ih
    exact ⟨steps + 1, fun count => answers?_of_busy hp (hsteps count)⟩

/-- Any number of requests are answered. -/
theorem Ends.answers? (h : Ends s texts e) (count : Nat) :
    ∃ steps, Source.answers? steps count (some s)
      = some ((List.range count).map ((items texts e)[·]?)) := by
  obtain ⟨steps, hsteps⟩ := h.exists_answers?
  exact ⟨steps, hsteps count⟩

end Source

end TemplateEngine

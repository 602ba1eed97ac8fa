import TemplateEngine.Proofs.Reading
import TemplateEngine.Proofs.Simulation

/-!
# Rendering a plan is running its outline

The outline of a template is what the grammar reads its marks as, and running the outline is a
recursion over it. The theorem of this module puts together what is known of reading and of
running: whoever asks the renderer of a compiled template for its items one by one gets what the
outline says.
-/

namespace TemplateEngine

/-! ## Answers of a run -/

namespace Renderer

variable {plan : Plan} {stop : Nat} {pending : Pending} {r : Renderer}

theorem Stands.finished {s : Scopes} (h : Stands plan stop pending s r)
    (hstop : plan.get? stop = none) : Source.pull r = .finished := by
  change r.step = _
  rw [step, h.plan, h.position, hstop]

/-- What a trace answers, a renderer that realizes it answers. -/
theorem Realizes.answers {most count : Nat} {t : Trace} {answers : Answers}
    (h : Realizes plan stop pending most r t) (hstop : plan.get? stop = none)
    (ht : t.answers? count = some answers) :
    ∃ steps, Source.answers? steps count (some r) = some answers := by
  obtain ⟨n, last, hruns, hends⟩ := h
  obtain ⟨rest, hrest, rfl⟩ := Option.map_eq_some_iff.mp ht
  have hlast : ∃ steps, Source.answers? steps (count - t.fragments.length) (some last)
      = some rest := by
    cases hf : t.finish with
    | done s =>
      rw [hf] at hends hrest
      cases hrest
      exact ⟨1, Source.answers?_of_finished (Stands.finished hends hstop) _⟩
    | failed e =>
      rw [hf] at hends hrest
      cases hcount : count - t.fragments.length with
      | zero =>
        rw [hcount] at hrest
        exact ⟨0, hrest⟩
      | succ behind =>
        rw [hcount] at hrest
        cases hrest
        exact ⟨1, Source.answers?_of_failed hends behind⟩
    | cut =>
      rw [hf] at hrest
      simp only [Finish.answers?, Option.ite_none_right_eq_some] at hrest
      obtain ⟨hcount, hrest⟩ := hrest
      rw [hcount]
      exact ⟨0, hrest⟩
  obtain ⟨steps, hsteps⟩ := hlast
  exact hruns.answers? hsteps

/-- What a renderer answers, one of the traces that it realizes answers: it is enough to allow as
many rounds as the renderer took steps. -/
theorem exists_answers {steps count : Nat} {t : Nat → Trace} {answers : Answers}
    (h : ∀ most, Realizes plan stop pending most r (t most)) (hstop : plan.get? stop = none)
    (hr : Source.answers? steps count (some r) = some answers) :
    ∃ most, (t most).answers? count = some answers := by
  have hsome : ∃ answers', (t (steps * count)).answers? count = some answers' := by
    obtain ⟨n, last, hruns, hends⟩ := h (steps * count)
    cases hf : (t (steps * count)).finish with
    | done s => exact ⟨_, by rw [Trace.answers?, hf]; rfl⟩
    | failed e =>
      cases hcount : count - (t (steps * count)).fragments.length with
      | zero => exact ⟨_, by rw [Trace.answers?, hf, hcount]; rfl⟩
      | succ behind => exact ⟨_, by rw [Trace.answers?, hf, hcount]; rfl⟩
    | cut =>
      -- the renderer took enough steps to have answered all requests
      rw [hf] at hends
      have hcount := hruns.count_le hr hends
      exact ⟨_, by rw [Trace.answers?, hf, Nat.sub_eq_zero_of_le hcount]; rfl⟩
  obtain ⟨answers', ht⟩ := hsome
  obtain ⟨steps', hr'⟩ := (h (steps * count)).answers hstop ht
  exact ⟨steps * count, by rw [ht, Source.answers?_unique hr hr']⟩

end Renderer

/-- The renderer of an outline answers what the outline says. -/
theorem Outline.answers_iff (outline : Outline) (context : Context) (count : Nat)
    (answers : Answers) :
    (∃ steps, Source.answers? steps count (some (Renderer.start outline.plan context))
        = some answers)
      ↔ ∃ most, (outline.run most context).answers? count = some answers := by
  have hrealizes : ∀ most, Renderer.Realizes outline.plan (0 + Piece.widthAll outline) [] most
      (.start outline.plan context) (outline.run most context) := fun most =>
    Renderer.realizes_runAll outline (Plan.sits _) ⟨rfl, rfl, rfl, rfl⟩
  have hstop : outline.plan.get? (0 + Piece.widthAll outline) = none := by
    simp [Outline.plan, Plan.get?]
  constructor
  · rintro ⟨steps, hr⟩
    exact Renderer.exists_answers hrealizes hstop hr
  · rintro ⟨most, ht⟩
    exact (hrealizes most).answers hstop ht

/-! ## Templates without comments -/

/-- There is no comment in a text. -/
def Text.CommentFree (text : Text) : Prop :=
  Tag.find [.hashComment] text = none ∧ Tag.find [.blockComment] text = none

theorem Text.stripTags_of_find {kind : TagKind} {text : Text} (h : Tag.find [kind] text = none)
    (o : Options) : text.stripTags kind o = text := by
  unfold Text.stripTags
  split
  · rfl
  · next hfound => cases h.symm.trans hfound

theorem Text.CommentFree.stripComments {text : Text} (h : text.CommentFree) (o : Options) :
    text.stripComments o = text := by
  rw [Text.stripComments, stripTags_of_find h.1, stripTags_of_find h.2]

/-- **Rendering preserves meaning**: the marks of a template that compiles read as exactly one
outline, and in every context its renderer answers any number of requests as the outline, run by
recursion, does. -/
theorem Plan.answers_outline {o : Options} {source : Text} {plan : Plan}
    (hfree : source.CommentFree) (hplan : Plan.compile o source = .ok plan)
    (hends : Outline.EndsMatch [] (Outline.marks o source)) :
    ∃ outline : Outline,
      (∀ other : Outline, (∃ modes, Outline.Reads o [] (Outline.marks o source) other modes)
        ↔ other = outline)
      ∧ ∀ (context : Context) (count : Nat) (answers : Answers),
        (∃ steps, Source.answers? steps count (some (Renderer.start plan context)) = some answers)
          ↔ ∃ most, (outline.run most context).answers? count = some answers := by
  rw [Plan.compile, hfree.stripComments] at hplan
  obtain ⟨outline, modes, hdraft, rfl⟩ := Plan.exists_outline hplan
  have hreads := Outline.reads_of_read hends hdraft
  refine ⟨outline, fun other => ⟨?_, ?_⟩, outline.answers_iff⟩
  · rintro ⟨modes', hother⟩
    exact hother.unique hreads
  · rintro rfl
    exact ⟨modes, hreads⟩

/-- A loop with an `if` in its body, an `empty` part and a `while` behind it. -/
theorem Plan.answers_outline_nested :
    let source := ("{% for x in xs %}{% if x %}a{% else %}{{ x }}{% endif %}{% empty %}b"
      ++ "{% endfor %}{% while c %}d{% exec c = false %}{% endwhile %}").toList
    ∃ plan outline, Plan.compile {} source = .ok plan
      ∧ (∃ modes, Outline.Reads {} [] (Outline.marks {} source) outline modes)
      ∧ ∀ (context : Context) (count : Nat) (answers : Answers),
        (∃ steps, Source.answers? steps count (some (Renderer.start plan context)) = some answers)
          ↔ ∃ most, (Outline.run most outline context).answers? count = some answers := by
  intro source
  have hfree : Text.CommentFree source :=
    ⟨Option.isNone_iff_eq_none.mp (by decide +kernel),
      Option.isNone_iff_eq_none.mp (by decide +kernel)⟩
  have hcompiles : (Plan.compile {} source).toOption.isSome := by decide +kernel
  obtain ⟨plan, hplan⟩ := Option.isSome_iff_exists.mp hcompiles
  obtain ⟨outline, hreads, hanswers⟩ := Plan.answers_outline hfree
    (eq_ok_of_toOption hplan) (by decide +kernel)
  exact ⟨plan, outline, eq_ok_of_toOption hplan, (hreads outline).mpr rfl, hanswers⟩

end TemplateEngine

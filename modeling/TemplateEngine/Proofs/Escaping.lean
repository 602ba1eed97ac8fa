import TemplateEngine.Proofs.Acceptance
import TemplateEngine.Proofs.LoopStack
import TemplateEngine.Proofs.Plain

/-!
# What is written is escaped

Three layers decide what becomes of a value: the autoescape sections in the text, the escape that
the plan records for each expression tag, and what escaping does to each character. The outputs
of a plan are the expression tags in order (`Assembly.Records`), and each records what the
sections around its tag say, whatever constructs there are. Running the plan writes what is
recorded, and no markup can begin in a text that was escaped for HTML or XML
(`Language.inert_escape`).
-/

namespace TemplateEngine

/-! ## Escaped texts -/

/-- The characters that begin and end markup or the values in it. -/
def Text.markup : List Char := ['<', '>', '"', '\x27']

/-- No markup can begin in the text: it has no such characters, and every `&` begins an entity. -/
structure Text.Inert (text : Text) : Prop where
  no_markup : ∀ c ∈ text, c ∉ markup
  entity : ∀ before after, text = before ++ '&' :: after →
    ∃ name rest, after = name ++ ';' :: rest ∧ name ≠ [] ∧ ∀ c ∈ name, c.isAlpha = true

namespace Text.Inert

theorem nil : Inert [] :=
  ⟨nofun, fun before after heq => by simp at heq⟩

theorem append {s t : Text} (hs : Inert s) (ht : Inert t) : Inert (s ++ t) := by
  constructor
  · intro c hc
    rcases List.mem_append.mp hc with hc | hc
    · exact hs.no_markup c hc
    · exact ht.no_markup c hc
  · intro before after heq
    rcases List.append_eq_append_iff.mp heq with ⟨between, -, hbehind⟩ | ⟨between, hbefore, hbehind⟩
    · exact ht.entity between after hbehind
    · rcases between with _ | ⟨c, between⟩
      · exact ht.entity [] after hbehind.symm
      · obtain ⟨rfl, rfl⟩ := List.cons.inj hbehind
        obtain ⟨name, rest, rfl, hname⟩ := hs.entity before between hbefore
        exact ⟨name, rest ++ t, by simp, hname⟩

theorem singleton {c : Char} (hmarkup : c ∉ markup) (hamp : c ≠ '&') : Inert [c] := by
  constructor
  · intro d hd
    exact List.mem_singleton.mp hd ▸ hmarkup
  · intro before after heq
    have hmem : '&' ∈ [c] := by simp [heq]
    exact absurd (List.mem_singleton.mp hmem).symm hamp

theorem not_mem_of_isAlpha {c : Char} (hc : c.isAlpha = true) : c ∉ '&' :: ';' :: markup := by
  intro hmem
  simp only [markup, List.mem_cons, List.not_mem_nil, or_false] at hmem
  rcases hmem with rfl | rfl | rfl | rfl | rfl | rfl <;> cases hc

theorem ofName {name : Text} (hne : name ≠ []) (hname : ∀ c ∈ name, c.isAlpha = true) :
    Inert ('&' :: name ++ [';']) := by
  have hletter : ∀ c ∈ name, c ∉ '&' :: ';' :: markup := fun c hc => not_mem_of_isAlpha (hname c hc)
  constructor
  · intro c hc
    simp only [List.mem_append, List.mem_cons, List.not_mem_nil, or_false] at hc
    rcases hc with (rfl | hc) | rfl
    · decide
    · intro hmem
      exact hletter c hc (List.mem_cons_of_mem _ (List.mem_cons_of_mem _ hmem))
    · decide
  · intro before after heq
    rcases before with _ | ⟨c, before⟩
    · obtain ⟨-, rfl⟩ := List.cons.inj heq
      exact ⟨name, [], rfl, hne, hname⟩
    · -- an entity has no other such character
      obtain ⟨-, hrest⟩ := List.cons.inj heq
      have hsplit : name ++ [';'] = before ++ '&' :: after := hrest
      have hmem : '&' ∈ name ++ [';'] := hsplit ▸ List.mem_append_right _ List.mem_cons_self
      rcases List.mem_append.mp hmem with hmem | hmem
      · exact absurd (List.mem_cons_self ..) (hletter _ hmem)
      · exact absurd (List.mem_singleton.mp hmem) (by decide)

end Text.Inert

namespace Language

/-- A table of entities that leaves no markup: the names are letters, and all characters that could
begin markup have one. -/
structure Disarms (entities : List (Char × Text)) : Prop where
  names : ∀ entity ∈ entities, entity.2 ≠ [] ∧ entity.2.all Char.isAlpha = true
  covers : ('&' :: Text.markup).all fun c => (entities.lookup c).isSome

theorem disarms_html : Disarms htmlEntities := ⟨by decide, by decide⟩

theorem disarms_xml : Disarms xmlEntities := ⟨by decide, by decide⟩

theorem Disarms.inert_encode {entities : List (Char × Text)} (h : Disarms entities) (c : Char) :
    (encode entities c).Inert := by
  rw [encode]
  cases hc : entities.lookup c with
  | some name =>
    obtain ⟨before, after, heq, -⟩ := List.lookup_eq_some_iff.mp hc
    obtain ⟨hne, hname⟩ := h.names (c, name) (by simp [heq])
    exact .ofName hne (List.all_eq_true.mp hname)
  | none =>
    have hnot : c ∉ '&' :: Text.markup := by
      intro hmem
      simpa [hc] using List.all_eq_true.mp h.covers c hmem
    rw [List.mem_cons, not_or] at hnot
    exact .singleton hnot.2 hnot.1

/-- The languages in which values cannot be taken for markup. -/
def isMarkup : Language → Bool
  | html | xml => true
  | markdown => false

/-- No markup can begin in an escaped text. -/
theorem inert_escape {l : Language} (h : l.isMarkup = true) (text : Text) :
    (l.escape text).Inert := by
  have hchar : ∀ c, (l.escapeChar c).Inert := by
    intro c
    cases l with
    | html => exact disarms_html.inert_encode c
    | xml => exact disarms_xml.inert_encode c
    | markdown => cases h
  induction text with
  | nil => exact .nil
  | cons c text ih =>
    rw [escape_cons]
    exact (hchar c).append ih

end Language

/-! ## The outputs of a plan -/

/-- The mark is an expression tag. -/
def Mark.isExpression : Mark → Bool
  | .expression _ _ => true
  | .text _ | .statement _ _ => false

theorem Mark.eq_expression_of_isExpression {m : Mark} (h : m.isExpression = true) :
    ∃ found body, m = .expression found body := by
  cases m with
  | expression found body => exact ⟨found, body, rfl⟩
  | _ => cases h

theorem Mark.exists_expression {l : List Mark} {i : Nat} (h : i < l.countP isExpression) :
    ∃ before found body after, l = before ++ .expression found body :: after
      ∧ before.countP isExpression = i := by
  induction l generalizing i with
  | nil => simp at h
  | cons m l ih =>
    cases hm : m.isExpression with
    | false =>
      rw [List.countP_cons_of_neg (by simp [hm])] at h
      obtain ⟨before, found, body, after, rfl, rfl⟩ := ih h
      exact ⟨m :: before, found, body, after, rfl, List.countP_cons_of_neg (by simp [hm])⟩
    | true =>
      rw [List.countP_cons_of_pos hm] at h
      cases i with
      | zero =>
        obtain ⟨found, body, rfl⟩ := eq_expression_of_isExpression hm
        exact ⟨[], found, body, l, rfl, rfl⟩
      | succ i =>
        obtain ⟨before, found, body, after, rfl, rfl⟩ := ih (Nat.lt_of_succ_lt_succ h)
        exact ⟨m :: before, found, body, after, rfl, List.countP_cons_of_pos hm⟩

/-- Only one tag opens a section in which values are not escaped. -/
theorem Mark.eq_autoescape_of_mode {m : Mark} (h : m.mode = false) :
    ∃ found, m = .statement found (.autoescape "off".toList) := by
  cases m with
  | text | expression => cases h
  | statement found directive =>
    cases directive with
    | autoescape mode =>
      have hoff : mode = "off".toList := by simpa [Mark.mode] using h
      exact ⟨found, by rw [hoff]⟩
    | _ => cases h

/-- The value that an instruction writes, and what it is escaped for. -/
def Instruction.output? : Instruction → Option (Expr × Option Language)
  | .output value escape => some (value, escape)
  | _ => none

theorem Instruction.output?_eq_some {i : Instruction} {e : Expr} {escape : Option Language} :
    i.output? = some (e, escape) ↔ i = .output e escape := by
  cases i <;> simp [output?]

/-- What the output instructions of a plan write, from the first. -/
def Plan.outputs (plan : Plan) : List (Expr × Option Language) :=
  plan.instructions.toList.filterMap Instruction.output?

namespace Assembly

variable {o : Options} {text : Text} {a b : Assembly} {l : List Mark} {m : Mark}

/-- What the output instructions read so far write. -/
def outputs (a : Assembly) : List (Expr × Option Language) :=
  a.code.toList.filterMap Instruction.output?

@[simp] theorem outputs_push (a : Assembly) (i : Instruction) :
    (a.push i).outputs = a.outputs ++ i.output?.toList := by
  cases h : i.output? <;> simp [outputs, h]

theorem outputs_eq_plain (a : Assembly) : a.outputs = a.plain.filterMap Instruction.output? := by
  refine (Instruction.filterMap_filter_isPlain (fun {i b} h => ?_) a.code.toList).symm
  rw [Instruction.output?_eq_some.mp h]
  rfl

/-- An expression tag adds an output with the escape of the present mode. -/
theorem Step.outputs_expression {found : Tag.Found} {body : Text}
    (h : Step o a (.expression found body) b) :
    ∃ e, Expr.parse body = .ok e ∧ b.outputs = a.outputs ++ [(e, o.escape a.modes)] := by
  obtain ⟨added, hadds, hplain⟩ := h.plain
  cases hadds with
  | expression _ parse =>
    refine ⟨_, parse, ?_⟩
    rw [outputs_eq_plain, hplain, List.filterMap_append, outputs_eq_plain]
    rfl

/-- No other mark adds an output. -/
theorem Step.outputs_eq (h : Step o a m b) (hm : m.isExpression = false) :
    b.outputs = a.outputs := by
  obtain ⟨added, hadds, hplain⟩ := h.plain
  have hnone : added.filterMap Instruction.output? = [] := by
    cases hadds with
    | expression => cases hm
    | text | exec | nothing => rfl
  rw [outputs_eq_plain, hplain, List.filterMap_append, hnone, List.append_nil, outputs_eq_plain]

end Assembly

/-! ## Sections decide -/

/-- The innermost section that is open behind some tags is one that turns escaping off. -/
def Outline.EscapingOff (before : List Mark) : Prop :=
  ∃ outer found inside,
    Mark.sections.Innermost before outer (.statement found (.autoescape "off".toList)) inside

/-- What a value is escaped for behind some tags. -/
structure Outline.Escapes (o : Options) (before : List Mark) (escape : Option Language) :
    Prop where
  eq_none_iff : escape = none ↔ Outline.EscapingOff before
  eq_language : ¬Outline.EscapingOff before → escape = some o.language

namespace Assembly

variable {o : Options} {text : Text} {a b : Assembly} {l : List Mark} {m : Mark}

/-- The modes say what a value is escaped for. -/
theorem InSections.escapes (h : InSections l a) : Outline.Escapes o l (o.escape a.modes) := by
  obtain ⟨stack, hstack, ha⟩ := h
  have hoff : Outline.EscapingOff l ↔ ∃ modes, a.modes = false :: modes := by
    constructor
    · rintro ⟨outer, found, inside, hinner⟩
      obtain ⟨below, rfl⟩ := hstack.of_innermost hinner
      exact ⟨_, ha⟩
    · rintro ⟨modes, hmodes⟩
      cases stack with
      | nil => cases hmodes.symm.trans ha
      | cons top below =>
        obtain ⟨m, inside⟩ := top
        obtain ⟨hm, -⟩ := List.cons.inj (hmodes.symm.trans ha)
        obtain ⟨outer, hinner⟩ := hstack.innermost
        obtain ⟨found, rfl⟩ := Mark.eq_autoescape_of_mode hm.symm
        exact ⟨outer, found, inside, hinner⟩
  rcases hmodes : a.modes with _ | ⟨_ | _, modes⟩
  · exact ⟨by simp [Options.escape, hoff, hmodes], fun _ => rfl⟩
  · exact ⟨by simp [Options.escape, hoff, hmodes], fun hnot => absurd (hoff.mpr ⟨_, hmodes⟩) hnot⟩
  · exact ⟨by simp [Options.escape, hoff, hmodes], fun _ => rfl⟩

/-- The outputs are the expression tags read so far, in order, and each is escaped as the sections
around its tag say. -/
structure Records (o : Options) (l : List Mark) (a : Assembly) : Prop where
  sections : InSections l a
  length : a.outputs.length = l.countP Mark.isExpression
  output : ∀ before found body after, l = before ++ .expression found body :: after →
    ∃ e escape, Expr.parse body = .ok e
      ∧ a.outputs[before.countP Mark.isExpression]? = some (e, escape)
      ∧ Outline.Escapes o before escape

theorem records_nil : Records o [] {} where
  sections := ⟨[], .nil Brackets.balanced_nil, rfl⟩
  length := rfl
  output before found body after heq := by simp at heq

/-- Every tag keeps the record. -/
theorem Records.step (h : Records o l a) (hstep : Step o a m b) : Records o (l ++ [m]) b := by
  have hsections := h.sections.step hstep
  cases hm : m.isExpression with
  | false =>
    have houtputs := hstep.outputs_eq hm
    refine ⟨hsections, ?_, ?_⟩
    · rw [houtputs, h.length, Brackets.count_concat_of_neg hm]
    · intro before found body after heq
      obtain ⟨-, rfl, -⟩ | ⟨after, -, heq⟩ := Brackets.split_of_concat heq
      · cases hm
      · rw [houtputs]
        exact h.output before found body after heq
  | true =>
    obtain ⟨found, body, rfl⟩ := Mark.eq_expression_of_isExpression hm
    obtain ⟨e, he, houtputs⟩ := hstep.outputs_expression
    refine ⟨hsections, ?_, ?_⟩
    · rw [houtputs, Brackets.count_concat_of_pos hm, ← h.length, List.length_append]
      rfl
    · -- the tag is the new one, whose output is the last, or it was there before
      intro before found' body' after heq
      rw [houtputs]
      obtain ⟨rfl, heq, -⟩ | ⟨after, -, heq⟩ := Brackets.split_of_concat heq
      · obtain ⟨rfl, rfl⟩ := Mark.expression.inj heq
        rw [← h.length, List.getElem?_concat_length]
        exact ⟨e, _, he, rfl, h.sections.escapes⟩
      · obtain ⟨e', escape, he', hget, hescapes⟩ := h.output before found' body' after heq
        have hlt := (List.getElem?_eq_some_iff.mp hget).1
        exact ⟨e', escape, he', (List.getElem?_append_left hlt).trans hget, hescapes⟩

theorem records_of_read {marks : List Mark} (h : read o text {} marks = .ok a) :
    Records o (marks.filter Mark.isTag) a := by
  refine read_tags_induct (P := Records o) ?_ ?_ h records_nil
  · rintro l a literal ⟨hsections, hlength, houtput⟩
    have houtputs : (a.push (.literal literal)).outputs = a.outputs := by
      simp [Instruction.output?]
    exact ⟨hsections, houtputs ▸ hlength, houtputs ▸ houtput⟩
  · intro l a b m _ hstep hrecords
    exact hrecords.step hstep

/-- Each output belongs to an expression tag. -/
theorem Records.escapes_of_mem (h : Records o l a) {e : Expr} {escape : Option Language}
    (hmem : (e, escape) ∈ a.outputs) :
    ∃ before after, l = before ++ after ∧ Outline.Escapes o before escape := by
  obtain ⟨i, hi⟩ := List.mem_iff_getElem?.mp hmem
  have hlt : i < l.countP Mark.isExpression := by
    rw [← h.length]
    exact (List.getElem?_eq_some_iff.mp hi).1
  obtain ⟨before, found, body, after, rfl, rfl⟩ := Mark.exists_expression hlt
  obtain ⟨e', escape', -, hget, hescapes⟩ := h.output before found body after rfl
  rw [hi] at hget
  cases hget
  exact ⟨before, _, rfl, hescapes⟩

end Assembly

/-! ## Runs -/

namespace Renderer

variable {r r' : Renderer} {texts : List Text} {n : Nat}

/-- A step leaves the plan as it is. -/
theorem Move.plan_eq (h : Move r r') : r'.plan = r.plan := by
  cases h with
  | go _ _ _ hplan => exact hplan
  | _ => rfl

/-- A run leaves the plan as it is. -/
theorem plan_of_runs (h : Source.Runs n r texts r') : r'.plan = r.plan := by
  induction h with
  | refl => rfl
  | fragment hp _ ih | busy hp _ ih => exact ih.trans (move_of_next? (by rw [next?, hp])).plan_eq

/-- What an output instruction writes is the text of a value, escaped as recorded. -/
theorem text_of_output {e : Expr} {escape : Option Language} {text : Text} {rest : Renderer}
    (hi : r.plan.get? r.position = some (.output e escape))
    (hp : Source.pull r = .fragment text rest) :
    ∃ value, r.eval e = .ok value ∧ text = (escape.map (·.escape value.text)).getD value.text := by
  have hstep : r.step = .fragment text rest := hp
  simp only [step, hi, write] at hstep
  cases he : r.eval e with
  | error e =>
    rw [he] at hstep
    cases hstep
  | ok value =>
    rw [he] at hstep
    cases hstep
    exact ⟨value, rfl, by cases escape <;> rfl⟩

end Renderer

theorem Plan.mem_outputs {plan : Plan} {position : Nat} {e : Expr} {escape : Option Language}
    (h : plan.get? position = some (.output e escape)) : (e, escape) ∈ plan.outputs := by
  refine List.mem_filterMap.mpr ⟨.output e escape, ?_, rfl⟩
  exact Array.mem_toList_iff.mpr (Array.mem_of_getElem? h)

/-- **Escaping cannot be bypassed**: the outputs of a plan are the expression tags of the
template in order, and each is escaped for the language of the options unless the innermost
autoescape section around its tag is off, whatever constructs begin or end in between. If no section
is off and the language is one of markup, no markup can begin in a text that an expression tag
writes, in whatever run. -/
theorem Plan.outputs_escaped {o : Options} {source : Text} {plan : Plan}
    (hplan : Plan.compile o source = .ok plan) :
    let tags := Outline.tags (source.stripComments o)
    plan.outputs.length = tags.countP Mark.isExpression
      ∧ (∀ before found body after, tags = before ++ .expression found body :: after →
        ∃ e escape, Expr.parse body = .ok e
          ∧ plan.outputs[before.countP Mark.isExpression]? = some (e, escape)
          ∧ Outline.Escapes o before escape)
      ∧ ((∀ found, .statement found (.autoescape "off".toList) ∉ tags) →
        o.language.isMarkup = true → ∀ (context : Context) n texts r e escape text rest,
          Source.Runs n (Renderer.start plan context) texts r →
          plan.get? r.position = some (.output e escape) →
          Source.pull r = .fragment text rest → text.Inert) := by
  intro tags
  obtain ⟨a, ha, hfinish⟩ := Plan.read_eq_ok hplan
  obtain ⟨-, rfl⟩ := Assembly.finish_eq_ok hfinish
  have hrecords : a.Records o tags := by
    have hread := Assembly.records_of_read ha
    rwa [Outline.filter_isTag_marks] at hread
  refine ⟨hrecords.length, hrecords.output, ?_⟩
  intro hnone hmarkup context n texts r e escape text rest hrun hi hp
  obtain ⟨before, after, htags, hescapes⟩ := hrecords.escapes_of_mem (Plan.mem_outputs hi)
  have hon : ¬Outline.EscapingOff before := by
    rintro ⟨outer, found, inside, hinner⟩
    refine hnone found ?_
    rw [htags, hinner.eq]
    simp
  rw [← show r.plan = ⟨a.code⟩ from Renderer.plan_of_runs hrun] at hi
  obtain ⟨value, -, rfl⟩ := Renderer.text_of_output hi hp
  rw [hescapes.eq_language hon]
  exact Language.inert_escape hmarkup value.text

/-- The output of an expression tag in a section that is on. -/
theorem Plan.outputs_escaped_section :
    let source := "{% autoescape on %}{{ x }}{% endautoescape %}".toList
    let context : Context := [("x".toList, .str "<&>".toList)]
    ∃ plan text rest, Plan.compile {} source = .ok plan
      ∧ Source.pull (Renderer.start plan context) = .fragment text rest
      ∧ text = "&lt;&amp;&gt;".toList ∧ text.Inert := by
  intro source context
  have hrun : ((Plan.compile {} source).toOption.bind fun plan =>
      ((plan.get? 0).bind Instruction.output?).bind fun _ =>
        (Source.next? 1 (Renderer.start plan context)).bind fun (item, _) =>
          item.bind (·.toOption)) = some "&lt;&amp;&gt;".toList := by
    decide +kernel
  have hon : (Outline.tags (Text.stripComments {} source)).all Mark.mode = true := by decide +kernel
  obtain ⟨plan, hplan, hrun⟩ := Option.bind_eq_some_iff.mp hrun
  obtain ⟨⟨e, escape⟩, houtput, hrun⟩ := Option.bind_eq_some_iff.mp hrun
  obtain ⟨⟨item, behind⟩, hnext, hitem⟩ := Option.bind_eq_some_iff.mp hrun
  obtain ⟨i, hi, houtput⟩ := Option.bind_eq_some_iff.mp houtput
  obtain rfl := Instruction.output?_eq_some.mp houtput
  have hcompile := eq_ok_of_toOption hplan
  rw [Source.next?] at hnext
  split at hnext
  · next text rest hp =>
    cases hnext
    cases hitem
    refine ⟨plan, _, rest, hcompile, hp, rfl, ?_⟩
    refine (Plan.outputs_escaped hcompile).2.2 ?_ rfl context 0 [] _ e escape _ rest (.refl _) hi hp
    intro found hmem
    cases List.all_eq_true.mp hon _ hmem
  all_goals cases hnext
  all_goals cases hitem

end TemplateEngine

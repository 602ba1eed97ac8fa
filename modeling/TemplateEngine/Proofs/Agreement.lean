import TemplateEngine.Plan.Names
import TemplateEngine.Proofs.Answers
import TemplateEngine.Proofs.Names
import TemplateEngine.Proofs.Steps
import TemplateEngine.Template

/-!
# Rendering depends on the names that are read

Two renderings of a template give the same fragments and the same error if their contexts agree on
the names that the template reads (`Template.answers_of_agree`). For one expression this is an
induction over the tree (`Expr.eval_congr`). A rendering is a step at a time: memories that
differ in their contexts only, where these agree, are kept in step by every instruction
(`Memory.Agree`, `Renderer.Agree.pull`), and sources that are kept in step answer the same
(`Source.answers?_congr`).
-/

namespace TemplateEngine

/-! ## Expressions -/

namespace Expr

variable {lookup lookup' : Text → Option Value}

mutual

/-- **The value of an expression depends on the names that it reads.** -/
theorem eval_congr : (e : Expr) → (∀ n ∈ e.names, lookup n = lookup' n) →
    e.eval lookup = e.eval lookup'
  | literal _, _ => by rw [eval, eval]
  | name n, h => by rw [eval, eval, h n (by rw [names]; exact List.mem_singleton_self n)]
  | list items, h => by rw [eval, eval, evalItems_congr items (by rwa [names] at h)]
  | call f items, h => by rw [eval, eval, evalItems_congr items (by rwa [names] at h)]
  | dict entries, h => by rw [eval, eval, evalEntries_congr entries [] (by rwa [names] at h)]
  | dot operand _, h => by rw [eval, eval, eval_congr operand (by rwa [names] at h)]
  | signed _ operand, h => by rw [eval, eval, eval_congr operand (by rwa [names] at h)]
  | not operand, h => by rw [eval, eval, eval_congr operand (by rwa [names] at h)]
  | method target _ args, h => by
    rw [names, List.forall_mem_append] at h
    rw [eval, eval, eval_congr target h.1, evalItems_congr args h.2]
  | subscript left right, h => by
    rw [names, List.forall_mem_append] at h
    rw [eval, eval, eval_congr left h.1, eval_congr right h.2]
  | binary _ left right, h => by
    rw [names, List.forall_mem_append] at h
    rw [eval, eval, eval_congr left h.1, eval_congr right h.2]
  | and left right, h => by
    rw [names, List.forall_mem_append] at h
    rw [eval, eval, eval_congr left h.1, eval_congr right h.2]
  | or left right, h => by
    rw [names, List.forall_mem_append] at h
    rw [eval, eval, eval_congr left h.1, eval_congr right h.2]
  | compare first links, h => by
    rw [names, List.forall_mem_append] at h
    rw [eval, eval, eval_congr first h.1]
    simp only [evalLinks_congr links h.2]
  | choice condition yes no, h => by
    rw [names, List.forall_mem_append, List.forall_mem_append] at h
    rw [eval, eval, eval_congr condition h.1, eval_congr yes h.2.1, eval_congr no h.2.2]

theorem evalItems_congr : (items : List Expr) → (∀ n ∈ namesItems items, lookup n = lookup' n) →
    evalItems lookup items = evalItems lookup' items
  | [], _ => by rw [evalItems, evalItems]
  | e :: items, h => by
    rw [namesItems, List.forall_mem_append] at h
    rw [evalItems, evalItems, eval_congr e h.1, evalItems_congr items h.2]

theorem evalEntries_congr : (entries : List (Expr × Expr)) → (done : Entries Value) →
    (∀ n ∈ namesEntries entries, lookup n = lookup' n) →
    evalEntries lookup entries done = evalEntries lookup' entries done
  | [], _, _ => by rw [evalEntries, evalEntries]
  | (key, e) :: entries, done, h => by
    rw [namesEntries, List.forall_mem_append, List.forall_mem_append] at h
    rw [evalEntries, evalEntries, eval_congr key h.1, eval_congr e h.2.1]
    simp only [evalEntries_congr entries _ h.2.2]

theorem evalLinks_congr : (links : List (Comparison × Expr)) →
    (∀ n ∈ namesLinks links, lookup n = lookup' n) → (v : Value) →
    evalLinks lookup v links = evalLinks lookup' v links
  | [], _, _ => by rw [evalLinks, evalLinks]
  | (c, e) :: links, h, v => by
    rw [namesLinks, List.forall_mem_append] at h
    rw [evalLinks, evalLinks, eval_congr e h.1]
    simp only [evalLinks_congr links h.2]

end

end Expr

theorem Statement.effect_congr {lookup lookup' : Text → Option Value} {statement : Statement}
    (h : ∀ n ∈ statement.names, lookup n = lookup' n) :
    statement.effect lookup = statement.effect lookup' := by
  cases statement with
  | evaluate e => rw [effect, effect, Expr.eval_congr e h]
  | assign target op e =>
    cases op with
    | none => rw [effect, effect, Expr.eval_congr e h]
    | some op =>
      obtain ⟨htarget, he⟩ := List.forall_mem_cons.mp h
      rw [effect, effect, Expr.eval_congr e he, htarget]

/-! ## Memories -/

/-- Two memories hold the same but for their contexts, and these agree on some names. -/
structure Memory.Agree (names : List Text) (m m' : Memory) : Prop where
  loops : m'.loops = m.loops
  locals : m'.locals = m.locals
  context : ∀ name ∈ names, m.context.get? name = m'.context.get? name

namespace Memory.Agree

variable {names : List Text} {m m' : Memory}

/-- The whole context is not looked at under its own name, so a name on which the contexts agree
is bound to the same. -/
theorem lookup_eq (h : Agree names m m') (hcontext : contextName ∉ names) {name : Text}
    (hname : name ∈ names) : m.lookup name = m'.lookup name := by
  have hne : name ≠ contextName := fun heq => hcontext (heq ▸ hname)
  simp only [lookup, h.loops, h.locals, h.context name hname, if_neg hne]

theorem assign (h : Agree names m m') (name : Text) (value : Value) :
    Agree names (m.assign name value) (m'.assign name value) := by
  unfold Memory.assign
  rw [h.loops]
  cases assignLoop? name value m.loops with
  | none =>
    dsimp only
    exact ⟨rfl, congrArg (Entries.put name value) h.locals, h.context⟩
  | some loops =>
    dsimp only
    exact ⟨rfl, h.locals, h.context⟩

theorem bound (h : Agree names m m') (binding : Option (Text × Value)) :
    Agree names (Statement.bound m binding) (Statement.bound m' binding) := by
  cases binding with
  | none => exact h
  | some binding => exact h.assign binding.1 binding.2

/-- Statements that read names on which memories agree fail with the same error, or leave memories
that agree. -/
theorem runAll (h : Agree names m m') (hcontext : contextName ∉ names)
    {statements : List Statement} (hnames : ∀ n ∈ statements.flatMap Statement.names, n ∈ names) :
    (∃ e, Statement.runAll m statements = .error e ∧ Statement.runAll m' statements = .error e)
      ∨ ∃ next next', Statement.runAll m statements = .ok next
        ∧ Statement.runAll m' statements = .ok next' ∧ Agree names next next' := by
  induction statements generalizing m m' with
  | nil => exact .inr ⟨m, m', rfl, rfl, h⟩
  | cons statement statements ih =>
    rw [List.flatMap_cons, List.forall_mem_append] at hnames
    have heffect : statement.effect (Scope.lookup m) = statement.effect (Scope.lookup m') :=
      Statement.effect_congr fun n hn => h.lookup_eq hcontext (hnames.1 n hn)
    simp only [Statement.runAll, List.foldlM_cons, Statement.run_eq, heffect]
    cases statement.effect (Scope.lookup m') with
    | error e => exact .inl ⟨e, rfl, rfl⟩
    | ok binding => exact ih (h.bound binding) hnames.2

end Memory.Agree

/-! ## Sources in step -/

/-- One step of each of two sources gives the same, and what is left of them is related. -/
inductive Pull.Agree {σ τ : Type} (related : σ → τ → Prop) : Pull σ → Pull τ → Prop
  | fragment (text : Text) {s : σ} {t : τ} (h : related s t) :
    Agree related (.fragment text s) (.fragment text t)
  | failed (e : RenderError) : Agree related (.failed e) (.failed e)
  | finished : Agree related .finished .finished
  | busy {s : σ} {t : τ} (h : related s t) : Agree related (.busy s) (.busy t)

namespace Source

variable {σ τ : Type} [Source σ] [Source τ] {related : σ → τ → Prop} {s : σ} {t : τ}

theorem next?_agree (hstep : ∀ {s t}, related s t → Pull.Agree related (pull s) (pull t))
    (h : related s t) (steps : Nat) : next? steps s = none ∧ next? steps t = none
      ∨ ∃ item rest rest', next? steps s = some (item, rest) ∧ next? steps t = some (item, rest')
        ∧ Option.Rel related rest rest' := by
  induction steps generalizing s t with
  | zero => exact .inl ⟨rfl, rfl⟩
  | succ steps ih =>
    rw [next?, next?]
    have hpull := hstep h
    revert hpull
    generalize pull s = p, pull t = q
    rintro (⟨text, hrest⟩ | ⟨e⟩ | _ | hrest)
    · exact .inr ⟨_, _, _, rfl, rfl, .some hrest⟩
    · exact .inr ⟨_, _, _, rfl, rfl, .none⟩
    · exact .inr ⟨_, _, _, rfl, rfl, .none⟩
    · exact ih hrest

/-- **Sources in step answer the same**: if related sources give the same in every step and stay
related, nobody who asks for items can tell them apart. -/
theorem answers?_congr (hstep : ∀ {s t}, related s t → Pull.Agree related (pull s) (pull t))
    (h : related s t) (steps count : Nat) :
    answers? steps count (some s) = answers? steps count (some t) := by
  induction count generalizing s t with
  | zero => rfl
  | succ count ih =>
    rw [answers?, answers?]
    rcases next?_agree hstep h steps with ⟨hs, ht⟩ | ⟨item, rest, rest', hs, ht, hrest⟩
    · rw [hs, ht]
      rfl
    · have hbehind : answers? steps count rest = answers? steps count rest' := by
        cases hrest with
        | none => cases count <;> rfl
        | some hrest => exact ih hrest
      rw [hs, ht]
      simp only [Option.bind_eq_bind, Option.bind_some, hbehind]

end Source

/-! ## Renderers -/

namespace Renderer

/-- Two renderers stand at the same place of a plan, and their memories agree on the names that the
plan reads. -/
structure Agree (plan : Plan) (r r' : Renderer) : Prop where
  runs : r.plan = plan
  runs' : r'.plan = plan
  position : r'.position = r.position
  memory : r.memory.Agree plan.names r'.memory

variable {plan : Plan} {r r' : Renderer}

namespace Agree

theorem goto (h : Agree plan r r') (position : Nat) :
    Agree plan (r.goto position) (r'.goto position) :=
  ⟨h.runs, h.runs', rfl, h.memory⟩

theorem goOn (h : Agree plan r r') :
    Agree plan (r.goto (r.position + 1)) (r'.goto (r'.position + 1)) := by
  rw [h.position]
  exact h.goto (r.position + 1)

/-- Renderers with other loops, which are the same for both. -/
theorem withLoops (h : Agree plan r r') (loops : List LoopFrame) :
    Agree plan { r with memory := { r.memory with loops := loops } }
      { r' with memory := { r'.memory with loops := loops } } :=
  ⟨h.runs, h.runs', h.position, rfl, h.memory.locals, h.memory.context⟩

theorem eval_eq (h : Agree plan r r') (hcontext : Memory.contextName ∉ plan.names) {e : Expr}
    (he : ∀ n ∈ e.names, n ∈ plan.names) : r.eval e = r'.eval e :=
  Expr.eval_congr e fun n hn => h.memory.lookup_eq hcontext (he n hn)

theorem test (h : Agree plan r r') (hcontext : Memory.contextName ∉ plan.names)
    {condition : Expr} (he : ∀ n ∈ condition.names, n ∈ plan.names) (other : Nat) :
    Pull.Agree (Agree plan) (silently (r.test condition other))
      (silently (r'.test condition other)) := by
  rw [Renderer.test, Renderer.test, h.eval_eq hcontext he]
  cases r'.eval condition with
  | error e => exact .failed e
  | ok v =>
    refine .busy ?_
    rw [h.position]
    exact h.goto _

theorem write_eq (h : Agree plan r r') (hcontext : Memory.contextName ∉ plan.names) {e : Expr}
    (he : ∀ n ∈ e.names, n ∈ plan.names) (escape : Option Language) :
    r.write e escape = r'.write e escape := by
  rw [write, write, h.eval_eq hcontext he]

theorem enterLoop (h : Agree plan r r') (hcontext : Memory.contextName ∉ plan.names)
    {header : LoopHeader} (he : ∀ n ∈ header.items.names, n ∈ plan.names) (other : Nat) :
    Pull.Agree (Agree plan) (silently (r.enterLoop header other))
      (silently (r'.enterLoop header other)) := by
  rw [Renderer.enterLoop, Renderer.enterLoop, h.eval_eq hcontext he, h.memory.loops]
  simp only [bind, Except.bind]
  cases r'.eval header.items with
  | error e => exact .failed e
  | ok v =>
    dsimp only
    cases v.iterate with
    | error e => exact .failed e
    | ok items =>
      dsimp only
      cases LoopFrame.advance ⟨header.targets, items, []⟩ with
      | error e => exact .failed e
      | ok frame =>
        cases frame with
        | none => exact .busy (h.goto other)
        | some frame => exact .busy (h.goOn.withLoops (frame :: r.memory.loops))

theorem nextItem (h : Agree plan r r') (body exit : Nat) :
    Pull.Agree (Agree plan) (silently (r.nextItem body exit))
      (silently (r'.nextItem body exit)) := by
  rw [Renderer.nextItem, Renderer.nextItem, h.memory.loops]
  cases r.memory.loops with
  | nil => exact .busy (h.goto exit)
  | cons f loops =>
    simp only [bind, Except.bind]
    cases f.advance with
    | error e => exact .failed e
    | ok frame =>
      cases frame with
      | none => exact .busy ((h.goto exit).withLoops loops)
      | some frame => exact .busy ((h.goto body).withLoops (frame :: loops))

theorem exec (h : Agree plan r r') (hcontext : Memory.contextName ∉ plan.names)
    {statements : List Statement}
    (hnames : ∀ n ∈ statements.flatMap Statement.names, n ∈ plan.names) :
    Pull.Agree (Agree plan) (silently (r.exec statements)) (silently (r'.exec statements)) := by
  rw [Renderer.exec, Renderer.exec]
  rcases h.memory.runAll hcontext hnames with ⟨e, hm, hm'⟩ | ⟨m, m', hm, hm', hagree⟩
  · rw [hm, hm']
    exact .failed e
  · rw [hm, hm']
    exact .busy ⟨h.runs, h.runs', congrArg (· + 1) h.position, hagree⟩

/-- **Renderers that agree go on in step.** -/
theorem pull (h : Agree plan r r') (hcontext : Memory.contextName ∉ plan.names) :
    Pull.Agree (Agree plan) (Source.pull r) (Source.pull r') := by
  change Pull.Agree _ r.step r'.step
  rw [step, step, h.runs, h.runs', h.position]
  cases hi : plan.get? r.position with
  | none => exact .finished
  | some i =>
    have hnames : ∀ n ∈ i.names, n ∈ plan.names := fun n hn => Plan.mem_names hi hn
    cases i with
    | literal text => exact .fragment text (h.goto _)
    | output e escape =>
      simp only [h.write_eq hcontext hnames]
      cases r'.write e escape with
      | error e => exact .failed e
      | ok text => exact .fragment text (h.goto _)
    | branch condition other => exact h.test hcontext hnames other
    | jump target => exact .busy (h.goto target)
    | each header other => exact h.enterLoop hcontext hnames other
    | next body exit => exact h.nextItem body exit
    | repetition condition exit => exact h.test hcontext hnames exit
    | exec statements => exact h.exec hcontext hnames

end Agree

end Renderer

/-- **Rendering depends on the names that are read**: if a template does not read `context` itself,
and two contexts bind each name that it reads to the same value or both not at all, then its
renderings answer any number of requests with the same fragments and the same error. -/
theorem Template.answers_of_agree {t : Template}
    (hcontext : Memory.contextName ∉ t.plan.names) {c c' : Context}
    (hagree : ∀ name ∈ t.plan.names, c.get? name = c'.get? name) (steps count : Nat) :
    Source.answers? steps count (some (t.fragments c))
      = Source.answers? steps count (some (t.fragments c')) := by
  have hstart : Renderer.Agree t.plan (t.fragments c) (t.fragments c') :=
    ⟨rfl, rfl, rfl, rfl, rfl, hagree⟩
  exact Source.answers?_congr (fun h => h.pull hcontext) hstart steps count

/-- A loop that counts its items: one of the contexts also binds a name that only a plain assignment
writes, and one that does not occur. -/
theorem Template.answers_of_agree_counting :
    let source := ("{% for x in xs %}{% exec n += 1; last = x %}{{ x.f(n) }}{% empty %}{{ n }}"
      ++ "{% endfor %}").toList
    let c : Context := [("last".toList, .null), ("n".toList, .int 0), ("z".toList, .int 1)]
    let c' : Context := [("n".toList, .int 0)]
    ∃ plan, Plan.compile {} source = .ok plan
      ∧ plan.names = ["xs".toList, "n".toList, "x".toList, "x".toList, "n".toList, "n".toList]
      ∧ Memory.contextName ∉ plan.names ∧ (∀ name ∈ plan.names, c.get? name = c'.get? name)
      ∧ ∀ steps count, Source.answers? steps count (some (Template.fragments ⟨plan, {}⟩ c))
        = Source.answers? steps count (some (Template.fragments ⟨plan, {}⟩ c')) := by
  intro source c c'
  have hcompiles : (Plan.compile {} source).toOption.map Plan.names
      = some ["xs".toList, "n".toList, "x".toList, "x".toList, "n".toList, "n".toList] := by
    decide +kernel
  obtain ⟨plan, hplan, hnames⟩ := Option.map_eq_some_iff.mp hcompiles
  have hcontext : Memory.contextName ∉ plan.names := by
    rw [hnames]
    decide
  have hagree : ∀ name ∈ plan.names, c.get? name = c'.get? name := by
    rw [hnames]
    simp only [List.forall_mem_cons]
    exact ⟨rfl, rfl, rfl, rfl, rfl, rfl, List.forall_mem_nil _⟩
  refine ⟨plan, eq_ok_of_toOption hplan, hnames, hcontext, hagree, ?_⟩
  exact Template.answers_of_agree (t := ⟨plan, {}⟩) hcontext hagree

end TemplateEngine

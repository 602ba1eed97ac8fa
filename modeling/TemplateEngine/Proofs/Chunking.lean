import TemplateEngine.Proofs.Answers
import TemplateEngine.Template

/-!
# What chunks hold

The chunks of a source hold its output cut from the left into pieces of a fixed number of
characters, wherever its fragments begin and end. A full buffer is delivered piece by piece
(`Chunks.runs_of_cut`), and between two fragments the buffer holds what is left of the output so
far, which is less than a chunk (`Chunks.ends_of_ends`). What is left in the end is a last chunk
of its own, unless an error ends the stream.
-/

namespace TemplateEngine

/-! ## Pieces of a text -/

/-- A text cut from the left into pieces of a fixed length, with a rest that is too short for
one. -/
structure Text.Cut (size : Nat) (text : Text) (pieces : List Text) (rest : Text) : Prop where
  eq : text = pieces.flatten ++ rest
  full : ∀ piece ∈ pieces, piece.length = size
  rest_lt : rest.length < size

namespace Text.Cut

variable {size : Nat} {text more rest final : Text} {pieces others : List Text}

theorem nil (h : text.length < size) : Cut size text [] text :=
  ⟨rfl, by simp, h⟩

/-- The rest is cut together with what follows. -/
theorem append (h : Cut size text pieces rest) (h' : Cut size (rest ++ more) others final) :
    Cut size (text ++ more) (pieces ++ others) final := by
  refine ⟨?_, ?_, h'.rest_lt⟩
  · rw [h.eq, List.append_assoc, h'.eq, List.flatten_append, List.append_assoc]
  · intro piece hpiece
    rcases List.mem_append.mp hpiece with hpiece | hpiece
    · exact h.full piece hpiece
    · exact h'.full piece hpiece

end Text.Cut

theorem Text.exists_cut {size : Nat} (size_pos : 0 < size) (text : Text) :
    ∃ pieces rest, Text.Cut size text pieces rest := by
  induction hn : text.length using Nat.strongRecOn generalizing text with
  | ind n ih =>
    by_cases hlt : text.length < size
    · exact ⟨[], text, .nil hlt⟩
    · have hle : size ≤ text.length := Nat.not_lt.mp hlt
      have hdrop : (text.drop size).length < n := by
        rw [List.length_drop]
        omega
      obtain ⟨pieces, rest, heq, hfull, hrest⟩ := ih _ hdrop _ rfl
      refine ⟨text.take size :: pieces, rest, ?_, ?_, hrest⟩
      · rw [List.flatten_cons, List.append_assoc, ← heq, List.take_append_drop]
      · intro piece hpiece
        rcases List.mem_cons.mp hpiece with rfl | hpiece
        · exact List.length_take_of_le hle
        · exact hfull piece hpiece

namespace Chunks

variable {σ : Type} [Source σ] {s : σ} {size : Nat} (size_pos : 0 < size) {buffer rest : Text}
  {pieces texts : List Text} {e : Option RenderError}

/-! ## Steps -/

/-- A buffer that holds a chunk delivers it. -/
theorem pull_of_full {piece : Text} (hpiece : piece.length = size) (source : Option σ) :
    Source.pull (⟨size, size_pos, piece ++ rest, source⟩ : Chunks σ)
      = .fragment piece ⟨size, size_pos, rest, source⟩ := by
  change pull _ = _
  simp [pull, ← hpiece]

/-- What comes of a step of the source when the buffer holds less than a chunk. -/
def receive (buffer : Text) : Pull σ → Pull (Chunks σ)
  | .fragment text rest => .busy ⟨size, size_pos, buffer ++ text, some rest⟩
  | .failed e => .failed e
  | .finished => .busy ⟨size, size_pos, buffer, none⟩
  | .busy rest => .busy ⟨size, size_pos, buffer, some rest⟩

/-- A buffer that holds less than a chunk takes what the source gives. -/
theorem pull_of_lt (hbuffer : buffer.length < size) {next : Pull σ} (hp : Source.pull s = next) :
    Source.pull (⟨size, size_pos, buffer, some s⟩ : Chunks σ) = receive size_pos buffer next := by
  change pull _ = _
  simp only [pull, Nat.not_le.mpr hbuffer, if_false, hp]
  cases next <;> rfl

/-- Behind the source what is left is delivered. -/
theorem pull_of_none (hbuffer : buffer.length < size) :
    Source.pull (⟨size, size_pos, buffer, none⟩ : Chunks σ)
      = if buffer.isEmpty then .finished else .fragment buffer ⟨size, size_pos, [], none⟩ := by
  change pull _ = _
  simp only [pull, Nat.not_le.mpr hbuffer, if_false]

/-- A step of chunks with a source delivers a chunk or takes what the source gives. -/
theorem pull_of_some {c : Chunks σ} (hsource : c.source = some s) :
    (∃ piece buffer, Source.pull c = .fragment piece { c with buffer := buffer })
      ∨ Source.pull c = receive c.size_pos c.buffer (Source.pull s) := by
  obtain ⟨size, size_pos, buffer, source⟩ := c
  obtain rfl : source = some s := hsource
  by_cases hbuffer : buffer.length < size
  · exact .inr (pull_of_lt size_pos hbuffer rfl)
  · refine .inl ⟨buffer.take size, buffer.drop size, ?_⟩
    change pull _ = _
    rw [pull, if_pos (Nat.not_lt.mp hbuffer)]

/-! ## Runs -/

/-- A buffer is delivered piece by piece. -/
theorem runs_of_cut {text : Text} (h : Text.Cut size text pieces rest) (source : Option σ) :
    Source.Runs pieces.length (⟨size, size_pos, text, source⟩ : Chunks σ) pieces
      ⟨size, size_pos, rest, source⟩ := by
  obtain ⟨rfl, hfull, -⟩ := h
  induction pieces with
  | nil => exact .refl _
  | cons piece pieces ih =>
    rw [List.flatten_cons, List.append_assoc]
    apply Source.Runs.fragment (pull_of_full size_pos (hfull piece List.mem_cons_self) source)
    apply ih
    intro piece hpiece
    exact hfull piece (List.mem_cons_of_mem _ hpiece)

/-- The last chunk: what is left when the source ends without an error. -/
def remainder (rest : Text) : Option RenderError → List Text
  | some _ => []
  | none => if rest.isEmpty then [] else [rest]

theorem ends_of_none (hrest : rest.length < size) :
    Source.Ends (⟨size, size_pos, rest, none⟩ : Chunks σ) (remainder rest none) none := by
  have hempty : Source.Ends (⟨size, size_pos, [], none⟩ : Chunks σ) [] none :=
    .finished (pull_of_none size_pos size_pos)
  cases rest with
  | nil => exact hempty
  | cons c rest => exact .fragment (pull_of_none size_pos hrest) hempty

/-- Chunks end as their source does, and hold what it gives behind what was left before. -/
theorem ends_of_ends (h : Source.Ends s texts e) (hbuffer : buffer.length < size) :
    ∃ pieces rest, Text.Cut size (buffer ++ texts.flatten) pieces rest
      ∧ Source.Ends (⟨size, size_pos, buffer, some s⟩ : Chunks σ) (pieces ++ remainder rest e)
        e := by
  have hnone : ∀ {buffer : Text}, buffer.length < size →
      Text.Cut size (buffer ++ ([] : List Text).flatten) [] buffer := by
    intro buffer hbuffer
    simpa using Text.Cut.nil hbuffer
  -- by induction on the stream, for any buffer that holds less than a chunk
  induction h generalizing buffer with
  | @fragment s behind text texts e hp _ ih =>
    obtain ⟨pieces, rest, hcut⟩ := Text.exists_cut size_pos (buffer ++ text)
    obtain ⟨others, final, hcut', hends⟩ := ih hcut.rest_lt
    refine ⟨pieces ++ others, final, ?_, .busy (pull_of_lt size_pos hbuffer hp) ?_⟩
    · rw [List.flatten_cons, ← List.append_assoc]
      exact hcut.append hcut'
    · rw [List.append_assoc]
      exact (runs_of_cut size_pos hcut (some behind)).ends hends
  | failed hp =>
    exact ⟨[], buffer, hnone hbuffer, .failed (pull_of_lt size_pos hbuffer hp)⟩
  | finished hp =>
    exact ⟨[], buffer, hnone hbuffer,
      .busy (pull_of_lt size_pos hbuffer hp) (ends_of_none size_pos hbuffer)⟩
  | busy hp _ ih =>
    obtain ⟨pieces, rest, hcut, hends⟩ := ih hbuffer
    exact ⟨pieces, rest, hcut, .busy (pull_of_lt size_pos hbuffer hp) hends⟩

/-- Chunks end only if their source does. -/
theorem exists_ends {c : Chunks σ} (h : Source.Ends c texts e) (hsource : c.source = some s) :
    ∃ texts e, Source.Ends s texts e := by
  induction h generalizing s with
  | fragment hp _ ih =>
    obtain ⟨piece, buffer, hpull⟩ | hpull := pull_of_some hsource
    · cases hp.symm.trans hpull
      exact ih hsource
    · cases hs : Source.pull s <;> rw [hs] at hpull <;> cases hp.symm.trans hpull
  | failed hp =>
    obtain ⟨piece, buffer, hpull⟩ | hpull := pull_of_some hsource
    · cases hp.symm.trans hpull
    · cases hs : Source.pull s <;> rw [hs] at hpull <;> cases hp.symm.trans hpull
      exact ⟨[], _, .failed hs⟩
  | finished hp =>
    obtain ⟨piece, buffer, hpull⟩ | hpull := pull_of_some hsource
    · cases hp.symm.trans hpull
    · cases hs : Source.pull s <;> rw [hs] at hpull <;> cases hp.symm.trans hpull
  | busy hp _ ih =>
    obtain ⟨piece, buffer, hpull⟩ | hpull := pull_of_some hsource
    · cases hp.symm.trans hpull
    · cases hs : Source.pull s <;> rw [hs] at hpull <;> cases hp.symm.trans hpull
      · obtain ⟨texts, e, hends⟩ := ih rfl
        exact ⟨_, e, .fragment hs hends⟩
      · exact ⟨[], none, .finished hs⟩
      · obtain ⟨texts, e, hends⟩ := ih rfl
        exact ⟨texts, e, .busy hs hends⟩

/-- The chunks of a source hold the same as the source. -/
theorem join?_ofSource (s : σ) (size_pos : 0 < size) (result : Except RenderError Text) :
    (∃ steps, Source.join? steps s = some result)
      ↔ ∃ steps, Source.join? steps (ofSource s size size_pos) = some result := by
  have hjoined : ∀ {texts e}, Source.Ends s texts e → ∃ chunks,
      Source.Ends (ofSource s size size_pos) chunks e
        ∧ Source.joined chunks e = Source.joined texts e := by
    intro texts e h
    have hempty : ([] : Text).length < size := size_pos
    obtain ⟨pieces, rest, hcut, hends⟩ := ends_of_ends size_pos h hempty
    refine ⟨_, hends, ?_⟩
    cases e with
    | some e => rfl
    | none =>
      have heq : texts.flatten = pieces.flatten ++ rest := hcut.eq
      cases rest <;> simp [Source.joined, remainder, heq]
  rw [Source.exists_join?_iff, Source.exists_join?_iff]
  constructor
  · rintro ⟨texts, e, hends, rfl⟩
    obtain ⟨chunks, hchunks, heq⟩ := hjoined hends
    exact ⟨chunks, e, hchunks, heq⟩
  · rintro ⟨chunks, e, hchunks, rfl⟩
    obtain ⟨texts, e', hends⟩ := exists_ends hchunks rfl
    obtain ⟨chunks', hchunks', heq⟩ := hjoined hends
    obtain ⟨rfl, rfl⟩ := hchunks.unique hchunks'
    exact ⟨texts, e, hends, heq.symm⟩

/-- **Chunks regroup the output**: of a stream that ends, whoever asks for chunks gets its text
cut from the left into pieces of the given number of characters; then what is left, or, if the
stream ends with an error, that error instead; and then nothing any more. So the chunks of a
template come to the same as rendering it, whether that succeeds or fails. -/
theorem regroups (size : Nat) (size_pos : 0 < size) :
    (∀ (σ : Type) [Source σ] (s : σ) texts e steps,
      Source.collect? steps s = some (texts, e) →
      ∃ pieces rest, Text.Cut size texts.flatten pieces rest
        ∧ ∀ count, ∃ steps, Source.answers? steps count (some (ofSource s size size_pos))
          = some ((List.range count).map ((Source.items (pieces ++ remainder rest e) e)[·]?)))
      ∧ ∀ (t : Template) (context : Context) (result : Except RenderError Text),
        (∃ steps, t.render? steps context = some result)
          ↔ ∃ steps, Source.join? steps (t.chunks context size size_pos) = some result := by
  refine ⟨?_, ?_⟩
  · intro σ _ s texts e steps hcollect
    have hends := Source.exists_collect?_iff.mp ⟨steps, hcollect⟩
    have hempty : ([] : Text).length < size := size_pos
    obtain ⟨pieces, rest, hcut, hchunks⟩ :=
      ends_of_ends size_pos hends hempty
    exact ⟨pieces, rest, hcut, hchunks.answers?⟩
  · intro t context result
    exact join?_ofSource _ size_pos result

/-- Chunks of two characters, across an empty fragment and characters of several bytes. -/
theorem regroups_accents :
    let fragments : List (Except RenderError Text) :=
      [.ok "hé".toList, .ok [], .ok "é→h".toList]
    (∃ pieces rest, Text.Cut 2 "héé→h".toList pieces rest
      ∧ ∀ count, ∃ steps, Source.answers? steps count (some (ofSource fragments 2 (by decide)))
        = some ((List.range count).map ((Source.items (pieces ++ remainder rest none) none)[·]?)))
      ∧ Source.answers? 9 4 (some (ofSource fragments 2 (by decide)))
        = some [some (.ok "hé".toList), some (.ok "é→".toList), some (.ok "h".toList), none] := by
  intro fragments
  exact ⟨(regroups 2 (by decide)).1 _ fragments _ none 4 rfl, rfl⟩

end Chunks

end TemplateEngine

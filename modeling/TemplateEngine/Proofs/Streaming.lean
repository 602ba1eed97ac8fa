import TemplateEngine.Buffer.Chunking
import TemplateEngine.Proofs.Buffers
import TemplateEngine.Proofs.Chunking
import TemplateEngine.Proofs.Results

/-!
# Chunks are lazy

A chunker asks for a fragment only when what it has left is less than a chunk. So each chunk is
handed out as soon as there is enough text for it (`Fewest`), and what waits is never more than
that and one fragment.

What holds between two turns is `Chunker.Sound`: the text that has come in is what has been handed
out and what is left behind the offset, and without the last fragment there was not enough for
the next chunk. Each kind of turn keeps it (`Sound.give`, `Sound.fragment`, `Sound.finished`), so
it holds in every run.
-/

namespace TemplateEngine

namespace Buffer

/-! ## Turns -/

theorem getElem?_starts (offset : Nat) (text : Text) (n : Nat) :
    (starts offset text ++ [offset + text.byteSize])[n]?
      = if n ≤ text.length then some (offset + Text.byteSize (text.take n)) else none := by
  induction text generalizing offset n with
  | nil => cases n <;> simp [starts, Text.byteSize]
  | cons c text ih =>
    cases n with
    | zero => simp [starts, Text.byteSize]
    | succ n =>
      have hn := ih (offset + c.utf8Size) n
      simpa [starts, Text.byteSize, Nat.add_assoc] using hn

namespace Chunker

variable {c rest next : Chunker} {pending chunk text : Text}

/-- What is left in the buffer behind the text that has been handed out. -/
def Holds (c : Chunker) (pending : Text) : Prop :=
  ∃ passed, c.buffer = passed ++ pending ∧ c.start = passed.byteSize

theorem Holds.behind (h : c.Holds pending) : behind c.buffer c.start = .ok pending := by
  obtain ⟨passed, hbuffer, hstart⟩ := h
  exact behind_append hbuffer hstart

theorem holds_of_start_eq_zero (h : c.start = 0) : c.Holds c.buffer :=
  ⟨[], rfl, h⟩

theorem splitChunk?_eq (h : c.Holds pending) :
    c.splitChunk? = .ok (if c.size ≤ pending.length then
      some (pending.take c.size,
        { c with start := c.start + Text.byteSize (pending.take c.size) })
      else none) := by
  have hstarts := getElem?_starts 0 pending c.size
  rw [Nat.zero_add] at hstarts
  rw [splitChunk?, h.behind, ok_bind, hstarts]
  by_cases hle : c.size ≤ pending.length
  · have hslice : slice pending 0 (Text.byteSize (pending.take c.size))
        = .ok (pending.take c.size) :=
      have hpending : pending = [] ++ pending.take c.size ++ pending.drop c.size :=
        (List.take_append_drop c.size pending).symm
      slice_append hpending rfl (Nat.zero_add _).symm
    simp only [if_pos hle, Nat.zero_add, hslice]
    rfl
  · simp only [if_neg hle]
    rfl

/-- A rest that holds a chunk gives it. -/
theorem turn_of_le (h : c.Holds pending) (hle : c.size ≤ pending.length) :
    ∃ rest, c.turn = .ok (.give (pending.take c.size) rest) ∧ rest.Holds (pending.drop c.size)
      ∧ rest.size = c.size ∧ rest.done = c.done := by
  refine ⟨{ c with start := c.start + Text.byteSize (pending.take c.size) }, ?_, ?_, rfl, rfl⟩
  · rw [turn, splitChunk?_eq h, if_pos hle]
    rfl
  · obtain ⟨passed, hbuffer, hstart⟩ := h
    refine ⟨passed ++ pending.take c.size, ?_, ?_⟩
    · rw [List.append_assoc, List.take_append_drop]
      exact hbuffer
    · rw [Text.byteSize_append, ← hstart]

/-- With less than a chunk left a fragment is asked for, or what is left is the last chunk. -/
theorem turn_of_lt (h : c.Holds pending) (hlt : pending.length < c.size) :
    c.turn = .ok (if c.done then
        if pending.isEmpty then .over else .give pending { c with buffer := [], start := 0 }
      else .ask) := by
  rw [turn, splitChunk?_eq h, if_neg (Nat.not_le.mpr hlt)]
  change (if c.done then c.takeRest else .ok .ask) = _
  rw [takeRest, h.behind]
  split <;> rfl

theorem receive_ok (h : c.Holds pending) (fragment : Text) :
    c.receive (some (.ok fragment)) = .ok { c with buffer := pending ++ fragment, start := 0 } := by
  rw [receive, fill, h.behind]
  rfl

/-- What is handed out is taken off the rest: a chunk, or all of a rest that is less. -/
theorem Holds.give (h : c.Holds pending) (hturn : c.turn = .ok (.give chunk rest)) :
    ∃ after, pending = chunk ++ after ∧ chunk ≠ [] ∧ rest.Holds after ∧ rest.size = c.size
      ∧ (chunk.length = c.size ∨ after = [] ∧ rest.done = true) := by
  rcases Nat.lt_or_ge pending.length c.size with hlt | hle
  · rw [turn_of_lt h hlt] at hturn
    split at hturn
    next hdone =>
      split at hturn
      · cases hturn
      next hempty =>
        cases hturn
        exact ⟨[], (List.append_nil _).symm, mt List.isEmpty_iff.mpr hempty,
          holds_of_start_eq_zero rfl, rfl, .inr ⟨rfl, hdone⟩⟩
    · cases hturn
  · obtain ⟨rest', hturn', hholds, hsize, -⟩ := turn_of_le h hle
    cases hturn.symm.trans hturn'
    have hlength : (pending.take c.size).length = c.size := List.length_take_of_le hle
    refine ⟨_, (List.take_append_drop c.size pending).symm, ?_, hholds, hsize, .inl hlength⟩
    exact List.ne_nil_of_length_pos (hlength.symm ▸ c.size_pos)

/-- A fragment is asked for only when less than a chunk is left. -/
theorem Holds.ask (h : c.Holds pending) (hturn : c.turn = .ok .ask) :
    pending.length < c.size ∧ c.done = false := by
  rcases Nat.lt_or_ge pending.length c.size with hlt | hle
  · rw [turn_of_lt h hlt] at hturn
    split at hturn
    · split at hturn <;> cases hturn
    next hdone => exact ⟨hlt, Bool.eq_false_iff.mpr hdone⟩
  · obtain ⟨rest, hturn', -⟩ := turn_of_le h hle
    cases hturn.symm.trans hturn'

/-! ## Runs -/

/-- What a chunker may have gone through: the fragments it has received and the chunks it has
handed out. Any stream may stand behind it, so the fragments are arbitrary. -/
inductive Runs (size : Nat) (size_pos : 0 < size) : List Text → List Text → Chunker → Prop
  | new : Runs size size_pos [] [] (new size size_pos)
  | give {received delivered : List Text} {c rest : Chunker} {chunk : Text}
    (h : Runs size size_pos received delivered c) (hturn : c.turn = .ok (.give chunk rest)) :
    Runs size size_pos received (delivered ++ [chunk]) rest
  | fragment {received delivered : List Text} {c next : Chunker} {text : Text}
    (h : Runs size size_pos received delivered c) (hturn : c.turn = .ok .ask)
    (hnext : c.receive (some (.ok text)) = .ok next) :
    Runs size size_pos (received ++ [text]) delivered next
  | finished {received delivered : List Text} {c next : Chunker}
    (h : Runs size size_pos received delivered c) (hturn : c.turn = .ok .ask)
    (hnext : c.receive none = .ok next) : Runs size size_pos received delivered next

/-- What holds between two turns. -/
structure Sound (size : Nat) (received delivered : List Text) (c : Chunker) (pending : Text) :
    Prop where
  size_eq : c.size = size
  holds : c.Holds pending
  flatten_eq : received.flatten = delivered.flatten ++ pending
  full : (∀ chunk ∈ delivered, chunk.length = size) ∨ pending = [] ∧ c.done = true
  earlier : received.dropLast.flatten.length < (delivered.length + 1) * size

/-- The fragments are no more than it takes to have so many characters. -/
def Fewest (received : List Text) (count : Nat) : Prop :=
  count ≤ received.flatten.length
    ∧ ∀ fewer < received.length, (received.take fewer).flatten.length < count

namespace Sound

variable {size : Nat} {received delivered : List Text}

theorem new (size : Nat) (size_pos : 0 < size) :
    Sound size [] [] (Chunker.new size size_pos) [] where
  size_eq := rfl
  holds := holds_of_start_eq_zero rfl
  flatten_eq := rfl
  full := .inl (by simp)
  earlier := by simpa using size_pos

theorem length_eq (h : Sound size received delivered c pending) :
    received.flatten.length = delivered.flatten.length + pending.length := by
  rw [h.flatten_eq, List.length_append]

theorem length_flatten (h : ∀ chunk ∈ delivered, chunk.length = size) :
    delivered.flatten.length = delivered.length * size := by
  induction delivered with
  | nil => simp
  | cons chunk delivered ih =>
    obtain ⟨hchunk, hdelivered⟩ := List.forall_mem_cons.mp h
    rw [List.flatten_cons, List.length_append, hchunk, ih hdelivered, List.length_cons,
      Nat.succ_mul, Nat.add_comm]

/-- Only the last chunk may be shorter, and nothing is left behind it. -/
theorem full_of_ne_nil (h : Sound size received delivered c pending) (hne : pending ≠ []) :
    ∀ chunk ∈ delivered, chunk.length = size := by
  rcases h.full with hfull | ⟨hnil, -⟩
  · exact hfull
  · exact absurd hnil hne

theorem full_of_ask (h : Sound size received delivered c pending) (hturn : c.turn = .ok .ask) :
    ∀ chunk ∈ delivered, chunk.length = size := by
  rcases h.full with hfull | ⟨-, hdone⟩
  · exact hfull
  · exact absurd hdone (Bool.eq_false_iff.mp (h.holds.ask hturn).2)

/-- A chunk that is handed out leaves the rest. -/
theorem give (h : Sound size received delivered c pending)
    (hturn : c.turn = .ok (.give chunk rest)) :
    ∃ after, pending = chunk ++ after ∧ Sound size received (delivered ++ [chunk]) rest after := by
  obtain ⟨after, rfl, hchunk, hholds, hsize, hlength⟩ := h.holds.give hturn
  refine ⟨after, rfl, hsize.trans h.size_eq, hholds, ?_, ?_, ?_⟩
  · rw [h.flatten_eq, List.flatten_append, List.flatten_singleton, List.append_assoc]
  · refine hlength.imp_left fun hlength => ?_
    have hdelivered := h.full_of_ne_nil (List.append_ne_nil_of_left_ne_nil hchunk after)
    intro piece hpiece
    rcases List.mem_append.mp hpiece with hpiece | hpiece
    · exact hdelivered piece hpiece
    · rw [List.mem_singleton.mp hpiece, hlength, h.size_eq]
  · rw [List.length_append]
    exact Nat.lt_of_lt_of_le h.earlier (Nat.mul_le_mul_right size (Nat.le_add_right _ _))

/-- Whoever asks has less than a chunk, so not enough for one more. -/
theorem length_of_ask (h : Sound size received delivered c pending) (hturn : c.turn = .ok .ask) :
    pending.length < size ∧ received.flatten.length < (delivered.length + 1) * size := by
  have hlt : pending.length < size := h.size_eq ▸ (h.holds.ask hturn).1
  refine ⟨hlt, ?_⟩
  rw [h.length_eq, length_flatten (h.full_of_ask hturn), Nat.succ_mul]
  exact Nat.add_lt_add_left hlt _

/-- A fragment comes behind the rest. It was asked for because there was not enough. -/
theorem fragment (h : Sound size received delivered c pending) (hturn : c.turn = .ok .ask)
    (hnext : c.receive (some (.ok text)) = .ok next) :
    Sound size (received ++ [text]) delivered next (pending ++ text) := by
  cases hnext.symm.trans (receive_ok h.holds text)
  refine ⟨h.size_eq, holds_of_start_eq_zero rfl, ?_, .inl (h.full_of_ask hturn), ?_⟩
  · rw [List.flatten_append, List.flatten_singleton, h.flatten_eq, List.append_assoc]
  · rw [List.dropLast_concat]
    exact (h.length_of_ask hturn).2

/-- At the end of the stream everything stays where it is. -/
theorem finished (h : Sound size received delivered c pending) (hturn : c.turn = .ok .ask)
    (hnext : c.receive none = .ok next) : Sound size received delivered next pending := by
  cases hnext
  exact ⟨h.size_eq, h.holds, h.flatten_eq, .inl (h.full_of_ask hturn), h.earlier⟩

/-- What waits is less than a chunk and the last fragment. -/
theorem length_lt (h : Sound size received delivered c pending) (size_pos : 0 < size) :
    pending.length < size + (received.getLastD []).length := by
  rcases h.full with hfull | ⟨rfl, -⟩
  · have hlast : received.flatten.length
        = received.dropLast.flatten.length + (received.getLastD []).length := by
      rcases List.eq_nil_or_concat received with rfl | ⟨before, last, rfl⟩
      · rfl
      · simp
    have hlength := h.length_eq
    have hearlier := h.earlier
    rw [length_flatten hfull] at hlength
    rw [Nat.succ_mul] at hearlier
    omega
  · exact Nat.lt_of_lt_of_le size_pos (Nat.le_add_right _ _)

/-- A full chunk is handed out when there is enough text for the first time. -/
theorem fewest (h : Sound size received delivered c pending)
    (hturn : c.turn = .ok (.give chunk rest)) (hchunk : chunk.length = size) :
    (∀ earlier ∈ delivered, earlier.length = size)
      ∧ Fewest received ((delivered.length + 1) * size) := by
  obtain ⟨after, rfl, hne, -⟩ := h.holds.give hturn
  have hfull := h.full_of_ne_nil (List.append_ne_nil_of_left_ne_nil hne after)
  refine ⟨hfull, ?_, fun fewer hfewer => ?_⟩
  · rw [h.length_eq, length_flatten hfull, List.length_append, hchunk, Nat.succ_mul]
    omega
  · have hle : fewer ≤ received.length - 1 := Nat.le_sub_one_of_lt hfewer
    obtain ⟨more, hmore⟩ := List.take_prefix_take_left hle (l := received)
    have hearlier := h.earlier
    rw [List.dropLast_eq_take, ← hmore, List.flatten_append, List.length_append] at hearlier
    omega

end Sound

/-- Every run is sound. -/
theorem Runs.sound {size : Nat} {size_pos : 0 < size} {received delivered : List Text}
    (h : Runs size size_pos received delivered c) :
    ∃ pending, Sound size received delivered c pending := by
  induction h with
  | new => exact ⟨[], .new size size_pos⟩
  | give _ hturn ih =>
    obtain ⟨pending, hsound⟩ := ih
    obtain ⟨after, -, hafter⟩ := hsound.give hturn
    exact ⟨after, hafter⟩
  | fragment _ hturn hnext ih =>
    obtain ⟨pending, hsound⟩ := ih
    exact ⟨_, hsound.fragment hturn hnext⟩
  | finished _ hturn hnext ih =>
    obtain ⟨pending, hsound⟩ := ih
    exact ⟨pending, hsound.finished hturn hnext⟩

/-- Behind an error there is nothing. -/
theorem turn_of_failed (e : RenderError) (hnext : c.receive (some (.error e)) = .ok next) :
    next.turn = .ok .over := by
  cases hnext
  exact turn_of_lt (holds_of_start_eq_zero rfl) c.size_pos

/-- Offsets that fit let every turn succeed. -/
theorem Holds.exists_turn (h : c.Holds pending) : ∃ turn, c.turn = .ok turn := by
  rcases Nat.lt_or_ge pending.length c.size with hlt | hle
  · exact ⟨_, turn_of_lt h hlt⟩
  · obtain ⟨rest, hturn, -⟩ := turn_of_le h hle
    exact ⟨_, hturn⟩

/-- Whatever the stream gives is taken. -/
theorem Holds.exists_receive (h : c.Holds pending) (item : Option (Except RenderError Text)) :
    ∃ next, c.receive item = .ok next := by
  rcases item with _ | e | text
  · exact ⟨_, rfl⟩
  · exact ⟨_, rfl⟩
  · exact ⟨_, receive_ok h text⟩

/-! ## The chunks of a source -/

variable {σ : Type} [Source σ] {chunks behind : Chunks σ}

/-- The chunker stands as the chunks of a source do. -/
structure Shows (c : Chunker) (chunks : Chunks σ) : Prop where
  size_eq : c.size = chunks.size
  holds : c.Holds chunks.buffer
  done_eq : c.done = chunks.source.isNone

/-- Chunks and a chunker that shows them take the next step together. -/
theorem Shows.step (h : c.Shows chunks) :
    (∃ s, chunks.source = some s ∧ c.turn = .ok .ask
      ∧ Source.pull chunks = Chunks.receive chunks.size_pos chunks.buffer (Source.pull s))
    ∨ (∃ chunk rest behind, c.turn = .ok (.give chunk rest)
      ∧ Source.pull chunks = .fragment chunk behind ∧ rest.Shows behind
      ∧ behind.source = chunks.source)
    ∨ (c.turn = .ok .over ∧ Source.pull chunks = .finished) := by
  obtain ⟨size, size_pos, buffer, source⟩ := chunks
  obtain ⟨hsize, hholds, hdone⟩ := h
  dsimp only at hsize hholds hdone ⊢
  rcases Nat.lt_or_ge buffer.length size with hlt | hle
  · have hturn := turn_of_lt hholds (hsize ▸ hlt)
    cases source with
    | some s =>
      rw [hdone] at hturn
      exact .inl ⟨s, rfl, hturn, Chunks.pull_of_lt size_pos hlt rfl⟩
    | none =>
      have hpull := Chunks.pull_of_none (σ := σ) size_pos hlt
      have hend : c.done = true := hdone
      rw [if_pos hend] at hturn
      cases hempty : buffer.isEmpty with
      | true =>
        rw [if_pos hempty] at hturn hpull
        exact .inr (.inr ⟨hturn, hpull⟩)
      | false =>
        rw [if_neg (Bool.eq_false_iff.mp hempty)] at hturn hpull
        exact .inr (.inl ⟨_, _, _, hturn, hpull, ⟨hsize, holds_of_start_eq_zero rfl, hdone⟩, rfl⟩)
  · obtain ⟨rest, hturn, hrest, hsize', hdone'⟩ := turn_of_le hholds (hsize ▸ hle)
    have hpull : Source.pull (⟨size, size_pos, buffer, source⟩ : Chunks σ)
        = .fragment (buffer.take size) ⟨size, size_pos, buffer.drop size, source⟩ := by
      conv_lhs => rw [← List.take_append_drop size buffer]
      exact Chunks.pull_of_full size_pos (List.length_take_of_le hle) source
    rw [hsize] at hturn hrest
    exact .inr (.inl ⟨_, _, _, hturn, hpull, ⟨hsize'.trans hsize, hrest, hdone'.trans hdone⟩, rfl⟩)

end Chunker

end Buffer

open Buffer

namespace Chunks

variable {σ : Type} [Source σ] {s : σ} {received delivered texts : List Text}
  {chunks last : Chunks σ} {c : Chunker} {size n : Nat}

/-- What a source has yielded when there is this of it left, or nothing. -/
def Yielded (s : σ) (received : List Text) : Option σ → Prop
  | some rest => ∃ n, Source.Runs n s received rest
  | none => Source.Ends s received none

/-- How far a chunker and the chunks of a source have come together. -/
structure Along (size_pos : 0 < size) (s : σ) (received delivered : List Text) (c : Chunker)
    (chunks : Chunks σ) : Prop where
  runs : Chunker.Runs size size_pos received delivered c
  shows : c.Shows chunks
  yielded : Yielded s received chunks.source

variable {size_pos : 0 < size}

/-- What the source gives goes into both. -/
theorem Along.receive {rest : σ} (h : Along size_pos s received delivered c chunks)
    (hsource : chunks.source = some rest) (hturn : c.turn = .ok .ask)
    (hpull : Chunks.receive chunks.size_pos chunks.buffer (Source.pull rest) = .busy last) :
    ∃ received c, Along size_pos s received delivered c last := by
  obtain ⟨m, hyielded⟩ : ∃ m, Source.Runs m s received rest := by
    have hyielded := h.yielded
    rwa [hsource] at hyielded
  obtain ⟨hsize, hholds, hdone⟩ := h.shows
  cases hp : Source.pull rest with
  | fragment text rest' =>
    rw [hp] at hpull
    cases hpull
    have hnext := Chunker.receive_ok hholds text
    refine ⟨received ++ [text], _, h.runs.fragment hturn hnext, ?_, m + 1, ?_⟩
    · exact ⟨hsize, Chunker.holds_of_start_eq_zero rfl, hdone.trans (by rw [hsource]; rfl)⟩
    · exact hyielded.trans (.fragment hp (.refl _))
  | failed e => rw [hp] at hpull; cases hpull
  | finished =>
    rw [hp] at hpull
    cases hpull
    refine ⟨received, _, h.runs.finished hturn rfl, ⟨hsize, hholds, rfl⟩, ?_⟩
    have hends := hyielded.ends (.finished hp)
    rwa [List.append_nil] at hends
  | busy rest' =>
    rw [hp] at hpull
    cases hpull
    refine ⟨received, c, h.runs, ⟨hsize, hholds, hdone.trans (by rw [hsource]; rfl)⟩, m + 1, ?_⟩
    have hruns := hyielded.trans (.busy hp (.refl _))
    rwa [List.append_nil] at hruns

/-- Chunks go on as a chunker can. -/
theorem Along.runs_to (h : Along size_pos s received delivered c chunks)
    (hruns : Source.Runs n chunks texts last) :
    ∃ received c, Along size_pos s received (delivered ++ texts) c last := by
  induction hruns generalizing received delivered c with
  | refl => exact ⟨received, c, by rwa [List.append_nil]⟩
  | @fragment n chunks behind last text texts hp _ ih =>
    obtain ⟨rest, hsource, -, hpull⟩ | ⟨chunk, rest, behind', hturn, hpull, hshows, hsource⟩
      | ⟨-, hpull⟩ := h.shows.step
    · cases hs : Source.pull rest <;> rw [hs] at hpull <;> cases hp.symm.trans hpull
    · cases hp.symm.trans hpull
      have hnext : Along size_pos s received (delivered ++ [text]) rest behind :=
        ⟨h.runs.give hturn, hshows, hsource ▸ h.yielded⟩
      obtain ⟨received, c, halong⟩ := ih hnext
      rw [List.append_assoc] at halong
      exact ⟨received, c, halong⟩
    · cases hp.symm.trans hpull
  | busy hp _ ih =>
    obtain ⟨rest, hsource, hturn, hpull⟩ | ⟨chunk, rest, behind, -, hpull, -⟩ | ⟨-, hpull⟩
      := h.shows.step
    · obtain ⟨received, c, hnext⟩ := h.receive hsource hturn (hpull.symm.trans hp)
      exact ih hnext
    · cases hp.symm.trans hpull
    · cases hp.symm.trans hpull

/-- Every run of the chunks of a source is a run of a chunker. -/
theorem along_of_runs (h : Source.Runs n (ofSource s size size_pos) delivered chunks) :
    ∃ received c, Along size_pos s received delivered c chunks := by
  have hnew : Along size_pos s [] [] (Chunker.new size size_pos) (ofSource s size size_pos) :=
    ⟨.new, ⟨rfl, Chunker.holds_of_start_eq_zero rfl, rfl⟩, 0, .refl s⟩
  exact hnew.runs_to h

/-- **Chunks are lazy.** Between two turns what waits is known, and the offsets always fit. A
fragment is asked for only when less than a chunk waits, a full chunk is handed out as soon as the
fragments are enough for it and those before it, and what waits is never more than one character
less than a chunk and one fragment. Behind an error nothing is asked for. The chunks of a source
are such a chunker, whose fragments are what the source has yielded. -/
theorem lazy (size : Nat) (size_pos : 0 < size) :
    (∀ received delivered c, Chunker.Runs size size_pos received delivered c →
      ∃ pending, behind c.buffer c.start = .ok pending
        ∧ received.flatten = delivered.flatten ++ pending
        ∧ pending.length ≤ size - 1 + (received.getLastD []).length
        ∧ (∃ turn, c.turn = .ok turn)
        ∧ (∀ chunk rest, c.turn = .ok (.give chunk rest) → chunk.length = size →
          (∀ earlier ∈ delivered, earlier.length = size)
            ∧ Chunker.Fewest received ((delivered.length + 1) * size))
        ∧ (∀ chunk rest, c.turn = .ok (.give chunk rest) → chunk.length ≠ size →
          chunk = pending ∧ rest.turn = .ok .over)
        ∧ (c.turn = .ok .ask → pending.length < size
          ∧ (∀ item, ∃ next, c.receive item = .ok next)
          ∧ ∀ e next, c.receive (some (.error e)) = .ok next → next.turn = .ok .over))
      ∧ ∀ (σ : Type) [Source σ] (s : σ) n delivered chunks,
        Source.Runs n (ofSource s size size_pos) delivered chunks →
        ∃ received c, Chunker.Runs size size_pos received delivered c
          ∧ Yielded s received chunks.source
          ∧ behind c.buffer c.start = .ok chunks.buffer
          ∧ ((∃ rest, chunks.source = some rest ∧ c.turn = .ok .ask
              ∧ Source.pull chunks
                = Chunks.receive chunks.size_pos chunks.buffer (Source.pull rest))
            ∨ (∃ chunk rest behind, c.turn = .ok (.give chunk rest)
              ∧ Source.pull chunks = .fragment chunk behind)
            ∨ (c.turn = .ok .over ∧ Source.pull chunks = .finished)) := by
  refine ⟨?_, ?_⟩
  · intro received delivered c hruns
    obtain ⟨pending, hsound⟩ := hruns.sound
    refine ⟨pending, hsound.holds.behind, hsound.flatten_eq, ?_, hsound.holds.exists_turn, ?_, ?_,
      ?_⟩
    · have hlt := hsound.length_lt size_pos
      omega
    · intro chunk rest hturn hchunk
      exact hsound.fewest hturn hchunk
    · intro chunk rest hturn hchunk
      obtain ⟨after, rfl, -, hholds, -, hlength | ⟨rfl, hdone⟩⟩ := hsound.holds.give hturn
      · exact absurd (hlength.trans hsound.size_eq) hchunk
      · refine ⟨(List.append_nil chunk).symm, ?_⟩
        rw [Chunker.turn_of_lt hholds rest.size_pos, if_pos hdone]
        rfl
    · intro hturn
      exact ⟨(hsound.length_of_ask hturn).1, hsound.holds.exists_receive,
        fun e next hnext => Chunker.turn_of_failed e hnext⟩
  · intro σ _ s n delivered chunks hruns
    obtain ⟨received, c, halong⟩ := along_of_runs hruns
    refine ⟨received, c, halong.runs, halong.yielded, halong.shows.holds.behind, ?_⟩
    obtain hask | ⟨chunk, rest, behind, hturn, hpull, -⟩ | hover := halong.shows.step
    · exact .inl hask
    · exact .inr (.inl ⟨chunk, rest, behind, hturn, hpull⟩)
    · exact .inr (.inr hover)

/-- Chunks of three characters: behind `ab` and `éde` one is handed out, and with `de` waiting a
fragment is asked for. -/
theorem lazy_accents :
    let received : List Text := ["ab".toList, "éde".toList]
    let c : Chunker := ⟨3, by decide, "abéde".toList, 4, false⟩
    let chunks : Chunks (List (Except RenderError Text)) := ⟨3, by decide, "de".toList, some []⟩
    (Chunker.Runs 3 (by decide) received ["abé".toList] c ∧ c.turn = .ok .ask
      ∧ ∃ pending, behind c.buffer c.start = .ok pending ∧ pending.length < 3)
    ∧ Source.Runs 3 (ofSource (received.map .ok) 3 (by decide)) ["abé".toList] chunks
    ∧ ∃ yielded c, Chunker.Runs 3 (by decide) yielded ["abé".toList] c
      ∧ Yielded (received.map .ok) yielded chunks.source
      ∧ behind c.buffer c.start = .ok chunks.buffer := by
  intro received c chunks
  have hask : c.turn = .ok .ask := rfl
  have hruns : Chunker.Runs 3 (by decide) received ["abé".toList] c :=
    .give (.fragment (.fragment .new rfl rfl) rfl rfl) rfl
  have hsource : Source.Runs 3 (ofSource (received.map .ok) 3 (by decide)) ["abé".toList] chunks :=
    .busy rfl (.busy rfl (.fragment rfl (.refl _)))
  obtain ⟨pending, hbehind, -, -, -, -, -, hlazy⟩ := (lazy 3 (by decide)).1 _ _ _ hruns
  obtain ⟨yielded, c', hruns', hyielded, hbehind', -⟩ := (lazy 3 (by decide)).2 _ _ _ _ _ hsource
  exact ⟨⟨hruns, hask, pending, hbehind, (hlazy hask).1⟩, hsource, yielded, c', hruns', hyielded,
    hbehind'⟩

end Chunks

end TemplateEngine

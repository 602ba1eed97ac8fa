import TemplateEngine.Character
import TemplateEngine.Tag

/-!
# Reading a tag

`TagKind.read?` reads a tag of a given kind from the front of a text, the shortest if there
are several. What is read is the tag as it is written (`TagKind.eq_of_read?`).
-/

namespace TemplateEngine

namespace Text

/-- Reads up to the first occurrence of `stop`: what stands before it, and what follows it.
Before it there may be no newline. -/
def upTo? : (text stop : Text) → Option (Text × Text)
  | [], stop => if stop = [] then some ([], []) else none
  | c :: text, stop =>
    match after? (c :: text) stop with
    | some rest => some ([], rest)
    | none =>
      if c = '\n' then none
      else (upTo? text stop).map fun (before, rest) => (c :: before, rest)

/-- Reads up to an occurrence of `stop` with at least one character and no newline before
it. -/
def someUpTo? : (text stop : Text) → Option (Text × Text)
  | [], _ => none
  | c :: text, stop =>
    if c = '\n' then none
    else (upTo? text stop).map fun (before, rest) => (c :: before, rest)

theorem eq_of_upTo? {text stop before rest : Text} (h : upTo? text stop = some (before, rest)) :
    text = before ++ stop ++ rest := by
  induction text generalizing before with
  | nil =>
    by_cases hs : stop = []
    · simp only [upTo?, hs, if_true, Option.some.injEq, Prod.mk.injEq] at h
      simp [hs, ← h.1, ← h.2]
    · simp [upTo?, hs] at h
  | cons c text ih =>
    simp only [upTo?] at h
    split at h
    · next r hr =>
      simp only [Option.some.injEq, Prod.mk.injEq] at h
      obtain ⟨rfl, rfl⟩ := h
      simpa using after?_eq_some.1 hr
    · split at h
      · simp at h
      · simp only [Option.map_eq_some_iff, Prod.mk.injEq, Prod.exists] at h
        obtain ⟨b, r, hb, rfl, rfl⟩ := h
        simp [ih hb]

theorem eq_of_someUpTo? {text stop before rest : Text}
    (h : someUpTo? text stop = some (before, rest)) : text = before ++ stop ++ rest := by
  cases text with
  | nil => simp [someUpTo?] at h
  | cons c text =>
    simp only [someUpTo?] at h
    split at h
    · simp at h
    · simp only [Option.map_eq_some_iff, Prod.mk.injEq, Prod.exists] at h
      obtain ⟨b, r, hb, rfl, rfl⟩ := h
      simp [eq_of_upTo? hb]

/-- Splits off the word at the start of a text, which must not be empty. -/
def word? (text : Text) : Option (Text × Text) :=
  if text.takeWhile Character.isWord = [] then none
  else some (text.takeWhile Character.isWord, text.dropWhile Character.isWord)

theorem eq_of_word? {text word rest : Text} (h : word? text = some (word, rest)) :
    text = word ++ rest := by
  unfold word? at h
  split at h
  · simp at h
  · simp only [Option.some.injEq, Prod.mk.injEq] at h
    rw [← h.1, ← h.2, List.takeWhile_append_dropWhile]

end Text

namespace Quoted

/-- Reads a quoted text that is followed by `stop`. The text is read up to its quote by
`upTo`, which decides whether it may be empty. -/
def read? (upTo : Text → Text → Option (Text × Text)) (stop : Text) : Text → Option (Quoted × Text)
  | [] => none
  | q :: text =>
    if q = '\x27' ∨ q = '"' then
      (upTo text (q :: stop)).map fun (quoted, rest) => (⟨q, quoted⟩, rest)
    else none

theorem eq_of_read? {upTo : Text → Text → Option (Text × Text)} {stop text rest : Text}
    {q : Quoted}
    (hu : ∀ {t s b r : Text}, upTo t s = some (b, r) → t = b ++ s ++ r)
    (h : read? upTo stop text = some (q, rest)) : text = q.content ++ stop ++ rest := by
  cases text with
  | nil => simp [read?] at h
  | cons c text =>
    simp only [read?] at h
    split at h
    · simp only [Option.map_eq_some_iff, Prod.mk.injEq, Prod.exists] at h
      obtain ⟨b, r, hb, rfl, rfl⟩ := h
      simp [content, hu hb]
    · simp at h

end Quoted

namespace TagKind

/-- Reads the body of a comment section up to its end. -/
def readSection? (label : Option Quoted) (text : Text) : Option (Tag × Text) :=
  (text.cut? Tag.endComment).map fun (body, rest) => (.blockComment label body, rest)

/-- Reads a tag of a kind behind its opening: the tag, and what follows it. -/
def readInner? (kind : TagKind) (text : Text) : Option (Tag × Text) :=
  match kind with
  | expression => (text.someUpTo? kind.closing).map fun (body, rest) => (.expression body, rest)
  | statement => (text.someUpTo? kind.closing).map fun (body, rest) => (.statement body, rest)
  | hashComment => (text.someUpTo? kind.closing).map fun (body, rest) => (.hashComment body, rest)
  | blockComment =>
    match text.after? bareClosing with
    | some text => readSection? none text
    | none =>
      (Quoted.read? Text.upTo? kind.closing text).bind fun (label, text) =>
        readSection? (some label) text
  | inherits =>
    (Quoted.read? Text.someUpTo? kind.closing text).map fun (path, rest) => (.inherits path, rest)
  | block =>
    text.word?.bind fun (name, text) =>
      (text.after? kind.closing).map fun rest => (.block name, rest)
  | endBlock =>
    match text.after? bareClosing with
    | some rest => some (.endBlock none, rest)
    | none =>
      text.word?.bind fun (name, text) =>
        (text.after? kind.closing).map fun rest => (.endBlock (some name), rest)
  | inclusion =>
    (Quoted.read? Text.someUpTo? kind.closing text).map fun (path, rest) => (.inclusion path, rest)

/-- Reads a tag of a kind from the front of a text. -/
def read? (kind : TagKind) (text : Text) : Option (Tag × Text) :=
  (text.after? kind.opening).bind kind.readInner?

theorem eq_of_readSection? {label : Option Quoted} {text rest : Text} {t : Tag}
    (h : readSection? label text = some (t, rest)) :
    ∃ body, t = .blockComment label body ∧ text = body ++ Tag.endComment ++ rest := by
  simp only [readSection?, Option.map_eq_some_iff, Prod.mk.injEq, Prod.exists] at h
  obtain ⟨b, r, hb, rfl, rfl⟩ := h
  exact ⟨b, rfl, Text.eq_of_cut? hb⟩

/-- What is read behind the opening is a tag of the kind, and it stands written there. -/
theorem eq_of_readInner? {kind : TagKind} {text rest : Text} {t : Tag}
    (h : kind.readInner? text = some (t, rest)) : t.kind = kind ∧ text = t.inner ++ rest := by
  cases kind
  case expression | statement | hashComment =>
    simp only [readInner?, Option.map_eq_some_iff, Prod.mk.injEq, Prod.exists] at h
    obtain ⟨b, r, hb, rfl, rfl⟩ := h
    exact ⟨rfl, Text.eq_of_someUpTo? hb⟩
  case blockComment =>
    simp only [readInner?] at h
    split at h
    · next s hs =>
      obtain ⟨b, rfl, rfl⟩ := eq_of_readSection? h
      exact ⟨rfl, by simp only [Text.after?_eq_some.1 hs, Tag.inner, List.append_assoc]⟩
    · simp only [Option.bind_eq_some_iff, Prod.exists] at h
      obtain ⟨l, s, hl, h⟩ := h
      obtain ⟨b, rfl, rfl⟩ := eq_of_readSection? h
      refine ⟨rfl, ?_⟩
      simp only [Quoted.eq_of_read? Text.eq_of_upTo? hl, Tag.inner, Tag.kind, List.append_assoc]
  case inherits | inclusion =>
    simp only [readInner?, Option.map_eq_some_iff, Prod.mk.injEq, Prod.exists] at h
    obtain ⟨b, r, hb, rfl, rfl⟩ := h
    exact ⟨rfl, Quoted.eq_of_read? Text.eq_of_someUpTo? hb⟩
  case block =>
    simp only [readInner?, Option.bind_eq_some_iff, Option.map_eq_some_iff, Prod.mk.injEq,
      Prod.exists, Text.after?_eq_some] at h
    obtain ⟨n, s, hn, r, rfl, rfl, rfl⟩ := h
    refine ⟨rfl, ?_⟩
    simp only [Text.eq_of_word? hn, Tag.inner, Tag.kind, List.append_assoc]
  case endBlock =>
    simp only [readInner?] at h
    split at h
    · next r hr =>
      simp only [Option.some.injEq, Prod.mk.injEq] at h
      obtain ⟨rfl, rfl⟩ := h
      exact ⟨rfl, Text.after?_eq_some.1 hr⟩
    · simp only [Option.bind_eq_some_iff, Option.map_eq_some_iff, Prod.mk.injEq, Prod.exists,
        Text.after?_eq_some] at h
      obtain ⟨n, s, hn, r, rfl, rfl, rfl⟩ := h
      refine ⟨rfl, ?_⟩
      simp only [Text.eq_of_word? hn, Tag.inner, Tag.kind, List.append_assoc]

/-- A tag that is read has the kind asked for. -/
theorem kind_of_read? {kind : TagKind} {text rest : Text} {t : Tag}
    (h : kind.read? text = some (t, rest)) : t.kind = kind := by
  obtain ⟨_, _, h⟩ := Option.bind_eq_some_iff.1 h
  exact (eq_of_readInner? h).1

/-- A tag that is read stands written at the front of the text. -/
theorem eq_of_read? {kind : TagKind} {text rest : Text} {t : Tag}
    (h : kind.read? text = some (t, rest)) : text = t.content ++ rest := by
  obtain ⟨s, hs, h⟩ := Option.bind_eq_some_iff.1 h
  obtain ⟨rfl, rfl⟩ := eq_of_readInner? h
  simpa [Tag.content] using Text.after?_eq_some.1 hs

end TagKind

end TemplateEngine

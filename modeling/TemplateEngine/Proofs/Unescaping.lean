import Mathlib.Logic.Function.Basic
import TemplateEngine.Language

/-!
# Escaping loses nothing

What was escaped can be read back. Each language has *codes* that stand for characters
(`Language.codes`): entities in HTML, the five predefined ones in XML, and the character behind a
backslash in Markdown. They are listed apart from the tables of escaping, which write just these
(`Language.escape_of_mem`, `Language.escape_of_not_mem`). A decoder reads a text from the left and
puts characters in the places of their codes (`Text.decode`). It does not know which codes were
written for characters and which stood in the text before, and it need not: the character with
which all codes begin has a code itself, so what is left as it was begins no code, and no code
begins with another (`Language.Decodable`). Hence decoding undoes escaping
(`Language.escape_lossless`).
-/

namespace TemplateEngine

namespace Text

variable {codes : List (Text × Char)}

/-- The text with characters in the places of their codes. It is read from the left: where a code
stands reading goes on behind it, and any other character is left as it is. -/
def decode (codes : List (Text × Char)) : Text → Text
  | [] => []
  | c :: text =>
    match codes.find? fun code => code.1.isPrefixOf (c :: text) with
    | some (code, d) => d :: decode codes (text.drop (code.length - 1))
    | none => c :: decode codes text
termination_by text => text.length

/-- A character that begins no code is left as it is. -/
theorem decode_cons {c : Char} {text : Text} (h : ∀ code ∈ codes, ¬code.1 <+: c :: text) :
    decode codes (c :: text) = c :: decode codes text := by
  have hnone : codes.find? (fun code => code.1.isPrefixOf (c :: text)) = none := by
    rw [List.find?_eq_none]
    intro code hcode
    rw [List.isPrefixOf_iff_prefix]
    exact h code hcode
  rw [decode, hnone]

/-- A code is replaced, if no code begins with another. -/
theorem decode_append (hfree : ∀ p ∈ codes, ∀ q ∈ codes, p.1 <+: q.1 → p = q) {code : Text}
    {c : Char} (hne : code ≠ []) (hcode : (code, c) ∈ codes) (rest : Text) :
    decode codes (code ++ rest) = c :: decode codes rest := by
  obtain ⟨first, tail, rfl⟩ := List.exists_cons_of_ne_nil hne
  have hfind : codes.find? (fun other => other.1.isPrefixOf (first :: tail ++ rest))
      = some (first :: tail, c) := by
    cases hfound : codes.find? (fun other => other.1.isPrefixOf (first :: tail ++ rest)) with
    | none =>
      have hnot := List.find?_eq_none.mp hfound _ hcode
      rw [List.isPrefixOf_iff_prefix] at hnot
      exact absurd (List.prefix_append _ _) hnot
    | some other =>
      -- both stand at the front, so one of them begins with the other
      have hmem := List.mem_of_find?_eq_some hfound
      have hother := List.find?_some hfound
      rw [List.isPrefixOf_iff_prefix] at hother
      rcases List.prefix_or_prefix_of_prefix hother (List.prefix_append (first :: tail) rest) with
        h | h
      · rw [hfree _ hmem _ hcode h]
      · rw [← hfree _ hcode _ hmem h]
  rw [List.cons_append] at hfind ⊢
  rw [decode, hfind]
  simp

end Text

namespace Language

/-- The codes of a language, each with the character it stands for: entities in HTML, the five
predefined ones in XML, and in Markdown what could begin markup, behind a backslash. -/
def codes : Language → List (Text × Char)
  | html =>
    [("&amp;".toList, '&'), ("&semi;".toList, ';'), ("&quot;".toList, '"'),
      ("&lowbar;".toList, '_'), ("&minus;".toList, '-'), ("&comma;".toList, ','),
      ("&colon;".toList, ':'), ("&excl;".toList, '!'), ("&quest;".toList, '?'),
      ("&period;".toList, '.'), ("&apos;".toList, '\x27'), ("&lpar;".toList, '('),
      ("&rpar;".toList, ')'), ("&lsqb;".toList, '['), ("&rsqb;".toList, ']'),
      ("&lcub;".toList, '{'), ("&rcub;".toList, '}'), ("&commat;".toList, '@'),
      ("&ast;".toList, '*'), ("&sol;".toList, '/'), ("&bsol;".toList, '\\'),
      ("&num;".toList, '#'), ("&percnt;".toList, '%'), ("&grave;".toList, '\x60'),
      ("&Hat;".toList, '^'), ("&plus;".toList, '+'), ("&lt;".toList, '<'),
      ("&equals;".toList, '='), ("&gt;".toList, '>'), ("&vert;".toList, '|'),
      ("&tilde;".toList, '~'), ("&dollar;".toList, '$')]
  | xml =>
    [("&amp;".toList, '&'), ("&quot;".toList, '"'), ("&apos;".toList, '\x27'),
      ("&lt;".toList, '<'), ("&gt;".toList, '>')]
  | markdown => "\\_-!()[]*&#\x60+<>|~".toList.map fun c => (['\\', c], c)

theorem codes_html : html.codes = htmlEntities.map fun entity =>
    ('&' :: entity.2 ++ [';'], entity.1) := by
  decide

theorem codes_xml : xml.codes = xmlEntities.map fun entity =>
    ('&' :: entity.2 ++ [';'], entity.1) := by
  decide

theorem codes_markdown : markdown.codes = markdownSpecials.map fun c => (['\\', c], c) := by
  decide

/-- A text of the language with the characters that the codes in it stand for. -/
def unescape (l : Language) (text : Text) : Text := text.decode l.codes

/-- What is written can be told apart: for a character its code is written, or itself if it does not
begin a code; and no code begins with another. -/
structure Decodable (codes : List (Text × Char)) (write : Char → Text) : Prop where
  written : ∀ c, (write c, c) ∈ codes ∨ write c = [c] ∧ ∀ code ∈ codes, code.1.head? ≠ some c
  ne_nil : ∀ code ∈ codes, code.1 ≠ []
  prefix_free : ∀ p ∈ codes, ∀ q ∈ codes, p.1 <+: q.1 → p = q

namespace Decodable

variable {codes : List (Text × Char)} {write : Char → Text}

/-- A character that is written is read back, whatever follows. -/
theorem decode_write (h : Decodable codes write) (c : Char) (rest : Text) :
    Text.decode codes (write c ++ rest) = c :: Text.decode codes rest := by
  rcases h.written c with hcode | ⟨hself, hfirst⟩
  · exact Text.decode_append h.prefix_free (h.ne_nil _ hcode) hcode rest
  · rw [hself]
    refine Text.decode_cons fun code hcode hstands => ?_
    obtain ⟨d, tail, heq⟩ := List.exists_cons_of_ne_nil (h.ne_nil code hcode)
    rw [heq] at hstands
    obtain ⟨rfl, -⟩ := List.cons_prefix_cons.mp hstands
    exact hfirst code hcode (by rw [heq, List.head?_cons])

/-- What is written for a text is read back as this text. -/
theorem decode_flatMap (h : Decodable codes write) (text : Text) :
    Text.decode codes (text.flatMap write) = text := by
  induction text with
  | nil => rw [List.flatMap_nil, Text.decode]
  | cons c text ih => rw [List.flatMap_cons, h.decode_write, ih]

end Decodable

/-- Entities can be told apart if the sign that begins them is one of those that have an entity. -/
theorem decodable_entities {entities : List (Char × Text)}
    (hsign : (entities.lookup '&').isSome = true)
    (hfree : ∀ p ∈ entities, ∀ q ∈ entities, '&' :: p.2 ++ [';'] <+: '&' :: q.2 ++ [';'] → p = q) :
    Decodable (entities.map fun entity => ('&' :: entity.2 ++ [';'], entity.1))
      (encode entities) where
  written c := by
    cases hc : entities.lookup c with
    | some name =>
      obtain ⟨before, after, heq, -⟩ := List.lookup_eq_some_iff.mp hc
      refine .inl (List.mem_map.mpr ⟨(c, name), by simp [heq], ?_⟩)
      rw [encode, hc]
    | none =>
      refine .inr ⟨by rw [encode, hc], ?_⟩
      intro code hcode hhead
      obtain ⟨entity, -, rfl⟩ := List.mem_map.mp hcode
      obtain rfl : '&' = c := Option.some.inj hhead
      rw [hc] at hsign
      cases hsign
  ne_nil := by
    intro code hcode
    obtain ⟨entity, -, rfl⟩ := List.mem_map.mp hcode
    exact List.cons_ne_nil _ _
  prefix_free := by
    intro p hp q hq h
    obtain ⟨entity, hentity, rfl⟩ := List.mem_map.mp hp
    obtain ⟨other, hother, rfl⟩ := List.mem_map.mp hq
    rw [hfree entity hentity other hother h]

theorem decodable_markdown :
    Decodable (markdownSpecials.map fun c => (['\\', c], c)) markdown.escapeChar where
  written c := by
    by_cases hc : c ∈ markdownSpecials
    · refine .inl (List.mem_map.mpr ⟨c, hc, ?_⟩)
      rw [escapeChar, if_pos hc]
    · refine .inr ⟨if_neg hc, ?_⟩
      intro code hcode hhead
      obtain ⟨d, -, rfl⟩ := List.mem_map.mp hcode
      exact hc (Option.some.inj hhead ▸ by decide)
  ne_nil := by
    intro code hcode
    obtain ⟨c, -, rfl⟩ := List.mem_map.mp hcode
    exact List.cons_ne_nil _ _
  prefix_free := by
    intro p hp q hq h
    obtain ⟨c, -, rfl⟩ := List.mem_map.mp hp
    obtain ⟨d, -, rfl⟩ := List.mem_map.mp hq
    simp only [List.cons_prefix_cons] at h
    rw [h.2.1]

/-- In every language it can be told what was written. -/
theorem decodable (l : Language) : Decodable l.codes l.escapeChar := by
  cases l with
  | html =>
    rw [codes_html]
    exact decodable_entities (by decide) (by decide +kernel)
  | xml =>
    rw [codes_xml]
    exact decodable_entities (by decide) (by decide +kernel)
  | markdown =>
    rw [codes_markdown]
    exact decodable_markdown

/-- For a character that has a code this code is written. -/
theorem escape_of_mem (l : Language) : ∀ code ∈ l.codes, l.escape [code.2] = code.1 := by
  cases l <;> decide +kernel

/-- A character that has no code is written as it is. -/
theorem escape_of_not_mem {l : Language} {c : Char} (h : ∀ code ∈ l.codes, code.2 ≠ c) :
    l.escape [c] = [c] := by
  rw [escape_singleton]
  rcases l.decodable.written c with hcode | ⟨hself, -⟩
  · exact absurd rfl (h _ hcode)
  · exact hself

/-- **Escaping loses nothing.** In every language the codes are written for the characters they
stand for, and all else is written as it is. The decoder puts characters in the places of their
codes and leaves all else as it is, and this undoes escaping. So different texts are written
differently; and escaping a joined text joins the escaped texts. -/
theorem escape_lossless (l : Language) :
    (∀ code ∈ l.codes, l.escape [code.2] = code.1)
      ∧ (∀ c, (∀ code ∈ l.codes, code.2 ≠ c) → l.escape [c] = [c])
      ∧ (∀ code ∈ l.codes, ∀ rest, l.unescape (code.1 ++ rest) = code.2 :: l.unescape rest)
      ∧ (∀ c rest, (∀ code ∈ l.codes, ¬code.1 <+: c :: rest) →
        l.unescape (c :: rest) = c :: l.unescape rest)
      ∧ (∀ text, l.unescape (l.escape text) = text)
      ∧ Function.Injective l.escape
      ∧ ∀ s t, l.escape (s ++ t) = l.escape s ++ l.escape t := by
  have hdecodable := l.decodable
  have hundo : ∀ text, l.unescape (l.escape text) = text := hdecodable.decode_flatMap
  refine ⟨l.escape_of_mem, fun c => escape_of_not_mem, ?_, ?_, hundo,
    Function.LeftInverse.injective hundo, l.escape_append⟩
  · rintro ⟨code, c⟩ hcode rest
    exact Text.decode_append hdecodable.prefix_free (hdecodable.ne_nil _ hcode) hcode rest
  · intro c rest hnot
    exact Text.decode_cons hnot

/-- An entity in the text before is no entity of what is written. -/
theorem escape_lossless_entity :
    html.escape "&lt;".toList = "&amp;lt&semi;".toList
      ∧ ("&amp;".toList, '&') ∈ html.codes
      ∧ html.escape ['&'] = "&amp;".toList
      ∧ (∀ code ∈ html.codes, code.2 ≠ 'l')
      ∧ html.escape ['l'] = ['l']
      ∧ html.unescape "&amp;lt&semi;".toList = '&' :: html.unescape "lt&semi;".toList
      ∧ (∀ code ∈ html.codes, ¬code.1 <+: "lt&semi;".toList)
      ∧ html.unescape "lt&semi;".toList = 'l' :: html.unescape "t&semi;".toList
      ∧ html.unescape "&amp;lt&semi;".toList = "&lt;".toList := by
  obtain ⟨hcode, hself, hread, hleave, hundo, -, -⟩ := escape_lossless html
  have hmem : ("&amp;".toList, '&') ∈ html.codes := by decide
  have hwritten : ∀ code ∈ html.codes, code.2 ≠ 'l' := by decide
  have hfirst : ∀ code ∈ html.codes, ¬code.1 <+: "lt&semi;".toList := by decide
  exact ⟨by decide, hmem, hcode _ hmem, hwritten, hself 'l' hwritten, hread _ hmem _, hfirst,
    hleave 'l' _ hfirst, hundo "&lt;".toList⟩

end Language

end TemplateEngine

import SiteServer.Proofs.Text.Split
import SiteServer.Text.Markup

/-! # Escaped text, and the text that it stands for.

Escaping writes five characters as entities and all others as they are. An entity starts with an ampersand and
has no other in it, so each ampersand of an escaped text starts one entity, and reading the entities from left
to right gives the text back, whatever entities or parts of entities it held itself. -/

namespace SiteServer.Text.Markup

def entities : List (List Char) :=
  ["&amp;", "&lt;", "&gt;", "&#34;", "&#39;"].map String.toList

/-! ## Entities -/

theorem mem_entities_of_entity? {c : Char} {entity : List Char} (h : entity? c = some entity) :
    entity ∈ entities := by
  unfold entity? at h
  split at h <;> cases h <;> decide

/-- An ampersand stands at the start of an entity, and only there. -/
theorem exists_eq_cons_of_entity? {c : Char} {entity : List Char} (h : entity? c = some entity) :
    ∃ body, entity = '&' :: body ∧ '&' ∉ body := by
  unfold entity? at h
  split at h
  all_goals cases h
  all_goals exact ⟨_, rfl, by decide⟩

/-- What is written for a character has no markup in it. -/
theorem ne_markup_of_mem_entity {c d : Char} (h : d ∈ (entity? c).getD [c]) :
    d ≠ '<' ∧ d ≠ '>' ∧ d ≠ '"' ∧ d ≠ '\'' := by
  unfold entity? at h
  split at h
  case h_6 => simp_all
  all_goals
    revert d
    simp

theorem ne_ampersand_of_entity? {c : Char} (h : entity? c = none) : c ≠ '&' := by
  rintro rfl
  cases h

/-! ## Escaped text -/

theorem escape_cons_of_entity? {c : Char} {entity : List Char} (h : entity? c = some entity)
    (text : List Char) : escape (c :: text) = entity ++ escape text := by
  rw [escape_cons, h, Option.getD_some]

theorem escape_cons_of_plain {c : Char} (h : entity? c = none) (text : List Char) :
    escape (c :: text) = c :: escape text := by
  rw [escape_cons, h, Option.getD_none, List.singleton_append]

/-- An escaped text has no markup. -/
theorem ne_markup_of_mem_escape {text : List Char} {d : Char} (h : d ∈ escape text) :
    d ≠ '<' ∧ d ≠ '>' ∧ d ≠ '"' ∧ d ≠ '\'' := by
  obtain ⟨c, _, hd⟩ := List.mem_flatMap.mp h
  exact ne_markup_of_mem_entity hd

/-- At an ampersand of an escaped text starts the entity of a character of the text: before it stands the
escaped text before that character, and behind it the escaped text that follows. -/
theorem exists_entity_of_escape_eq {text front rest : List Char}
    (h : escape text = front ++ '&' :: rest) : ∃ before c after entity,
      text = before ++ c :: after ∧ front = escape before ∧ entity? c = some entity ∧
        '&' :: rest = entity ++ escape after := by
  induction text generalizing front with
  | nil => simp at h
  | cons c text ih =>
      cases hc : entity? c with
      | none =>
          have hplain : '&' ∉ [c] := by simpa using (ne_ampersand_of_entity? hc).symm
          rw [escape_cons_of_plain hc, ← List.singleton_append] at h
          obtain ⟨middle, rfl, hmiddle⟩ := exists_append_of_not_mem hplain h
          obtain ⟨before, e, after, entity, rfl, rfl, hentity, hrest⟩ := ih hmiddle
          exact ⟨c :: before, e, after, entity, rfl, (escape_cons_of_plain hc before).symm, hentity, hrest⟩
      | some entity =>
          obtain ⟨body, rfl, hbody⟩ := exists_eq_cons_of_entity? hc
          rw [escape_cons_of_entity? hc, List.cons_append] at h
          cases front with
          | nil => exact ⟨[], c, text, _, rfl, rfl, hc, h.symm⟩
          | cons d front =>
              obtain ⟨rfl, htail⟩ := List.cons.inj h
              obtain ⟨middle, rfl, hmiddle⟩ := exists_append_of_not_mem hbody htail
              obtain ⟨before, e, after, entity, rfl, rfl, hentity, hrest⟩ := ih hmiddle
              exact ⟨c :: before, e, after, entity, rfl, (escape_cons_of_entity? hc before).symm, hentity,
                hrest⟩

/-! ## The text that is escaped -/

theorem unescape_entity {c : Char} {entity : List Char} (h : entity? c = some entity)
    (rest : List Char) : unescape (entity ++ rest) = c :: unescape rest := by
  unfold entity? at h
  split at h <;> cases h <;> rfl

theorem unescape_plain {c : Char} (h : c ≠ '&') (rest : List Char) :
    unescape (c :: rest) = c :: unescape rest := by
  conv_lhs => unfold unescape
  split <;> simp_all

/-- Entities are read back as what they were written for. -/
theorem unescape_escape (text : List Char) : unescape (escape text) = text := by
  induction text with
  | nil => rfl
  | cons c text ih =>
      cases hc : entity? c with
      | none => rw [escape_cons_of_plain hc, unescape_plain (ne_ampersand_of_entity? hc), ih]
      | some entity => rw [escape_cons_of_entity? hc, unescape_entity hc, ih]

/-- An escaped text has none of the characters that open or close tags and attribute values, and every
ampersand in it starts the entity of one character of the text. A text is escaped part by part, and its
entities, read from left to right, give it back, so that different texts have different escaped forms. -/
theorem escape_faithful :
    (∀ text, ∀ d ∈ escape text, d ≠ '<' ∧ d ≠ '>' ∧ d ≠ '"' ∧ d ≠ '\'') ∧
    (∀ text front rest, escape text = front ++ '&' :: rest → ∃ before c after, ∃ entity ∈ entities,
      text = before ++ c :: after ∧ front = escape before ∧ entity? c = some entity ∧
        '&' :: rest = entity ++ escape after) ∧
    (∀ first second, escape (first ++ second) = escape first ++ escape second) ∧
    (∀ text, unescape (escape text) = text) ∧
    ∀ text other, escape text = escape other ↔ text = other := by
  refine ⟨fun text d => ne_markup_of_mem_escape, ?_, escape_append, unescape_escape, ?_⟩
  · intro text front rest h
    obtain ⟨before, c, after, entity, htext, hfront, hentity, hrest⟩ := exists_entity_of_escape_eq h
    exact ⟨before, c, after, entity, mem_entities_of_entity? hentity, htext, hfront, hentity, hrest⟩
  · intro text other
    constructor
    · intro h
      rw [← unescape_escape text, h, unescape_escape]
    · rintro rfl
      rfl

/-- A text with an entity, a part of one, and markup. -/
def nestedText : List Char :=
  "<&lt; & &#3".toList

def nestedEscaped : List Char :=
  "&lt;&amp;lt; &amp; &amp;#3".toList

theorem escape_faithful_nested :
    escape nestedText = nestedEscaped ∧ '<' ∉ nestedEscaped ∧ unescape nestedEscaped = nestedText ∧
      ∃ before c after, ∃ entity ∈ entities, nestedText = before ++ c :: after ∧
        "&lt;".toList = escape before ∧ entity? c = some entity ∧
          "&amp;lt; &amp; &amp;#3".toList = entity ++ escape after := by
  have hescaped : escape nestedText = nestedEscaped := by decide
  have hmarkup : '<' ∉ nestedEscaped := by
    rw [← hescaped]
    intro hmem
    exact (escape_faithful.1 nestedText '<' hmem).1 rfl
  have hback : unescape nestedEscaped = nestedText := by
    rw [← hescaped]
    exact escape_faithful.2.2.2.1 nestedText
  exact ⟨hescaped, hmarkup, hback, escape_faithful.2.1 nestedText "&lt;".toList
    "amp;lt; &amp; &amp;#3".toList hescaped⟩

end SiteServer.Text.Markup

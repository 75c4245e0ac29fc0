import SiteServer.Text.Split

/-! # The places at which a search looks.

A search goes on behind what it finds, and otherwise to the next character. So it looks at no place inside
what it has found. -/

namespace SiteServer.Text.Pattern

variable {α : Type} {p : Pattern α} {text rest place next a b : List Char}

/-- Where the search goes on. -/
inductive Next (p : Pattern α) : List Char → List Char → Prop where
  | char {c : Char} {rest : List Char} (none : p.read? (c :: rest) = none) : p.Next (c :: rest) rest
  | found {text rest : List Char} {a : α} (read : p.read? text = some (a, rest)) : p.Next text rest

/-- The places of a text at which the search looks, each as the text from there on. -/
def places (p : Pattern α) : List Char → List (List Char)
  | [] => [[]]
  | c :: rest =>
    (c :: rest) ::
      match _h : p.read? (c :: rest) with
      | some (_, tail) => p.places tail
      | none => p.places rest
termination_by text => text.length
decreasing_by
  · exact p.read?_shorter _h
  · simp

theorem Next.length_lt (h : p.Next text rest) : rest.length < text.length := by
  cases h with
  | char => simp
  | found read => exact p.read?_shorter read

theorem Next.unique (h : p.Next text rest) (hnext : p.Next text next) : rest = next := by
  cases h with
  | char none =>
      cases hnext with
      | char => rfl
      | found read =>
          rw [none] at read
          cases read
  | found read =>
      cases hnext with
      | char none =>
          rw [none] at read
          cases read
      | found read' =>
          rw [read] at read'
          cases read'
          rfl

theorem exists_next (p : Pattern α) (h : text ≠ []) : ∃ rest, p.Next text rest := by
  obtain ⟨c, tail, rfl⟩ := List.exists_cons_of_ne_nil h
  cases hread : p.read? (c :: tail) with
  | none => exact ⟨tail, .char hread⟩
  | some found => exact ⟨found.2, .found hread⟩

theorem Next.places_eq (h : p.Next text rest) : p.places text = text :: p.places rest := by
  cases h with
  | char none =>
      rw [places]
      split
      · rename_i heq
        rw [none] at heq
        cases heq
      · rfl
  | found read =>
      cases text with
      | nil => exact absurd (p.read?_shorter read) (by simp)
      | cons c tail =>
          rw [places]
          split
          · rename_i heq
            rw [read] at heq
            cases heq
            rfl
          · rename_i heq
            rw [read] at heq
            cases heq

theorem places_nil : p.places [] = [[]] := by
  rw [places]

theorem mem_places_self : text ∈ p.places text := by
  cases text with
  | nil => simp [places]
  | cons c rest => simp [places]

/-- Induction along the places of a text. -/
theorem next_induction (p : Pattern α) {motive : List Char → Prop} (nil : motive [])
    (next : ∀ text rest, p.Next text rest → motive rest → motive text) (text : List Char) :
    motive text := by
  induction hn : text.length using Nat.strongRecOn generalizing text with
  | ind n ih =>
      by_cases htext : text = []
      · rw [htext]
        exact nil
      · obtain ⟨rest, hrest⟩ := p.exists_next htext
        exact next text rest hrest (ih rest.length (hn ▸ hrest.length_lt) rest rfl)

theorem length_le_of_mem_places (h : place ∈ p.places text) : place.length ≤ text.length := by
  induction text using p.next_induction with
  | nil =>
      rw [places_nil, List.mem_singleton] at h
      exact h ▸ Nat.le_refl _
  | next text rest hrest ih =>
      rw [hrest.places_eq, List.mem_cons] at h
      rcases h with rfl | h
      · exact Nat.le_refl _
      · exact Nat.le_trans (ih h) (Nat.le_of_lt hrest.length_lt)

theorem Next.mem_places (hnext : p.Next place next) (h : place ∈ p.places text) :
    next ∈ p.places text := by
  induction text using p.next_induction with
  | nil =>
      rw [places_nil, List.mem_singleton] at h
      rw [h] at hnext
      exact absurd hnext.length_lt (by simp)
  | next text rest hrest ih =>
      rw [hrest.places_eq, List.mem_cons] at h ⊢
      rcases h with rfl | h
      · rw [hnext.unique hrest]
        exact .inr mem_places_self
      · exact .inr (ih h)

/-- Between two places that follow one another there is no other. -/
theorem Next.length_le (hnext : p.Next a next) (ha : a ∈ p.places text) (hb : b ∈ p.places text)
    (h : b.length < a.length) : b.length ≤ next.length := by
  induction text using p.next_induction with
  | nil =>
      rw [places_nil, List.mem_singleton] at ha
      rw [ha] at h
      exact absurd h (by simp)
  | next text rest hrest ih =>
      have hlt := hrest.length_lt
      rw [hrest.places_eq, List.mem_cons] at ha hb
      rcases ha with rfl | ha
      · rcases hb with rfl | hb
        · exact absurd h (Nat.lt_irrefl _)
        · rw [hnext.unique hrest]
          exact length_le_of_mem_places hb
      · rcases hb with rfl | hb
        · exact absurd (length_le_of_mem_places ha) (by omega)
        · exact ih ha hb

/-- Places with as much text behind them are the same. -/
theorem eq_of_mem_places (ha : a ∈ p.places text) (hb : b ∈ p.places text)
    (h : a.length = b.length) : a = b := by
  induction text using p.next_induction with
  | nil =>
      rw [places_nil, List.mem_singleton] at ha hb
      rw [ha, hb]
  | next text rest hrest ih =>
      have hlt := hrest.length_lt
      rw [hrest.places_eq, List.mem_cons] at ha hb
      rcases ha with rfl | ha
      · rcases hb with rfl | hb
        · rfl
        · exact absurd (length_le_of_mem_places hb) (by omega)
      · rcases hb with rfl | hb
        · exact absurd (length_le_of_mem_places ha) (by omega)
        · exact ih ha hb

/-- A search passes over a text when nothing is found at its places, read on into what follows. -/
theorem mem_places_append (h : text ++ rest ∈ p.places a)
    (hnone : ∀ s, s ≠ [] → s <:+ text → p.read? (s ++ rest) = none) : rest ∈ p.places a := by
  induction text with
  | nil => exact h
  | cons c text ih =>
      have hc := hnone (c :: text) (List.cons_ne_nil c text) (List.suffix_refl _)
      have hnext : p.Next (c :: text ++ rest) (text ++ rest) := .char hc
      exact ih (hnext.mem_places h) fun s hs hsuffix =>
        hnone s hs (hsuffix.trans (List.suffix_cons c text))

/-! ## What a search finds in a text that goes on -/

/-- Where the search looks in a text, it makes no difference to what is found that more text follows. -/
def Apart (p : Pattern α) (text more : List Char) : Prop :=
  ∀ s ∈ p.places text, s ≠ [] → p.read? (s ++ more) = (p.read? s).map fun found => (found.1, found.2 ++ more)

instance [DecidableEq α] (p : Pattern α) (text more : List Char) : Decidable (p.Apart text more) :=
  inferInstanceAs (Decidable (∀ s ∈ p.places text, s ≠ [] → _ = _))

theorem apart_nil (more : List Char) : p.Apart [] more := by
  intro s hs hne
  rw [places_nil, List.mem_singleton] at hs
  exact absurd hs hne

theorem Apart.of_next {more : List Char} (h : p.Apart rest more) (hnext : p.Next text rest)
    (hread : p.read? (text ++ more) = (p.read? text).map fun found => (found.1, found.2 ++ more)) :
    p.Apart text more := by
  intro s hs hne
  rw [hnext.places_eq] at hs
  rcases List.mem_cons.mp hs with rfl | hs
  · exact hread
  · exact h s hs hne

theorem Apart.behind {more : List Char} (h : p.Apart text more) (hnext : p.Next text rest) :
    p.Apart rest more := by
  intro s hs
  refine h s ?_
  rw [hnext.places_eq]
  exact List.mem_cons_of_mem text hs

theorem Apart.read? {more : List Char} (h : p.Apart text more) (hne : text ≠ []) :
    p.read? (text ++ more) = (p.read? text).map fun found => (found.1, found.2 ++ more) :=
  h text mem_places_self hne

/-- The search of the whole is then the search of the text and that of what follows. -/
theorem Apart.split_append {more : List Char} (h : p.Apart text more) :
    p.split (text ++ more) = p.split text ++ p.split more := by
  induction text using p.next_induction with
  | nil => rw [split_nil, List.nil_append, List.nil_append]
  | next text rest hrest ih =>
      have hrestMore := ih (h.behind hrest)
      cases hrest with
      | @char c rest hnone =>
          have hread := h.read? (List.cons_ne_nil c rest)
          rw [hnone, Option.map_none, List.cons_append] at hread
          rw [split_char hnone, List.cons_append, split_char hread, hrestMore, List.cons_append]
      | @found text rest a hfound =>
          have hne : text ≠ [] := by
            rintro rfl
            exact absurd (p.read?_shorter hfound) (Nat.not_lt_zero _)
          have hread := h.read? hne
          rw [hfound, Option.map_some] at hread
          rw [split_found hfound, split_found hread, hrestMore, List.cons_append]

end SiteServer.Text.Pattern

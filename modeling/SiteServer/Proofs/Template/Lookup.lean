import SiteServer.Proofs.Text.Split
import SiteServer.Template.Lookup

/-! # Lookups between the marks of a tag.

A lookup starts with an identifier. What follows it inside the tag decides whether the tag is a bare
identifier, and it is never an opening bracket of a call. -/

namespace SiteServer.Template.Lookup

theorem isIdentRest_eq_false {c : Char} (h : Text.isBlank c = true) : isIdentRest c = false := by
  simp only [Text.isBlank, Text.blankRanges, List.any_cons, List.any_nil, Bool.or_eq_true,
    Bool.and_eq_true, decide_eq_true_eq, Bool.or_false] at h
  have hnat : c.toNat = c.val.toNat := rfl
  by_contra hrest
  rw [Bool.not_eq_false] at hrest
  unfold isIdentRest isIdentStart Char.isAlpha Char.isUpper Char.isLower Char.isDigit at hrest
  simp only [Bool.or_eq_true, decide_eq_true_eq, Bool.and_eq_true, UInt32.le_iff_toNat_le,
    ge_iff_le] at hrest
  rcases hrest with ((rfl | rfl) | hrest) | hrest
  · revert h
    decide
  · revert h
    decide
  · simp at hrest
    omega
  · simp at hrest
    omega

/-- An identifier is read to the first character that does not go on in it. -/
theorem ident?_eq_some_iff {text rest : List Char} {name : String} :
    ident? text = some (name, rest) ↔ ∃ c more, name = String.ofList (c :: more) ∧
      isIdentStart c = true ∧ (∀ d ∈ more, isIdentRest d = true) ∧
      (∀ d, rest.head? = some d → isIdentRest d = false) ∧ text = c :: (more ++ rest) := by
  constructor
  · intro h
    cases text with
    | nil => cases h
    | cons c tail =>
        rw [ident?] at h
        by_cases hc : isIdentStart c = true
        · rw [if_pos hc] at h
          cases h
          refine ⟨c, tail.takeWhile isIdentRest, rfl, hc, ?_, ?_, ?_⟩
          · intro d hd
            exact List.mem_takeWhile_imp hd
          · intro d hd
            have := List.head?_dropWhile_not isIdentRest tail
            rw [hd] at this
            exact this
          · rw [List.takeWhile_append_dropWhile]
        · rw [if_neg hc] at h
          cases h
  · rintro ⟨c, more, rfl, hc, hmore, hrest, rfl⟩
    rw [ident?, if_pos hc, List.takeWhile_append_of_pos hmore, List.dropWhile_append_of_pos hmore,
      Text.takeWhile_eq_nil hrest, Text.dropWhile_eq_self hrest, List.append_nil]

theorem steps?_nil : steps? [] = some [] := by
  rw [steps?]

/-- The first step starts with a dot or a bracket. -/
theorem head?_of_steps? {text : List Char} {steps : List Step} (h : steps? text = some steps)
    (hne : text ≠ []) : steps ≠ [] ∧ (text.head? = some '.' ∨ text.head? = some '[') := by
  rw [steps?.eq_def] at h
  split at h
  · exact absurd rfl hne
  · split at h
    · rename_i c tail _ step rest hstep
      rw [Option.map_eq_some_iff] at h
      obtain ⟨others, _, rfl⟩ := h
      refine ⟨List.cons_ne_nil _ _, ?_⟩
      unfold step? at hstep
      split at hstep
      · rename_i heq
        rw [heq]
        exact Or.inl rfl
      · rename_i heq
        rw [heq]
        exact Or.inr rfl
      · cases hstep
    · cases h

/-- In a tag, the name of a lookup is read as an identifier, and behind it stands the close of the tag
or the first step. -/
theorem ident?_of_parse? {inner : List Char} {lookup : Lookup} (h : parse? inner = some lookup)
    (rest : List Char) :
    ∃ tail, ident? (Text.trimLeft (inner ++ '%' :: rest)) = some (lookup.root, tail) ∧
      (lookup.steps = [] ∧ Text.trimLeft tail = '%' :: rest ∨
        lookup.steps ≠ [] ∧
          ((Text.trimLeft tail).head? = some '.' ∨ (Text.trimLeft tail).head? = some '[')) := by
  simp only [parse?, Option.bind_eq_bind, Option.bind_eq_some_iff, Option.pure_def,
    Option.some.injEq, Prod.exists] at h
  obtain ⟨name, after, hident, steps, hsteps, rfl⟩ := h
  obtain ⟨blanks, hblanks, htrim⟩ := Text.exists_trimLeft_eq inner
  obtain ⟨c, more, hname, hc, hmore, hafter, hsource⟩ := ident?_eq_some_iff.mp hident
  have hne : Text.trimLeft inner ≠ [] := by
    rw [htrim, hsource]
    simp
  have htext : Text.trimLeft (inner ++ '%' :: rest) =
      c :: (more ++ (after ++ (blanks ++ '%' :: rest))) := by
    rw [Text.trimLeft_append hne, htrim, hsource]
    simp
  refine ⟨after ++ (blanks ++ '%' :: rest),
    ident?_eq_some_iff.mpr ⟨c, more, hname, hc, hmore, ?_, htext⟩, ?_⟩
  · intro d hd
    cases after with
    | cons e after => exact hafter d hd
    | nil =>
        cases blanks with
        | nil =>
            cases hd
            decide
        | cons b blanks =>
            cases hd
            exact isIdentRest_eq_false (hblanks _ List.mem_cons_self)
  · cases after with
    | nil =>
        rw [steps?_nil] at hsteps
        cases hsteps
        refine Or.inl ⟨rfl, ?_⟩
        rw [List.nil_append, Text.trimLeft_append_of_blank hblanks]
        exact Text.trimLeft_cons_of_not_blank (by decide) rest
    | cons e after =>
        obtain ⟨hsteps', hhead⟩ := head?_of_steps? hsteps (List.cons_ne_nil e after)
        refine Or.inr ⟨hsteps', ?_⟩
        have he : Text.isBlank e = false := by
          rcases hhead with he | he <;> cases he <;> decide
        rw [List.cons_append, Text.trimLeft_cons_of_not_blank he]
        exact hhead

end SiteServer.Template.Lookup

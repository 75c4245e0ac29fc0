import SiteServer.Proofs.Text.Split
import SiteServer.Template.Directive

/-! # Directives inside a longer text.

A directive ends at the first close that fits, so it is read alike whatever follows it, unless it takes
a line end along. -/

namespace SiteServer.Template.Directive

variable {text after : List Char} {trims : Bool}

/-! ## The close -/

/-- What a directive has before the last character of its close. -/
def Closing (trims : Bool) (before : List Char) : Prop :=
  ∃ outer inner : List Char, (∀ c ∈ outer, Text.isBlank c = true) ∧
    (∀ c ∈ inner, Text.isBlank c = true) ∧
      before = outer ++ ')' :: (inner ++ if trims then ['-', '%'] else ['%'])

theorem Closing.noEnd {before : List Char} (h : Closing trims before) : '>' ∉ before := by
  obtain ⟨outer, inner, houter, hinner, rfl⟩ := h
  have hblank : Text.isBlank '>' = false := by decide
  intro hmem
  rcases List.mem_append.mp hmem with hmem | hmem
  · simp [houter _ hmem] at hblank
  · rcases List.mem_cons.mp hmem with hmem | hmem
    · cases hmem
    · rcases List.mem_append.mp hmem with hmem | hmem
      · simp [hinner _ hmem] at hblank
      · cases trims <;> simp at hmem

theorem close?_eq_some_iff :
    close? text = some (trims, after) ↔
      ∃ before, Closing trims before ∧ text = before ++ '>' :: after := by
  have hclose : Text.isBlank ')' = false := by decide
  constructor
  · intro h
    unfold close? at h
    obtain ⟨outer, houter, htext⟩ := Text.exists_eq_append_trimLeft text
    split at h
    · rename_i rest heq
      obtain ⟨inner, hinner, hrest⟩ := Text.exists_eq_append_trimLeft rest
      rw [heq] at htext
      split at h
      · rename_i heq'
        cases h
        rw [heq'] at hrest
        refine ⟨_, ⟨outer, inner, houter, hinner, rfl⟩, ?_⟩
        rw [htext, hrest]
        simp
      · rename_i heq'
        cases h
        rw [heq'] at hrest
        refine ⟨_, ⟨outer, inner, houter, hinner, rfl⟩, ?_⟩
        rw [htext, hrest]
        simp
      · cases h
    · cases h
  · rintro ⟨_, ⟨outer, inner, houter, hinner, rfl⟩, rfl⟩
    unfold close?
    rw [List.append_assoc, Text.trimLeft_append_of_blank houter, List.cons_append,
      Text.trimLeft_cons_of_not_blank hclose, List.append_assoc]
    have hdash : Text.isBlank '-' = false := by decide
    have hpercent : Text.isBlank '%' = false := by decide
    cases trims with
    | true =>
        simp [Text.trimLeft_append_of_blank hinner, Text.trimLeft_cons_of_not_blank hdash]
    | false =>
        simp [Text.trimLeft_append_of_blank hinner, Text.trimLeft_cons_of_not_blank hpercent]

theorem close?_append (h : close? text = some (trims, after)) (more : List Char) :
    close? (text ++ more) = some (trims, after ++ more) := by
  obtain ⟨before, hbefore, rfl⟩ := close?_eq_some_iff.mp h
  exact close?_eq_some_iff.mpr ⟨before, hbefore, by simp⟩

/-- What is no close, and could not be the start of one, does not become one by what follows. -/
theorem close?_append_eq_none (h : close? text = none) (hend : '>' ∈ text) (more : List Char) :
    close? (text ++ more) = none := by
  by_contra hsome
  obtain ⟨⟨trims, after⟩, hclose⟩ := Option.ne_none_iff_exists'.mp hsome
  obtain ⟨before, hbefore, heq⟩ := close?_eq_some_iff.mp hclose
  rcases List.append_eq_append_iff.mp heq with ⟨gap, hgap, _⟩ | ⟨gap, hgap, hafter⟩
  · apply hbefore.noEnd
    rw [hgap]
    exact List.mem_append_left gap hend
  · cases gap with
    | nil =>
        apply hbefore.noEnd
        rw [List.append_nil] at hgap
        rwa [← hgap]
    | cons c gap =>
        cases hafter
        have := close?_eq_some_iff.mpr ⟨before, hbefore, hgap⟩
        rw [h] at this
        cases this

/-! ## What comes before the close -/

/-- What is read up to a close ends with it. -/
def ClosedBy (trims : Bool) (after text : List Char) : Prop :=
  ∃ before, Closing trims before ∧ before ++ '>' :: after <:+ text

theorem ClosedBy.of_suffix {text' : List Char} (h : ClosedBy trims after text)
    (hsuffix : text <:+ text') : ClosedBy trims after text' := by
  obtain ⟨before, hbefore, hclosed⟩ := h
  exact ⟨before, hbefore, hclosed.trans hsuffix⟩

theorem closedBy_of_close? (h : close? text = some (trims, after)) : ClosedBy trims after text := by
  obtain ⟨before, hbefore, rfl⟩ := close?_eq_some_iff.mp h
  exact ⟨before, hbefore, List.suffix_refl _⟩

theorem closedBy_of_literalBody? {body : List Char}
    (h : literalBody? text = some (body, trims, after)) : ClosedBy trims after text := by
  induction text generalizing body with
  | nil => cases h
  | cons c rest ih =>
      rw [literalBody?] at h
      split at h
      · rename_i hclose
        cases h
        by_cases hc : c = '\x7d'
        · rw [if_pos hc] at hclose
          exact (closedBy_of_close? hclose).of_suffix (List.suffix_cons c rest)
        · rw [if_neg hc] at hclose
          cases hclose
      · simp only [Option.map_eq_some_iff, Prod.mk.injEq, Prod.exists] at h
        obtain ⟨inner, _, _, hinner, _, rfl, rfl⟩ := h
        exact (ih hinner).of_suffix (List.suffix_cons c rest)

theorem mem_of_literalBody? {body : List Char}
    (h : literalBody? text = some (body, trims, after)) : '>' ∈ text := by
  obtain ⟨before, _, hsuffix⟩ := closedBy_of_literalBody? h
  apply hsuffix.subset
  simp

theorem literalBody?_append {body : List Char} (h : literalBody? text = some (body, trims, after))
    (more : List Char) : literalBody? (text ++ more) = some (body, trims, after ++ more) := by
  induction text generalizing body with
  | nil => cases h
  | cons c rest ih =>
      rw [literalBody?] at h
      rw [List.cons_append, literalBody?]
      by_cases hc : c = '\x7d'
      · rw [if_pos hc] at h ⊢
        cases hclose : close? rest with
        | some close =>
            obtain ⟨trims', after'⟩ := close
            rw [hclose] at h
            cases h
            rw [close?_append hclose]
        | none =>
            rw [hclose] at h
            simp only [Option.map_eq_some_iff, Prod.mk.injEq, Prod.exists] at h
            obtain ⟨inner, _, _, hinner, rfl, rfl, rfl⟩ := h
            rw [close?_append_eq_none hclose (mem_of_literalBody? hinner)]
            simp [ih hinner]
      · rw [if_neg hc] at h ⊢
        simp only [Option.map_eq_some_iff, Prod.mk.injEq, Prod.exists] at h
        obtain ⟨inner, _, _, hinner, rfl, rfl, rfl⟩ := h
        simp [ih hinner]

theorem trimLeft_suffix (text : List Char) : Text.trimLeft text <:+ text :=
  List.dropWhile_suffix _

theorem closedBy_of_ending? {literal : Option (List Char)}
    (h : ending? text = some (literal, trims, after)) : ClosedBy trims after text := by
  unfold ending? at h
  have htext := trimLeft_suffix text
  split at h
  · rename_i rest heq
    rw [heq] at htext
    have hrest := trimLeft_suffix rest
    split at h
    · rename_i body heq'
      rw [heq'] at hrest
      simp only [Option.map_eq_some_iff, Prod.mk.injEq, Prod.exists] at h
      obtain ⟨inner, _, _, hinner, _, rfl, rfl⟩ := h
      apply (closedBy_of_literalBody? hinner).of_suffix
      exact (List.suffix_cons _ _).trans (hrest.trans ((List.suffix_cons _ _).trans htext))
    · cases h
  · simp only [Option.map_eq_some_iff, Prod.mk.injEq, Prod.exists] at h
    obtain ⟨_, _, hclose, _, rfl, rfl⟩ := h
    exact (closedBy_of_close? hclose).of_suffix htext

theorem ending?_append {literal : Option (List Char)}
    (h : ending? text = some (literal, trims, after)) (more : List Char) :
    ending? (text ++ more) = some (literal, trims, after ++ more) := by
  have hne : Text.trimLeft text ≠ [] := by
    intro hnil
    unfold ending? at h
    rw [hnil] at h
    cases h
  unfold ending? at h ⊢
  rw [Text.trimLeft_append hne]
  cases htext : Text.trimLeft text with
  | nil => exact absurd htext hne
  | cons c rest =>
      rw [htext] at h
      by_cases hc : c = ','
      · subst hc
        simp only at h
        simp only [List.cons_append]
        have hrest : Text.trimLeft rest ≠ [] := by
          intro hnil
          rw [hnil] at h
          cases h
        rw [Text.trimLeft_append hrest]
        split at h
        · rename_i body heq
          simp only [Option.map_eq_some_iff, Prod.mk.injEq, Prod.exists] at h
          obtain ⟨inner, _, _, hinner, rfl, rfl, rfl⟩ := h
          rw [heq, List.cons_append]
          simp [literalBody?_append hinner]
        · cases h
      · simp only [List.cons_append] at h ⊢
        split at h
        · rename_i heq
          exact absurd (List.cons.inj heq).1 hc
        · split
          · rename_i heq
            exact absurd (List.cons.inj heq).1 hc
          · simp only [Option.map_eq_some_iff, Prod.mk.injEq, Prod.exists] at h
            obtain ⟨_, _, hclose, rfl, rfl, rfl⟩ := h
            have := close?_append hclose more
            rw [List.cons_append] at this
            simp [this]

theorem quoted?_append {content : List Char} (h : quoted? text = some (content, after))
    (more : List Char) : quoted? (text ++ more) = some (content, after ++ more) := by
  cases text with
  | nil => cases h
  | cons q rest =>
      rw [quoted?] at h
      rw [List.cons_append, quoted?]
      by_cases hq : q = '\'' ∨ q = '"'
      · rw [if_pos hq] at h ⊢
        split at h
        · rename_i c tail heq
          cases h
          have hne : rest.dropWhile (· ≠ q) ≠ [] := by
            rw [heq]
            exact List.cons_ne_nil c after
          have htake : (rest ++ more).takeWhile (· ≠ q) = rest.takeWhile (· ≠ q) := by
            rw [List.takeWhile_append, if_neg]
            intro hlength
            have := congrArg List.length (rest.takeWhile_append_dropWhile (p := (· ≠ q)))
            rw [List.length_append, hlength] at this
            exact hne (List.eq_nil_of_length_eq_zero (by omega))
          rw [htake, List.dropWhile_append, if_neg (by rw [heq]; exact Bool.false_ne_true), heq]
          rfl
        · cases h
      · rw [if_neg hq] at h
        cases h

theorem quoted?_suffix {content : List Char} (h : quoted? text = some (content, after)) :
    after <:+ text := by
  cases text with
  | nil => cases h
  | cons q rest =>
      rw [quoted?] at h
      split at h
      · split at h
        · rename_i c tail heq
          cases h
          have := List.dropWhile_suffix (l := rest) fun d => decide (d ≠ q)
          rw [heq] at this
          exact (List.suffix_cons c _).trans (this.trans (List.suffix_cons q rest))
        · cases h
      · cases h

theorem opening?_append {rest : List Char} (h : opening? text = some rest) (hne : rest ≠ [])
    (more : List Char) : opening? (text ++ more) = some (rest ++ more) := by
  simp only [opening?, Option.bind_eq_bind, Option.bind_eq_some_iff, Option.pure_def,
    Option.some.injEq] at h ⊢
  obtain ⟨r₁, h₁, r₂, h₂, r₃, h₃, rfl⟩ := h
  have hne₁ : Text.trimLeft r₁ ≠ [] := by
    intro hnil
    rw [hnil] at h₂
    cases h₂
  have hne₂ : Text.trimLeft r₂ ≠ [] := by
    intro hnil
    rw [hnil] at h₃
    cases h₃
  refine ⟨r₁ ++ more, Text.dropLead?_append h₁ more, r₂ ++ more, ?_, r₃ ++ more, ?_, ?_⟩
  · rw [Text.trimLeft_append hne₁]
    exact Text.dropLead?_append h₂ more
  · rw [Text.trimLeft_append hne₂]
    exact Text.dropLead?_append h₃ more
  · exact Text.trimLeft_append hne more

theorem opening?_suffix {rest : List Char} (h : opening? text = some rest) : rest <:+ text := by
  simp only [opening?, Option.bind_eq_bind, Option.bind_eq_some_iff, Option.pure_def,
    Option.some.injEq, Text.dropLead?_eq_some_iff] at h
  obtain ⟨r₁, rfl, r₂, h₂, r₃, h₃, rfl⟩ := h
  have hr₃ : r₃ <:+ Text.trimLeft r₂ := h₃ ▸ List.suffix_append _ _
  have hr₂ : r₂ <:+ Text.trimLeft r₁ := h₂ ▸ List.suffix_append _ _
  have hr₁ : r₁ <:+ ['<', '%', '-'] ++ r₁ := List.suffix_append _ _
  apply (trimLeft_suffix r₃).trans
  apply (hr₃.trans (trimLeft_suffix r₂)).trans
  exact (hr₂.trans (trimLeft_suffix r₁)).trans hr₁

/-! ## The whole directive -/

/-- A directive stands alone in its source, and takes no line end along. -/
structure Plain (d : Directive) : Prop where
  read : read? d.source = some (d, [])
  close : ∃ body, d.source = body ++ ['%', '>'] ∧ body.getLast? ≠ some '-'

instance (d : Directive) : Decidable d.Plain :=
  decidable_of_iff (read? d.source = some (d, []) ∧
      d.source = d.source.dropLast.dropLast ++ ['%', '>'] ∧
        d.source.dropLast.dropLast.getLast? ≠ some '-') <| by
    constructor
    · rintro ⟨hread, hsource, hdash⟩
      exact ⟨hread, _, hsource, hdash⟩
    · rintro ⟨hread, body, hsource, hdash⟩
      have hbody : d.source.dropLast.dropLast = body := by simp [hsource]
      rw [hbody]
      exact ⟨hread, hsource, hdash⟩

theorem eq_nil_or_getLast? (h : Text.dropLineEnd after = []) :
    after = [] ∨ after.getLast? = some '\n' := by
  have happend := Text.lineEnd_append_dropLineEnd after
  rw [h, List.append_nil] at happend
  rw [← happend]
  unfold Text.lineEnd
  split <;> simp

/-- A plain directive is read alike whatever follows it. -/
theorem Plain.read?_append {d : Directive} (h : d.Plain) (more : List Char) :
    read? (d.source ++ more) = some (d, more) := by
  obtain ⟨hread, body, hbody, hdash⟩ := h
  simp only [read?, Option.bind_eq_bind, Option.bind_eq_some_iff, Option.pure_def,
    Option.some.injEq, Prod.mk.injEq, Prod.exists] at hread
  obtain ⟨r₁, h₁, reference, r₂, h₂, literal, trims, after, h₃, hd, hleft⟩ := hread
  obtain ⟨before, hbefore, hsuffix⟩ := (closedBy_of_ending? h₃).of_suffix
    ((quoted?_suffix h₂).trans (opening?_suffix h₁))
  obtain ⟨front, hfront⟩ := hsuffix
  rw [hbody] at hfront
  have htrims : trims = false := by
    rw [← Bool.not_eq_true]
    rintro rfl
    apply hdash
    rcases eq_nil_or_getLast? hleft with rfl | hlast
    · obtain ⟨outer, inner, _, _, rfl⟩ := hbefore
      have hcancel : (front ++ outer ++ ')' :: inner ++ ['-']) ++ ['%', '>'] = body ++ ['%', '>'] := by
        simpa using hfront
      rw [← List.append_cancel_right hcancel]
      exact List.getLast?_concat
    · have := congrArg List.getLast? hfront
      simp [List.getLast?_cons, hlast] at this
  subst htrims
  have hafter : after = [] := hleft
  subst hafter
  simp only [read?, Option.bind_eq_bind, Option.bind_eq_some_iff, Option.pure_def,
    Option.some.injEq, Prod.mk.injEq, Prod.exists]
  have hr₁ : r₁ ≠ [] := by
    rintro rfl
    cases h₂
  refine ⟨r₁ ++ more, opening?_append h₁ hr₁ more, reference, r₂ ++ more, quoted?_append h₂ more,
    literal, false, more, ending?_append h₃ more, ?_, rfl⟩
  rw [← hd]
  simp

end SiteServer.Template.Directive

/-! ## Pages in parts -/

namespace SiteServer.Template

theorem directives_chars (text : List Char) (page : Page) :
    Page.directives (text.map .char ++ page) = page.directives := by
  induction text with
  | nil => rfl
  | cons c text ih => exact ih

theorem splice_chars (text : List Char) (page : Page) (expansions : List (List Char)) :
    Page.splice (text.map .char ++ page) expansions = text ++ page.splice expansions := by
  induction text with
  | nil => rfl
  | cons c text ih => exact congrArg (c :: ·) ih

theorem ranges_chars (offset : Nat) (text : List Char) (page : Page) :
    Page.ranges offset (text.map .char ++ page) = page.ranges (offset + text.length) := by
  induction text generalizing offset with
  | nil => rfl
  | cons c text ih =>
      refine (ih (offset + 1)).trans ?_
      rw [List.length_cons, Nat.add_assoc, Nat.add_comm 1]

end SiteServer.Template

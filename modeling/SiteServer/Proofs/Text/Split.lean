import Mathlib.Data.List.Infix
import Mathlib.Data.List.TakeWhile
import SiteServer.Text.Blank
import SiteServer.Text.Split

/-! # Searching and cutting a text to which more is appended. -/

namespace SiteServer.Text

/-! ## Blanks -/

theorem takeWhile_eq_nil {α : Type} {p : α → Bool} {text : List α}
    (h : ∀ c, text.head? = some c → p c = false) : text.takeWhile p = [] := by
  cases text with
  | nil => rfl
  | cons c rest => simp [h c rfl]

theorem dropWhile_eq_self {α : Type} {p : α → Bool} {text : List α}
    (h : ∀ c, text.head? = some c → p c = false) : text.dropWhile p = text := by
  cases text with
  | nil => rfl
  | cons c rest => simp [h c rfl]

theorem trimLeft_cons_of_not_blank {c : Char} (h : isBlank c = false) (rest : List Char) :
    trimLeft (c :: rest) = c :: rest := by
  simp [trimLeft, h]

theorem trimLeft_append_of_blank {blanks : List Char} (h : ∀ c ∈ blanks, isBlank c = true)
    (rest : List Char) : trimLeft (blanks ++ rest) = trimLeft rest :=
  List.dropWhile_append_of_pos h

theorem trimLeft_append {text : List Char} (h : trimLeft text ≠ []) (more : List Char) :
    trimLeft (text ++ more) = trimLeft text ++ more := by
  unfold trimLeft at *
  rw [List.dropWhile_append, if_neg]
  simpa using h

theorem exists_eq_append_trimLeft (text : List Char) :
    ∃ blanks, (∀ c ∈ blanks, isBlank c = true) ∧ text = blanks ++ trimLeft text :=
  ⟨blanksLeft text, fun _ hc => List.mem_takeWhile_imp hc, (blanksLeft_append_trimLeft text).symm⟩

/-- Cutting the blanks off both ends leaves out blanks behind what is left at the start. -/
theorem exists_trimLeft_eq (text : List Char) :
    ∃ blanks, (∀ c ∈ blanks, isBlank c = true) ∧ trimLeft text = trim text ++ blanks := by
  obtain ⟨blanks, hblanks, hsplit⟩ := exists_eq_append_trimLeft (trimLeft text).reverse
  refine ⟨blanks.reverse, ?_, ?_⟩
  · intro c hc
    exact hblanks c (List.mem_reverse.mp hc)
  · rw [trim, ← List.reverse_append, ← hsplit, List.reverse_reverse]

/-- Blanks at both ends do not matter. -/
theorem trim_blanks {front behind : List Char} (hfront : ∀ c ∈ front, isBlank c = true)
    (hbehind : ∀ c ∈ behind, isBlank c = true) (text : List Char) :
    trim (front ++ (text ++ behind)) = trim text := by
  have hreverse : ∀ c ∈ behind.reverse, isBlank c = true := by
    intro c hc
    exact hbehind c (List.mem_reverse.mp hc)
  unfold trim
  rw [trimLeft_append_of_blank hfront]
  by_cases htext : trimLeft text = []
  · have hall : ∀ c ∈ text ++ behind, isBlank c = true := by
      intro c hc
      rcases List.mem_append.mp hc with hc | hc
      · exact List.dropWhile_eq_nil_iff.mp htext c hc
      · exact hbehind c hc
    have hnil : trimLeft (text ++ behind) = [] := List.dropWhile_eq_nil_iff.mpr hall
    rw [htext, hnil]
  · rw [trimLeft_append htext, List.reverse_append, trimLeft_append_of_blank hreverse]

theorem trim_trim (text : List Char) : trim (trim text) = trim text := by
  obtain ⟨front, hfront, htext⟩ := exists_eq_append_trimLeft text
  obtain ⟨behind, hbehind, hleft⟩ := exists_trimLeft_eq text
  conv_rhs => rw [htext, hleft, trim_blanks hfront hbehind]

/-- There is nothing to cut off a text that neither starts nor ends with a blank. -/
theorem trim_eq_self {text : List Char} (hfirst : ∀ c, text.head? = some c → isBlank c = false)
    (hlast : ∀ c, text.getLast? = some c → isBlank c = false) : trim text = text := by
  have hleft : trimLeft text = text := dropWhile_eq_self hfirst
  have hright : trimLeft text.reverse = text.reverse := by
    apply dropWhile_eq_self
    rwa [List.head?_reverse]
  rw [trim, hleft, hright, List.reverse_reverse]

theorem trim_of_no_blank {text : List Char} (h : ∀ c ∈ text, isBlank c = false) : trim text = text :=
  trim_eq_self (fun c hc => h c (List.mem_of_head? hc)) fun c hc => h c (List.mem_of_getLast? hc)

/-! ## Searching -/

theorem dropLead?_append {lead text rest : List Char} (h : dropLead? lead text = some rest)
    (more : List Char) : dropLead? lead (text ++ more) = some (rest ++ more) := by
  rw [dropLead?_eq_some_iff] at *
  simp [h]

/-- A character that is not in the first part of a text stands behind it. -/
theorem exists_append_of_not_mem {α : Type} {c : α} {part rest before behind : List α} (hpart : c ∉ part)
    (h : part ++ rest = before ++ c :: behind) :
    ∃ middle, before = part ++ middle ∧ rest = middle ++ c :: behind := by
  induction part generalizing before with
  | nil => exact ⟨before, rfl, h⟩
  | cons d part ih =>
      rw [List.mem_cons, not_or] at hpart
      cases before with
      | nil => exact absurd (List.cons.inj h).1.symm hpart.1
      | cons e before =>
          obtain ⟨rfl, htail⟩ := List.cons.inj h
          obtain ⟨middle, rfl, hrest⟩ := ih hpart.2 htail
          exact ⟨middle, rfl, hrest⟩

/-- A text is passed over where the pattern occurs at none of its places, read on into what follows. -/
theorem Pattern.split_append {α : Type} {p : Pattern α} {text rest : List Char}
    (h : ∀ s, s ≠ [] → s <:+ text → p.read? (s ++ rest) = none) :
    p.split (text ++ rest) = text.map .char ++ p.split rest := by
  induction text with
  | nil => rfl
  | cons c text ih =>
      have hc := h (c :: text) (List.cons_ne_nil c text) (List.suffix_refl _)
      have htail : ∀ s, s ≠ [] → s <:+ text → p.read? (s ++ rest) = none := by
        intro s hs hsuffix
        exact h s hs (hsuffix.trans (List.suffix_cons c text))
      rw [List.cons_append] at hc ⊢
      rw [Pattern.split_char hc, ih htail]
      rfl

/-- A text is cut at the first place where `close` stands. -/
theorem splitAt?_append {close before : List Char} (after : List Char)
    (h : ∀ s, s ≠ [] → s <:+ before → dropLead? close (s ++ (close ++ after)) = none) :
    splitAt? close (before ++ (close ++ after)) = some (before, after) := by
  induction before with
  | nil =>
      have hlead : dropLead? close (close ++ after) = some after := dropLead?_eq_some_iff.mpr rfl
      rw [List.nil_append]
      cases htext : close ++ after with
      | nil =>
          rw [htext] at hlead
          rw [splitAt?, hlead]
          rfl
      | cons c rest =>
          rw [htext] at hlead
          rw [splitAt?, hlead]
  | cons c before ih =>
      have hc := h (c :: before) (List.cons_ne_nil c before) (List.suffix_refl _)
      have htail : ∀ s, s ≠ [] → s <:+ before → dropLead? close (s ++ (close ++ after)) = none := by
        intro s hs hsuffix
        exact h s hs (hsuffix.trans (List.suffix_cons c before))
      rw [List.cons_append] at hc ⊢
      rw [splitAt?, hc, ih htail]
      rfl

/-- No cut is found where `close` stands nowhere. -/
theorem splitAt?_eq_none_iff {close text : List Char} (hclose : close ≠ []) :
    splitAt? close text = none ↔ ¬ close <:+: text := by
  induction text with
  | nil =>
      cases close with
      | nil => exact absurd rfl hclose
      | cons d close => simp [splitAt?, dropLead?]
  | cons c rest ih =>
      rw [splitAt?, List.infix_cons_iff]
      cases hlead : dropLead? close (c :: rest) with
      | some after =>
          have hstart : close <+: c :: rest := ⟨after, (dropLead?_eq_some_iff.mp hlead).symm⟩
          simp [hstart]
      | none =>
          have hstart : ¬ close <+: c :: rest := by
            rintro ⟨after, hafter⟩
            rw [dropLead?_eq_some_iff.mpr hafter.symm] at hlead
            cases hlead
          simp [hstart, ih]

/-- The cut is at the first `close`: there is none in the part before it. -/
theorem not_infix_of_splitAt? {close text before after : List Char} (hclose : close ≠ [])
    (h : splitAt? close text = some (before, after)) : ¬ close <:+: before := by
  induction text generalizing before with
  | nil =>
      simp only [splitAt?, Option.map_eq_some_iff, Prod.mk.injEq] at h
      obtain ⟨_, _, rfl, _⟩ := h
      simpa using hclose
  | cons c rest ih =>
      rw [splitAt?] at h
      cases hlead : dropLead? close (c :: rest) with
      | some tail =>
          rw [hlead] at h
          cases h
          simpa using hclose
      | none =>
          rw [hlead] at h
          obtain ⟨⟨front, tail⟩, hfront, heq⟩ := Option.map_eq_some_iff.mp h
          cases heq
          intro hinfix
          rcases List.infix_cons_iff.mp hinfix with hstart | hinfix
          · have htext := eq_append_of_splitAt? hfront
            have hprefix : close <+: c :: rest := by
              rw [htext, List.append_assoc]
              exact hstart.trans (List.prefix_append (c :: front) _)
            obtain ⟨more, hmore⟩ := hprefix
            rw [dropLead?_eq_some_iff.mpr hmore.symm] at hlead
            cases hlead
          · exact ih hfront hinfix

/-- A text without a close of two different characters is cut at the close behind it: the close does not
begin inside the text either. -/
theorem splitAt?_pair {c d : Char} (hcd : c ≠ d) {before : List Char} (h : ¬ [c, d] <:+: before)
    (after : List Char) : splitAt? [c, d] (before ++ c :: d :: after) = some (before, after) := by
  refine @splitAt?_append [c, d] before after ?_
  intro s hs hsuffix
  by_contra hsome
  obtain ⟨tail, hlead⟩ := Option.ne_none_iff_exists'.mp hsome
  have htext := dropLead?_eq_some_iff.mp hlead
  match s, hs with
  | [e], _ =>
      obtain ⟨_, hsecond⟩ := List.cons.inj htext
      exact hcd (List.cons.inj hsecond).1
  | e :: f :: s, _ =>
      obtain ⟨rfl, hsecond⟩ := List.cons.inj htext
      obtain ⟨rfl, _⟩ := List.cons.inj hsecond
      exact h ((List.prefix_append [e, f] s).isInfix.trans hsuffix.isInfix)

/-- A pair of characters is in two texts together only where it is in one, or at the cut. -/
theorem not_infix_append {c d : Char} {front behind : List Char} (hfront : ¬ [c, d] <:+: front)
    (hbehind : ¬ [c, d] <:+: behind) (hhead : behind.head? ≠ some d) : ¬ [c, d] <:+: front ++ behind := by
  induction front with
  | nil => exact hbehind
  | cons e front ih =>
      rw [List.infix_cons_iff, not_or] at hfront
      rw [List.cons_append, List.infix_cons_iff, not_or]
      refine ⟨?_, ih hfront.2⟩
      intro hprefix
      obtain ⟨rfl, hrest⟩ := List.cons_prefix_cons.mp hprefix
      cases front with
      | nil =>
          obtain ⟨more, rfl⟩ := hrest
          exact hhead rfl
      | cons f front =>
          obtain ⟨rfl, _⟩ := List.cons_prefix_cons.mp hrest
          exact hfront.1 (List.prefix_append [c, d] front)

/-! ## Line ends -/

/-- What starts with no line end, nor with half of one, does not matter to the text before it. -/
theorem lineEnd_append {text more : List Char}
    (h : ∀ c, more.head? = some c → c ≠ '\r' ∧ c ≠ '\n') :
    lineEnd (text ++ more) = lineEnd text ∧ dropLineEnd (text ++ more) = dropLineEnd text ++ more := by
  rcases text with _ | ⟨c, text⟩
  · cases more with
    | nil => exact ⟨rfl, rfl⟩
    | cons d more =>
        have hd := h d rfl
        simp [lineEnd, dropLineEnd, hd]
  · by_cases hreturn : c = '\r'
    · subst hreturn
      rcases text with _ | ⟨d, text⟩
      · cases more with
        | nil => exact ⟨rfl, rfl⟩
        | cons d more =>
            have hd := h d rfl
            simp [lineEnd, dropLineEnd, hd]
      · by_cases hd : d = '\n' <;> simp [lineEnd, dropLineEnd, hd]
    · by_cases hc : c = '\n' <;> simp [lineEnd, dropLineEnd, hreturn, hc]

/-- What is left of a text when one line end, if it starts with one, is taken away. -/
inductive CutsLineEnd : List Char → List Char → Prop where
  | both {rest : List Char} : CutsLineEnd ('\r' :: '\n' :: rest) rest
  | feed {rest : List Char} : CutsLineEnd ('\n' :: rest) rest
  | none {text : List Char} (noBoth : ¬ ['\r', '\n'] <+: text) (noFeed : ¬ ['\n'] <+: text) :
      CutsLineEnd text text

theorem cutsLineEnd_iff {text rest : List Char} :
    CutsLineEnd text rest ↔ dropLineEnd text = rest := by
  constructor
  · intro h
    cases h with
    | both => rfl
    | feed => rfl
    | none noBoth noFeed =>
        unfold dropLineEnd
        split
        · exact absurd (List.prefix_append ['\r', '\n'] _) noBoth
        · exact absurd (List.prefix_append ['\n'] _) noFeed
        · rfl
  · rintro rfl
    unfold dropLineEnd
    split
    · exact .both
    · exact .feed
    · rename_i hboth hfeed
      refine .none ?_ ?_
      · rintro ⟨rest, rfl⟩
        exact hboth rest rfl
      · rintro ⟨rest, rfl⟩
        exact hfeed rest rfl

theorem CutsLineEnd.suffix {text rest : List Char} (h : CutsLineEnd text rest) : rest <:+ text := by
  cases h with
  | both => exact List.suffix_append ['\r', '\n'] rest
  | feed => exact List.suffix_append ['\n'] rest
  | none => exact List.suffix_refl text

/-- The line end is that of the text alone unless what is behind it completes one. -/
theorem CutsLineEnd.append {text rest more : List Char} (h : CutsLineEnd text rest)
    (hnil : text = [] → CutsLineEnd more more) (hreturn : text = ['\r'] → more.head? ≠ some '\n') :
    CutsLineEnd (text ++ more) (rest ++ more) := by
  cases h with
  | both => exact .both
  | feed => exact .feed
  | none noBoth noFeed =>
      rcases text with _ | ⟨c, _ | ⟨d, text⟩⟩
      · exact hnil rfl
      · refine .none ?_ (by simpa using noFeed)
        rintro ⟨tail, htail⟩
        obtain ⟨rfl, hmore⟩ := List.cons.inj htail
        exact hreturn rfl (congrArg List.head? hmore.symm)
      · exact .none (by simpa using noBoth) (by simpa using noFeed)

end SiteServer.Text

import SiteServer.Proofs.Template.Grammar
import SiteServer.Template.Compiler

/-! # The texts of lookups, and lookups as texts.

A lookup may be written in many ways: with blanks around it and inside brackets, a place with a sign and zeros
before it, a key between quotes of either kind. Each of these texts is read as what it was written for, and no
other text is read at all: a tag around it is a fault of the template. -/

namespace SiteServer.Template

theorem build_eq_error {library : Library} {tree : FileTree} {finish : Schedule} {path : Path}
    {source : List Char} {fault : TagFault} (hexpand : expand library tree finish path [path] = .ok source)
    (hfault : segmentsOf source = .error fault) :
    build library tree finish path = .error ⟨.tag fault, path, []⟩ := by
  rw [build, hexpand]
  dsimp only
  rw [hfault]

namespace Lookup

/-! ## The texts of a lookup -/

/-- The texts of a lookup: an identifier with steps behind it, and blanks around both. -/
inductive LookupText : List Char → Lookup → Prop where
  | padded {front name more behind : List Char} {steps : List Step}
      (blankFront : ∀ c ∈ front, Text.isBlank c = true)
      (blankBehind : ∀ c ∈ behind, Text.isBlank c = true)
      (ident : IsIdent name) (path : StepsText more steps) :
      LookupText (front ++ (name ++ more ++ behind))
        ⟨String.ofList (name ++ more), String.ofList name, steps⟩

theorem StepText.getLast?_not_blank {text : List Char} {step : Step} (h : StepText text step) :
    ∀ c, text.getLast? = some c → Text.isBlank c = false := by
  intro c hc
  cases h with
  | @dot name ident =>
      have hmem : c ∈ '.' :: name := List.mem_of_getLast? hc
      rcases List.mem_cons.mp hmem with rfl | hmem
      · decide
      · exact ident.not_blank c hmem
  | bracket noClose inside =>
      rw [← List.cons_append, List.getLast?_concat] at hc
      cases hc
      decide

theorem StepsText.getLast?_not_blank {text : List Char} {steps : List Step} (h : StepsText text steps) :
    ∀ c, text.getLast? = some c → Text.isBlank c = false := by
  induction h with
  | nil => simp
  | @cons text more step steps first behind ih =>
      cases more with
      | nil => simpa using first.getLast?_not_blank
      | cons d more => rwa [List.getLast?_append_of_ne_nil _ (List.cons_ne_nil d more)]

/-- There is nothing to cut off a lookup. -/
theorem trim_ident_steps {name more : List Char} {steps : List Step} (ident : IsIdent name)
    (path : StepsText more steps) : Text.trim (name ++ more) = name ++ more := by
  apply Text.trim_eq_self (ident.head?_not_blank more)
  intro c hc
  cases more with
  | nil =>
      rw [List.append_nil] at hc
      exact ident.not_blank c (List.mem_of_getLast? hc)
  | cons d more =>
      rw [List.getLast?_append_of_ne_nil _ (List.cons_ne_nil d more)] at hc
      exact path.getLast?_not_blank c hc

theorem spells_iff_lookupText {text : List Char} {lookup : Lookup} :
    Spells text lookup ↔ LookupText text lookup := by
  constructor
  · rintro ⟨hsource, name, more, htext, hname, hroot, hsteps⟩
    obtain ⟨front, hfront, hleft⟩ := Text.exists_eq_append_trimLeft text
    obtain ⟨behind, hbehind, hright⟩ := Text.exists_trimLeft_eq text
    rw [hright, htext] at hleft
    rw [htext] at hsource
    obtain ⟨source, root, steps⟩ := lookup
    cases hsource
    cases hroot
    rw [hleft]
    exact .padded hfront hbehind hname hsteps
  · intro h
    cases h with
    | padded blankFront blankBehind ident path =>
        have htrim := (Text.trim_blanks blankFront blankBehind _).trans (trim_ident_steps ident path)
        exact ⟨by rw [htrim], _, _, htrim, ident, rfl, path⟩

/-! ## Lookups as texts -/

/-- A step can be printed: no bracket closes in a key, and a place fits sixty-four bits. -/
def StepPrintable : Step → Prop
  | .key name => ']' ∉ name.toList
  | .index n => n < indexLimit

/-- How a step may be printed: a key behind a dot, if it is an identifier, or between quotes of either kind, if
no bracket closes in it; a place in its decimal digits. -/
inductive StepPrinted : Step → List Char → Prop where
  | dot {name : List Char} (ident : IsIdent name) :
      StepPrinted (.key (String.ofList name)) ('.' :: name)
  | quoted {quote : Char} {name : List Char} (isQuote : quote = '\'' ∨ quote = '"')
      (noClose : ']' ∉ name) :
      StepPrinted (.key (String.ofList name)) ('[' :: quote :: (name ++ [quote, ']']))
  | place {n : Nat} (small : n < indexLimit) :
      StepPrinted (.index n) ('[' :: (Nat.toDigits 10 n ++ [']']))

theorem numeral_toDigits (n : Nat) : Numeral (Nat.toDigits 10 n) n := by
  rw [← decimal?_eq_some_iff]
  have hne : Nat.toDigits 10 n ≠ [] := List.length_pos_iff.mp Nat.length_toDigits_pos
  have hdigits : (Nat.toDigits 10 n).all Char.isDigit = true :=
    List.all_eq_true.mpr fun c hc => Nat.isDigit_of_mem_toDigits (by decide) (by decide) hc
  have hvalue : Nat.ofDigitChars 10 (Nat.toDigits 10 n) 0 = n := Nat.ofDigitChars_ten_toDigits
  rw [Nat.ofDigitChars] at hvalue
  simp only [Nat.mul_comm] at hvalue
  rw [decimal?, if_pos ⟨hne, hdigits⟩, hvalue]

theorem Numeral.trim_eq {digits : List Char} {n : Nat} (h : Numeral digits n) :
    Text.trim digits = digits :=
  Text.trim_of_no_blank fun c hc => isBlank_eq_false_of_isDigit (h.digit c hc)

theorem trim_quoted {quote : Char} (hquote : Text.isBlank quote = false) (name : List Char) :
    Text.trim (quote :: (name ++ [quote])) = quote :: (name ++ [quote]) := by
  apply Text.trim_eq_self
  · intro c hc
    cases hc
    exact hquote
  · intro c hc
    rw [← List.cons_append, List.getLast?_concat] at hc
    cases hc
    exact hquote

/-- What a step is printed as is a text of it. -/
theorem StepPrinted.stepText {step : Step} {text : List Char} (h : StepPrinted step text) :
    StepText text step := by
  cases h with
  | dot ident => exact .dot ident
  | @quoted quote name isQuote noClose =>
      have hquote : Text.isBlank quote = false ∧ quote ≠ ']' := by
        rcases isQuote with rfl | rfl <;> decide
      have hinner : ']' ∉ quote :: (name ++ [quote]) := by
        simp [noClose, hquote.2.symm]
      have hinside := Bracketed.key isQuote name
      rw [← trim_quoted hquote.1] at hinside
      simpa using StepText.bracket hinner hinside
  | @place n small =>
      have hnumeral := numeral_toDigits n
      have hinner : ']' ∉ Nat.toDigits 10 n := by
        intro hmem
        exact absurd (hnumeral.digit _ hmem) (by decide)
      have hinside := Bracketed.place hnumeral small
      rw [← hnumeral.trim_eq] at hinside
      exact .bracket hinner hinside

theorem stepsText_of_printed {steps : List Step} {parts : List (List Char)}
    (h : List.Forall₂ StepPrinted steps parts) : StepsText parts.flatten steps := by
  induction h with
  | nil => exact .nil
  | cons first behind ih => exact .cons first.stepText ih

theorem printStep_printed {step : Step} (h : StepPrintable step) : StepPrinted step (printStep step) := by
  cases step with
  | index n => exact .place h
  | key name =>
      unfold printStep
      dsimp only
      split
      · rename_i other hident
        obtain ⟨hother, hname⟩ := ident?_eq_some hident
        rw [List.append_nil, String.toList_inj] at hname
        subst hname
        simpa using StepPrinted.dot hother
      · have hquoted := StepPrinted.quoted (.inl rfl) h
        simpa using hquoted

theorem print_printed (root : String) {steps : List Step} (h : ∀ step ∈ steps, StepPrintable step) :
    ∃ parts, List.Forall₂ StepPrinted steps parts ∧
      print root steps = root.toList ++ parts.flatten := by
  refine ⟨steps.map printStep, ?_, by rw [print, List.flatMap_def]⟩
  rw [List.forall₂_map_right_iff, List.forall₂_same]
  exact fun step hstep => printStep_printed (h step hstep)

/-! ## Texts that are no lookups -/

/-- A text that no tag can print: nothing is read from it, a tag with it is a fault that shows it, and a page
with such a tag is refused, with that fault if no tag before is at fault. -/
structure Rejected (text : List Char) : Prop where
  unread : parse? text = none
  tag : ∀ mark, mark = '=' ∨ mark = '-' → Segment.ofBody? (mark :: text) =
    .error (.unsupportedExpression (String.ofList (Text.trim text)))
  page : ∀ library tree finish path source pieces mark, mark = '=' ∨ mark = '-' →
    expand library tree finish path [path] = .ok source → Reads source pieces →
    .found (.body (mark :: text)) ∈ pieces →
    ∃ failure, build library tree finish path = .error failure ∧
      failure.kind = .compileFailed ∧ failure.path = path
  shown : ∀ library tree finish path source before behind mark, mark = '=' ∨ mark = '-' →
    expand library tree finish path [path] = .ok source →
    Reads source (before ++ .found (.body (mark :: text)) :: behind) →
    (∀ p ∈ before, ¬ Malformed p) →
    build library tree finish path =
      .error ⟨.tag (.unsupportedExpression (String.ofList (Text.trim text))), path, []⟩

theorem rejected_of_unread {text : List Char} (h : parse? text = none) : Rejected text := by
  have htag : ∀ mark, mark = '=' ∨ mark = '-' → Segment.ofBody? (mark :: text) =
      .error (.unsupportedExpression (String.ofList (Text.trim text))) := by
    rintro mark (rfl | rfl) <;> rw [Segment.ofBody?, h]
  have hpiece : ∀ mark, mark = '=' ∨ mark = '-' → Segment.ofPiece? (.found (.body (mark :: text))) =
      .error (.unsupportedExpression (String.ofList (Text.trim text))) := by
    intro mark hmark
    rw [Segment.ofPiece?, htag mark hmark]
    rfl
  refine ⟨h, htag, ?_, ?_⟩
  · intro library tree finish path source pieces mark hmark hexpand hreads hmem
    have hmalformed := exists_ofPiece?_eq_error_iff.mp ⟨_, hpiece mark hmark⟩
    obtain ⟨fault, hfault⟩ := (exists_segmentsOf_eq_error_iff hreads).mpr ⟨_, hmem, hmalformed⟩
    exact ⟨_, build_eq_error hexpand hfault, rfl, rfl⟩
  · intro library tree finish path source before behind mark hmark hexpand hreads hbefore
    exact build_eq_error hexpand (segmentsOf_first_fault hreads hbefore (hpiece mark hmark))

/-! ## The language of lookups -/

/-- What is read as a lookup is its texts, and nothing else: any other text is rejected. A lookup that is
printed, with each key in any of its ways and with blanks around the whole, is read as it was; and every root
with steps that can be printed has such a text. -/
theorem lookup_language_exact :
    (∀ text lookup, parse? text = some lookup ↔ LookupText text lookup) ∧
    (∀ root steps parts front behind, IsIdent root.toList → List.Forall₂ StepPrinted steps parts →
      (∀ c ∈ front, Text.isBlank c = true) → (∀ c ∈ behind, Text.isBlank c = true) →
      parse? (front ++ (root.toList ++ parts.flatten ++ behind)) =
        some ⟨String.ofList (root.toList ++ parts.flatten), root, steps⟩) ∧
    (∀ root steps, IsIdent root.toList → (∀ step ∈ steps, StepPrintable step) →
      (∃ parts, List.Forall₂ StepPrinted steps parts ∧ print root steps = root.toList ++ parts.flatten) ∧
      parse? (print root steps) = some ⟨String.ofList (print root steps), root, steps⟩) ∧
    ∀ text, (¬ ∃ lookup, LookupText text lookup) → Rejected text := by
  have hread (text : List Char) (lookup : Lookup) :
      parse? text = some lookup ↔ LookupText text lookup :=
    parse?_eq_some_iff.trans spells_iff_lookupText
  have hprinted (root : String) (steps : List Step) (parts : List (List Char)) (front behind : List Char)
      (hroot : IsIdent root.toList) (hparts : List.Forall₂ StepPrinted steps parts)
      (hfront : ∀ c ∈ front, Text.isBlank c = true) (hbehind : ∀ c ∈ behind, Text.isBlank c = true) :
      parse? (front ++ (root.toList ++ parts.flatten ++ behind)) =
        some ⟨String.ofList (root.toList ++ parts.flatten), root, steps⟩ := by
    have htext := LookupText.padded hfront hbehind hroot (stepsText_of_printed hparts)
    rw [String.ofList_toList] at htext
    exact (hread _ _).mpr htext
  refine ⟨hread, hprinted, fun root steps hroot hsteps => ?_, fun text hno => ?_⟩
  · have hprint := print_printed root hsteps
    refine ⟨hprint, ?_⟩
    obtain ⟨parts, hparts, heq⟩ := hprint
    have hback := hprinted root steps parts [] [] hroot hparts (by simp) (by simp)
    rwa [List.nil_append, List.append_nil, ← heq] at hback
  · apply rejected_of_unread
    rw [Option.eq_none_iff_forall_ne_some]
    intro lookup hlookup
    exact hno ⟨lookup, (hread text lookup).mp hlookup⟩

/-- A page that asks for an item beyond sixty-four bits, in its second tag. -/
def overflowPage : List Char :=
  "<%=name%><%-items[18446744073709551616]%>".toList

theorem lookup_language_exact_mixed :
    parse? " user.tags[7][\"it's\"][''] ".toList =
        some ⟨"user.tags[7][\"it's\"]['']", "user", [.key "tags", .index 7, .key "it's", .key ""]⟩ ∧
      Rejected "items[18446744073709551616]".toList ∧
      build ⟨⟨"/"⟩, ["tmpl"]⟩ ⟨[(["page.tmpl"], .file (bytesOf (String.ofList overflowPage)))]⟩ .inOrder
          ⟨"/page.tmpl"⟩ =
        .error ⟨.tag (.unsupportedExpression "items[18446744073709551616]"), ⟨"/page.tmpl"⟩, []⟩ := by
  have hroot : IsIdent "user".toList :=
    ⟨'u', "ser".toList, rfl, by decide, List.all_eq_true.mp (by decide)⟩
  have htags : IsIdent "tags".toList :=
    ⟨'t', "ags".toList, rfl, by decide, List.all_eq_true.mp (by decide)⟩
  have hparts : List.Forall₂ StepPrinted [.key "tags", .index 7, .key "it's", .key ""]
      [".tags".toList, "[7]".toList, "[\"it's\"]".toList, "['']".toList] :=
    .cons (.dot htags) (.cons (.place (by decide))
      (.cons (@StepPrinted.quoted '"' "it's".toList (.inr rfl) (by decide))
        (.cons (@StepPrinted.quoted '\'' [] (.inl rfl) (by decide)) .nil)))
  have hrejected : Rejected "items[18446744073709551616]".toList := by
    apply lookup_language_exact.2.2.2
    rintro ⟨lookup, hlookup⟩
    have hnone : parse? "items[18446744073709551616]".toList = none := by decide +kernel
    rw [(lookup_language_exact.1 _ _).mpr hlookup] at hnone
    cases hnone
  have hexpand : expand ⟨⟨"/"⟩, ["tmpl"]⟩
      ⟨[(["page.tmpl"], .file (bytesOf (String.ofList overflowPage)))]⟩ .inOrder ⟨"/page.tmpl"⟩
      [⟨"/page.tmpl"⟩] = .ok overflowPage := by decide +kernel
  have hreads : Reads overflowPage
      ([.found (.body "=name".toList)] ++
        .found (.body ('-' :: "items[18446744073709551616]".toList)) :: []) :=
    reads_iff.mpr (by decide +kernel)
  have hbefore : ∀ p ∈ [.found (.body "=name".toList)], ¬ Malformed p := by
    intro p hp
    have hname : parse? "name".toList = some ⟨"name", "name", []⟩ := by decide +kernel
    rw [List.mem_singleton.mp hp, malformed_iff, not_not]
    exact ⟨_, .escaped (parse?_eq_some_iff.mp hname)⟩
  have hblank : ∀ c ∈ [' '], Text.isBlank c = true := List.forall_mem_singleton.mpr (by decide)
  exact ⟨lookup_language_exact.2.1 "user" _ _ [' '] [' '] hroot hparts hblank hblank, hrejected,
    hrejected.shown _ _ _ _ _ _ _ '-' (.inr rfl) hexpand hreads hbefore⟩

end Lookup

end SiteServer.Template

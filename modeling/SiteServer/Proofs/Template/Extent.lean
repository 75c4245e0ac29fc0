import SiteServer.Proofs.Template.Scanning

/-! # Where a directive with an argument ends.

The close of a directive is looked for behind the braces of its argument, and inside its strings as well. So
the argument that is read is the one that is written unless one of its strings holds a brace with a close
behind it. -/

namespace SiteServer.Template

namespace Directive

/-- A directive as it is written with a literal in the place of its argument, wherever the literal that is
read may end. -/
inductive WrittenWith : List Char → String → List Char → Bool → Prop where
  | intro {opening quoted reference b₁ b₂ literal blanks close : List Char} {trims : Bool}
      (hopening : OpeningText opening) (hquoted : QuotedText quoted reference) (h₁ : Blank b₁)
      (h₂ : Blank b₂) (hblanks : Blank blanks) (hclose : CloseText close trims) :
      WrittenWith (opening ++ (quoted ++ (b₁ ++ ',' :: (b₂ ++ literal) ++ (blanks ++ close))))
        (String.ofList reference) literal trims

variable {written literal : List Char} {reference : String} {trims : Bool}

theorem WrittenWith.toWritten (h : WrittenWith written reference literal trims)
    (hliteral : LiteralText literal) : Written written reference (some literal) trims := by
  obtain ⟨hopening, hquoted, h₁, h₂, hblanks, hclose⟩ := h
  exact .intro hopening hquoted (.some h₁ h₂ hliteral) hblanks hclose

theorem Written.literalText (h : Written written reference (some literal) trims) :
    LiteralText literal := by
  generalize hargument : some literal = argument at h
  obtain ⟨_, _, h, _, _⟩ := h
  cases h with
  | none => cases hargument
  | some _ _ hliteral =>
      cases hargument
      exact hliteral

end Directive

/-- A directive with an object written as its argument, between texts in which nothing starts like a
directive, is found as a whole, with the fields of the object, exactly when no string of the argument ends
it. -/
theorem argument_found_iff (path : Path) {s : Stretch} {before literal : List Char}
    {fields : List (String × Json)} {strings : List (List Char)}
    (hwritten : Directive.WrittenWith s.written s.reference literal s.trims)
    (hobject : Arguments.ObjectText literal fields strings) (hliteral : s.literal = some literal)
    (harguments : s.arguments = some (JsonFields.ofList (Json.orderedFields fields)))
    (hbefore : NoOpening before) (hbehind : NoOpening s.gap) :
    (inclusions path (Page.ofText (before ++ s.text)).directives = .ok [s.inclusion] ∧
        (Page.ofText (before ++ s.text)).ranges 0 = Stretch.places before.length [s]) ↔
      ∀ string ∈ strings, Arguments.Harmless string := by
  rw [← hobject.literalText_iff]
  constructor
  · rintro ⟨hfound, _⟩
    obtain ⟨gap, stretches, hformed, _, hincludes, _⟩ := (scan_exact path).2 _ _ hfound
    obtain ⟨s', hs', hsame⟩ := List.mem_map.mp (hincludes ▸ List.mem_singleton_self s.inclusion)
    have hliteral' : s'.literal = some literal :=
      (congrArg (fun i : Inclusion => i.1.literal) hsame).trans hliteral
    exact (hliteral' ▸ (hformed s' hs').written).literalText
  · intro hread
    have hformed : s.Formed := by
      refine ⟨hliteral ▸ hwritten.toWritten hread, ?_⟩
      rw [hliteral, harguments]
      exact .some hobject.parse
    have hscan := (scan_exact path).1 before [s] hbefore
      (List.forall_mem_singleton.mpr ⟨hformed, hbehind⟩)
    simpa using hscan

theorem framed_writtenWith :
    Directive.WrittenWith framed.written framed.reference framedLiteral framed.trims :=
  .intro (@Directive.OpeningText.intro [' '] [' '] [' '] (by decide) (by decide) (by decide))
    (@Directive.QuotedText.intro '\'' ['a', '"'] (.inl rfl) (by decide))
    (show Directive.Blank [' '] by decide) (show Directive.Blank ['\t'] by decide)
    (show Directive.Blank ['\n'] by decide) (@Directive.CloseText.dash [' '] (by decide))

theorem argument_found_framed :
    Directive.WrittenWith framed.written framed.reference framedLiteral framed.trims ∧
      Arguments.ObjectText framedLiteral framedFields ["\x7d ) -%\x7d, %>".toList, ['u']] ∧
      NoOpening framedGap ∧ NoOpening framed.gap ∧
      inclusions ⟨"/page.tmpl"⟩ (Page.ofText (framedGap ++ framed.text)).directives =
        .ok [(framed.directive, some framedFields)] := by
  have hbefore : NoOpening framedGap := by decide +kernel
  have hbehind : NoOpening framed.gap := by decide +kernel
  have hfound := argument_found_iff ⟨"/page.tmpl"⟩ framed_writtenWith framedLiteral_written rfl rfl
    hbefore hbehind
  exact ⟨framed_writtenWith, framedLiteral_written, hbefore, hbehind, (hfound.mpr (by decide)).1⟩

/-- An argument that is cut at the brace in its string. -/
def cutLiteral : List Char :=
  "\x7ba: '\x7d) %>'\x7d".toList

def cut : Stretch where
  written := "<%- include('f', ".toList ++ cutLiteral ++ ") %>".toList
  reference := "f"
  literal := some cutLiteral
  trims := false
  arguments := some [("a", .string "\x7d) %>")]
  gap := []

theorem cutLiteral_written :
    Arguments.ObjectText cutLiteral [("a", .string "\x7d) %>")] ["\x7d) %>".toList] where
  braces := ⟨"a: '\x7d) %>'".toList, rfl⟩
  spelled := by
    have hname : Lookup.IsIdent ['a'] := ⟨'a', [], rfl, by decide, by simp⟩
    have hstring : Arguments.StringText '\'' "\x7d) %>".toList _ := .self (by decide) (by decide)
    have hspace : Json.isSpace ' ' = true := rfl
    have hvalue := Arguments.Spelled.string (.inl rfl) hstring (.mark .closeObject .nil)
    exact .mark .openObject (.key hname rfl (.mark .colon (.space hspace hvalue)))
  depth := by decide

/-- A string of an argument can end the directive: what is read of the argument breaks off inside the string,
and the page is refused. -/
theorem string_ends_directive :
    Arguments.ObjectText cutLiteral [("a", .string "\x7d) %>")] ["\x7d) %>".toList] ∧
      inclusions ⟨"/page.tmpl"⟩ (Page.ofText cut.written).directives =
        .error ⟨.arguments "\x7ba: '\x7d" .unterminatedString, ⟨"/page.tmpl"⟩, []⟩ := by
  have hdirectives : (Page.ofText cut.written).directives =
      [⟨"<%- include('f', \x7ba: '\x7d) %>".toList, "f", some "\x7ba: '\x7d".toList⟩] := by
    decide +kernel
  have hnone : Arguments.toJsonText? "\x7ba: '\x7d".toList = none := by decide +kernel
  have hparse : Arguments.parse "\x7ba: '\x7d".toList = .error .unterminatedString := by
    rw [Arguments.parse, hnone]
  refine ⟨cutLiteral_written, ?_⟩
  rw [hdirectives, inclusions, Directive.arguments]
  dsimp only
  rw [hparse]
  rfl

end SiteServer.Template

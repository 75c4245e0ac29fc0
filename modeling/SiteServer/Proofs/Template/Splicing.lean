import SiteServer.Proofs.Template.Includes
import SiteServer.Proofs.Template.Spelling
import SiteServer.Proofs.Template.Tokens
import SiteServer.Proofs.Text.Places
import SiteServer.Proofs.Text.Slice

/-! # Places of directives in a text, and putting expansions there.

A scan notes where each directive starts and where it ends, in bytes. It goes on behind the close of a
directive, while the place that it notes may lie behind a line end after that. As no directive starts in a
line end, the places are apart all the same; what lies between them are the gaps of the page, and expansions
are put into the text by cutting it at these places. -/

namespace SiteServer.Template

open Text (cutAt? slice? cutAt?_eq_some_iff slice?_eq_some_iff)
open Text.Utf8 (byteSize encodeChar)

/-! ## Scanning with places -/

/-- A directive up to its close, and whether it takes along a line end behind it. -/
structure Directive.Bare where
  directive : Directive
  trims : Bool
  deriving DecidableEq, Repr

namespace Directive.Bare

variable {text after : List Char} {b : Bare}

/-- The directive at the start of a text, and the text behind its close. -/
def read? (text : List Char) : Option (Bare × List Char) := do
  let rest ← opening? text
  let (reference, rest) ← quoted? rest
  let (literal, trims, after) ← ending? rest
  return (⟨⟨text.take (text.length - after.length), String.ofList reference, literal⟩, trims⟩, after)

theorem source_append (h : read? text = some (b, after)) : b.directive.source ++ after = text := by
  simp only [read?, Option.bind_eq_bind, Option.bind_eq_some_iff, Option.pure_def, Option.some.injEq,
    Prod.mk.injEq, Prod.exists] at h
  obtain ⟨r₁, h₁, reference, r₂, h₂, literal, trims, _, h₃, rfl, rfl⟩ := h
  obtain ⟨close, _, hclose⟩ := closedBy_of_ending? h₃
  have hsuffix := (List.suffix_append (close ++ ['>']) _).trans (by simpa using hclose)
  exact List.suffix_iff_eq_append.mp (hsuffix.trans ((quoted?_suffix h₂).trans (opening?_suffix h₁)))

theorem read?_length (h : read? text = some (b, after)) : after.length < text.length := by
  simp only [read?, Option.bind_eq_bind, Option.bind_eq_some_iff, Option.pure_def, Option.some.injEq,
    Prod.mk.injEq, Prod.exists] at h
  obtain ⟨r₁, h₁, reference, r₂, h₂, literal, trims, _, h₃, rfl, rfl⟩ := h
  exact (ending?_length h₃).trans ((quoted?_length h₂).trans (opening?_length h₁))

/-- Directives as a search pattern that goes on behind their close. -/
def pattern : Text.Pattern Bare where
  read? := read?
  read?_shorter := read?_length

/-- The place at which a directive ends that starts at another, with the line end that it takes along. -/
def stop? (text : List Char) (start : Nat) (b : Bare) : Option Nat :=
  let stop := start + byteSize b.directive.source
  if b.trims then (cutAt? text stop).map fun (_, rest) => stop + byteSize (Text.lineEnd rest)
  else some stop

end Directive.Bare

structure Span where
  start : Nat
  stop : Nat
  deriving DecidableEq, Repr

/-- What a scan notes of a directive. -/
structure Found where
  span : Span
  reference : String
  arguments : Option JsonFields

/-- The directives of a text among the pieces from a place on. -/
def foundFrom? (path : Path) (text : List Char) (place : Nat) :
    List (Text.Piece Directive.Bare) → Option (Except Failure (List Found))
  | [] => some (.ok [])
  | .char c :: rest => foundFrom? path text (place + (encodeChar c).length) rest
  | .found b :: rest => do
    let stop ← b.stop? text place
    match b.directive.arguments with
    | .error fault =>
      return .error ⟨.arguments (String.ofList (b.directive.literal.getD [])) fault, path, []⟩
    | .ok arguments =>
      let others ← foundFrom? path text (place + byteSize b.directive.source) rest
      return others.map (⟨⟨place, stop⟩, b.directive.reference, arguments⟩ :: ·)

/-- Finds the directives of a text, in order. There is nothing when the text would have to be cut inside a
character or behind its end. -/
def scan? (path : Path) (text : List Char) : Option (Except Failure (List Found)) :=
  foundFrom? path text 0 (Directive.Bare.pattern.split text)

/-- Puts expansions into a text from a place on, each for the part of the text that it stands for. -/
def spliceFrom? (text : List Char) (cursor : Nat) : List (Span × List Char) → Option (List Char)
  | [] => slice? text cursor (byteSize text)
  | (span, expansion) :: rest => do
    let gap ← slice? text cursor span.start
    let behind ← spliceFrom? text span.stop rest
    return gap ++ (expansion ++ behind)

/-- Puts the expansions of directives into a text. There is nothing when the text would have to be cut inside
a character or out of order. -/
def splice? (text : List Char) (found : List Found) (expansions : List (List Char)) : Option (List Char) :=
  spliceFrom? text 0 ((found.map Found.span).zip expansions)

/-! ## The places of a page -/

namespace Page

/-- The places of the directives of a page that starts at a place. -/
def spans (place : Nat) : Page → List Span
  | [] => []
  | .char c :: rest => spans (place + (encodeChar c).length) rest
  | .found d :: rest =>
    ⟨place, place + byteSize d.source⟩ :: spans (place + byteSize d.source) rest

/-- The texts between the directives of a page, and those before the first and behind the last. -/
def gaps : Page → List (List Char)
  | [] => [[]]
  | .char c :: rest => (gaps rest).modifyHead (c :: ·)
  | .found _ :: rest => [] :: gaps rest

end Page

/-- The parts between spans, from a place on up to another. -/
def Span.between (cursor stop : Nat) : List Span → List Span
  | [] => [⟨cursor, stop⟩]
  | span :: rest => ⟨cursor, span.start⟩ :: between span.stop stop rest

def Span.part? (text : List Char) (span : Span) : Option (List Char) :=
  slice? text span.start span.stop

/-- Texts with others between them, one less. -/
def alternate : List (List Char) → List (List Char) → List Char
  | gap :: gaps, part :: parts => gap ++ (part ++ alternate gaps parts)
  | gaps, _ => gaps.flatten

/-- Spans and the gaps between them make up a text: each of them is a part of the text, none of the spans is
empty, and they are in order and apart. -/
structure Partition (text : List Char) (spans : List Span) (sources gaps : List (List Char)) : Prop where
  nonempty : ∀ s ∈ spans, s.start < s.stop
  ordered : spans.Pairwise fun s t => s.stop ≤ t.start
  parts : spans.mapM (Span.part? text) = some sources
  between : (Span.between 0 (byteSize text) spans).mapM (Span.part? text) = some gaps
  whole : alternate gaps sources = text

def Found.ofInclusion (span : Span) (i : Inclusion) : Found :=
  ⟨span, i.1.reference, i.2⟩

/-! ## A scan finds the directives of the page -/

section Scan

variable {text front after left : List Char} {d : Directive} {b : Directive.Bare} {path : Path}

theorem Directive.marked_bare : Marked Directive.Bare.pattern := by
  intro text b rest h
  simp only [Bare.pattern, Bare.read?, opening?, Option.bind_eq_bind, Option.bind_eq_some_iff,
    Text.dropLead?_eq_some_iff] at h
  obtain ⟨_, ⟨r, rfl, _⟩, _⟩ := h
  exact ⟨_, rfl⟩

theorem Directive.mark_not_mem_taken (trims : Bool) (after : List Char) : '<' ∉ taken trims after := by
  unfold taken Text.lineEnd
  split
  · split <;> simp
  · simp

/-- A directive is read together with the line end that it takes along, or without it. -/
theorem Directive.read?_eq_some_iff_bare : Directive.read? text = some (d, left) ↔
    ∃ b after, Bare.read? text = some (b, after) ∧ left = remaining b.trims after ∧
      d = ⟨b.directive.source ++ taken b.trims after, b.directive.reference, b.directive.literal⟩ := by
  have htake {b : Bare} {after : List Char} (h : Bare.read? text = some (b, after)) :
      text.take (text.length - (remaining b.trims after).length) =
        b.directive.source ++ taken b.trims after := by
    have htext : text = (b.directive.source ++ taken b.trims after) ++ remaining b.trims after := by
      rw [List.append_assoc, taken_append_remaining, Bare.source_append h]
    conv_lhs => rw [htext, List.length_append, Nat.add_sub_cancel, List.take_left]
  constructor
  · intro h
    simp only [Directive.read?, Option.bind_eq_bind, Option.bind_eq_some_iff, Option.pure_def,
      Option.some.injEq, Prod.mk.injEq, Prod.exists] at h
    obtain ⟨r₁, h₁, reference, r₂, h₂, literal, trims, after, h₃, rfl, rfl⟩ := h
    have hread : Bare.read? text = some (⟨⟨text.take (text.length - after.length),
        String.ofList reference, literal⟩, trims⟩, after) := by
      simp [Bare.read?, h₁, h₂, h₃]
    exact ⟨_, after, hread, rfl, congrArg (Directive.mk · _ _) (htake hread)⟩
  · rintro ⟨b, after, hread, rfl, rfl⟩
    have hsource := htake hread
    simp only [Bare.read?, Option.bind_eq_bind, Option.bind_eq_some_iff, Option.pure_def,
      Option.some.injEq, Prod.mk.injEq, Prod.exists] at hread
    obtain ⟨r₁, h₁, reference, r₂, h₂, literal, trims, _, h₃, rfl, rfl⟩ := hread
    rw [← hsource]
    simp [Directive.read?, h₁, h₂, h₃, remaining]

theorem Directive.bareRead?_eq_none (h : Directive.read? text = none) : Bare.read? text = none := by
  by_contra hsome
  obtain ⟨⟨b, after⟩, hread⟩ := Option.ne_none_iff_exists'.mp hsome
  rw [Directive.read?_eq_some_iff_bare.mpr ⟨b, after, hread, rfl, rfl⟩] at h
  cases h

theorem foundFrom?_chars (path : Path) (whole text : List Char) (place : Nat)
    (pieces : List (Text.Piece Directive.Bare)) :
    foundFrom? path whole place (text.map .char ++ pieces) =
      foundFrom? path whole (place + byteSize text) pieces := by
  induction text generalizing place with
  | nil => rfl
  | cons c text ih =>
      rw [Text.Utf8.byteSize_cons, ← Nat.add_assoc]
      exact ih _

/-- The end of a directive is behind the line end that it takes along. -/
theorem Directive.Bare.stop?_eq (b : Bare) (front after : List Char) :
    b.stop? (front ++ (b.directive.source ++ after)) (byteSize front) =
      some (byteSize front + byteSize (b.directive.source ++ taken b.trims after)) := by
  have hcut : cutAt? (front ++ (b.directive.source ++ after)) (byteSize front + byteSize b.directive.source) =
      some (front ++ b.directive.source, after) :=
    cutAt?_eq_some_iff.mpr ⟨(List.append_assoc _ _ _).symm, Text.Utf8.byteSize_append _ _⟩
  unfold stop? taken
  cases b.trims with
  | false => simp
  | true => simp [hcut, Nat.add_assoc]

/-- A scan finds the directives of the page of a text, each at its place. -/
theorem foundFrom?_eq (path : Path) (front text : List Char) :
    foundFrom? path (front ++ text) (byteSize front) (Directive.Bare.pattern.split text) =
      some ((inclusions path (Page.ofText text).directives).map
        (List.zipWith Found.ofInclusion ((Page.ofText text).spans (byteSize front)))) := by
  unfold Page.ofText
  induction text using Directive.pattern.next_induction generalizing front with
  | nil => simp [foundFrom?, Page.directives, Page.spans, inclusions, Except.map]
  | next text rest hnext ih =>
      cases hnext with
      | @char c rest none =>
          have hbare : Directive.Bare.pattern.read? (c :: rest) = Option.none :=
            Directive.bareRead?_eq_none none
          have hrest := ih (front ++ [c])
          rw [Text.Utf8.byteSize_append, List.append_assoc] at hrest
          rw [Text.Pattern.split_char hbare, Text.Pattern.split_char none]
          exact hrest
      | @found text left d read =>
          obtain ⟨b, after, hbare, rfl, rfl⟩ := Directive.read?_eq_some_iff_bare.mp read
          have hafter : after = Directive.taken b.trims after ++ Directive.remaining b.trims after :=
            (Directive.taken_append_remaining b.trims after).symm
          have hpass : Directive.Bare.pattern.split after =
              (Directive.taken b.trims after).map .char ++
                Directive.Bare.pattern.split (Directive.remaining b.trims after) := by
            conv_lhs => rw [hafter]
            exact Directive.marked_bare.split_quiet
              (quiet_of_not_mem (Directive.mark_not_mem_taken b.trims after))
          have hrest := ih (front ++ (b.directive.source ++ Directive.taken b.trims after))
          have hwhole : front ++ (b.directive.source ++ Directive.taken b.trims after) ++
              Directive.remaining b.trims after = front ++ (b.directive.source ++ after) := by
            rw [List.append_assoc, List.append_assoc, ← hafter]
          have hplace : byteSize (front ++ (b.directive.source ++ Directive.taken b.trims after)) =
              byteSize front + byteSize b.directive.source + byteSize (Directive.taken b.trims after) := by
            simp [Nat.add_assoc]
          rw [hwhole, hplace] at hrest
          rw [Text.Pattern.split_found (p := Directive.Bare.pattern) hbare,
            Text.Pattern.split_found (p := Directive.pattern) read, foundFrom?,
            ← Directive.Bare.source_append hbare, Directive.Bare.stop?_eq, hpass, foundFrom?_chars, hrest,
            Page.directives, Page.spans, inclusions]
          have harguments : Directive.arguments ⟨b.directive.source ++ Directive.taken b.trims after,
              b.directive.reference, b.directive.literal⟩ = b.directive.arguments := rfl
          rw [harguments, Text.Utf8.byteSize_append, ← Nat.add_assoc]
          cases b.directive.arguments with
          | error fault => rfl
          | ok arguments =>
              dsimp only [Option.bind_eq_bind, Option.bind_some]
              cases inclusions path (Page.directives
                (Directive.pattern.split (Directive.remaining b.trims after))) with
              | error failure => rfl
              | ok others => rfl

end Scan

/-! ## Cutting a text at the places of its page -/

section Pages

variable {page : Page} {expansions : List (List Char)}

theorem source_ofText (text : List Char) : (Page.ofText text).source = text := by
  unfold Page.ofText
  induction text using Directive.pattern.next_induction with
  | nil => simp [Page.source]
  | next text rest hnext ih =>
      cases hnext with
      | char none =>
          rw [Text.Pattern.split_char none, Page.source, ih]
      | found read =>
          obtain ⟨b, after, hbare, rfl, rfl⟩ := Directive.read?_eq_some_iff_bare.mp read
          rw [Text.Pattern.split_found (p := Directive.pattern) read, Page.source, ih, List.append_assoc,
            Directive.taken_append_remaining, Directive.Bare.source_append hbare]

theorem ne_nil_of_mem_directives {text : List Char} {d : Directive}
    (h : d ∈ (Page.ofText text).directives) : d.source ≠ [] := by
  unfold Page.ofText at h
  induction text using Directive.pattern.next_induction with
  | nil => simp [Page.directives] at h
  | next text rest hnext ih =>
      cases hnext with
      | char none =>
          rw [Text.Pattern.split_char none] at h
          exact ih h
      | @found text rest first read =>
          rw [Text.Pattern.split_found (p := Directive.pattern) read, Page.directives] at h
          rcases List.mem_cons.mp h with rfl | h
          · obtain ⟨written, trims, after, hwritten, _, hsource, _⟩ := Directive.read?_eq_some_iff.mp read
            obtain ⟨blanks, more, _, rfl⟩ := hwritten.exists_core
            simp [hsource]
          · exact ih h

theorem length_spans (page : Page) (place : Nat) : (page.spans place).length = page.directives.length := by
  induction page generalizing place with
  | nil => rfl
  | cons piece rest ih =>
      cases piece with
      | char c => exact ih _
      | found d => exact congrArg (· + 1) (ih _)

/-- The spans of a page come one after the other. -/
theorem spans_ordered (page : Page) (place : Nat) :
    (∀ s ∈ page.spans place, place ≤ s.start) ∧
      (page.spans place).Pairwise fun s t => s.stop ≤ t.start := by
  induction page generalizing place with
  | nil => simp [Page.spans]
  | cons piece rest ih =>
      cases piece with
      | char c =>
          obtain ⟨hstart, hordered⟩ := ih (place + (encodeChar c).length)
          exact ⟨fun s hs => Nat.le_of_add_right_le (hstart s hs), hordered⟩
      | found d =>
          obtain ⟨hstart, hordered⟩ := ih (place + byteSize d.source)
          refine ⟨fun s hs => ?_, List.pairwise_cons.mpr ⟨hstart, hordered⟩⟩
          rcases List.mem_cons.mp hs with rfl | hs
          · exact Nat.le_refl _
          · exact Nat.le_of_add_right_le (hstart s hs)

theorem start_lt_stop_of_mem_spans (h : ∀ d ∈ page.directives, d.source ≠ []) {place : Nat} {s : Span}
    (hs : s ∈ page.spans place) : s.start < s.stop := by
  induction page generalizing place with
  | nil => simp [Page.spans] at hs
  | cons piece rest ih =>
      cases piece with
      | char c => exact ih h hs
      | found d =>
          rcases List.mem_cons.mp hs with rfl | hs
          · have hsource : byteSize d.source ≠ 0 := fun hzero =>
              h d List.mem_cons_self (Text.Utf8.byteSize_eq_zero_iff.mp hzero)
            exact Nat.lt_add_of_pos_right (Nat.pos_of_ne_zero hsource)
          · exact ih (fun e he => h e (List.mem_cons_of_mem d he)) hs

theorem part?_eq_some (front part behind : List Char) :
    Span.part? (front ++ (part ++ behind)) ⟨byteSize front, byteSize front + byteSize part⟩ = some part :=
  slice?_eq_some_iff.mpr ⟨front, behind, rfl, rfl, rfl⟩

/-- The spans of a page are the places of its directives. -/
theorem mapM_part?_spans (front : List Char) (page : Page) :
    (page.spans (byteSize front)).mapM (Span.part? (front ++ page.source)) =
      some (page.directives.map Directive.source) := by
  induction page generalizing front with
  | nil => rfl
  | cons piece rest ih =>
      cases piece with
      | char c =>
          have hrest := ih (front ++ [c])
          rw [Text.Utf8.byteSize_append, List.append_assoc] at hrest
          exact hrest
      | found d =>
          have hrest := ih (front ++ d.source)
          rw [Text.Utf8.byteSize_append, List.append_assoc] at hrest
          rw [Page.spans, Page.source, List.mapM_cons, part?_eq_some, hrest]
          rfl

theorem modifyHead_nil_append (gaps : List (List Char)) : gaps.modifyHead ([] ++ ·) = gaps := by
  cases gaps <;> rfl

/-- Between the spans of a page are its gaps. The first may have begun before the page. -/
theorem mapM_part?_between (front gap : List Char) (page : Page) :
    (Span.between (byteSize front) (byteSize (front ++ (gap ++ page.source)))
        (page.spans (byteSize front + byteSize gap))).mapM (Span.part? (front ++ (gap ++ page.source))) =
      some (page.gaps.modifyHead (gap ++ ·)) := by
  induction page generalizing front gap with
  | nil =>
      have hpart := part?_eq_some front gap []
      rw [List.append_nil] at hpart
      simp [Page.spans, Page.source, Page.gaps, Span.between, hpart]
  | cons piece rest ih =>
      cases piece with
      | char c =>
          have hrest := ih front (gap ++ [c])
          rw [Text.Utf8.byteSize_append gap, List.append_assoc, ← Nat.add_assoc] at hrest
          rw [Page.gaps, Page.spans, Page.source, List.modifyHead_modifyHead]
          simpa [Function.comp_def] using hrest
      | found d =>
          have hrest := ih (front ++ (gap ++ d.source)) []
          have hwhole : front ++ (gap ++ d.source) ++ ([] ++ Page.source rest) =
              front ++ (gap ++ (d.source ++ Page.source rest)) := by simp
          have hplace : byteSize (front ++ (gap ++ d.source)) =
              byteSize front + byteSize gap + byteSize d.source := by simp [Nat.add_assoc]
          rw [hwhole, hplace, Text.Utf8.byteSize_nil, Nat.add_zero, modifyHead_nil_append] at hrest
          rw [Page.spans, Page.source, Page.gaps, Span.between, List.mapM_cons, part?_eq_some, hrest]
          simp

theorem alternate_modifyHead (c : Char) {gaps : List (List Char)} (h : gaps ≠ []) (parts : List (List Char)) :
    alternate (gaps.modifyHead (c :: ·)) parts = c :: alternate gaps parts := by
  obtain ⟨gap, gaps, rfl⟩ := List.exists_cons_of_ne_nil h
  cases parts <;> rfl

theorem gaps_ne_nil (page : Page) : page.gaps ≠ [] := by
  induction page with
  | nil => simp [Page.gaps]
  | cons piece rest ih =>
      cases piece with
      | char c => simpa [Page.gaps] using ih
      | found d => simp [Page.gaps]

/-- A page with expansions in it has its gaps and the expansions by turns. -/
theorem splice_eq_alternate (h : expansions.length = page.directives.length) :
    page.splice expansions = alternate page.gaps expansions := by
  induction page generalizing expansions with
  | nil =>
      obtain rfl := List.eq_nil_of_length_eq_zero h
      rfl
  | cons piece rest ih =>
      cases piece with
      | char c => rw [Page.splice, Page.gaps, alternate_modifyHead c (gaps_ne_nil rest), ih h]
      | found d =>
          obtain ⟨expansion, expansions, rfl⟩ := List.exists_cons_of_length_eq_add_one h
          rw [Page.splice, Page.gaps, alternate, ih (Nat.succ.inj h), List.nil_append]

theorem splice_sources (page : Page) : page.splice (page.directives.map Directive.source) = page.source := by
  induction page with
  | nil => rfl
  | cons piece rest ih =>
      cases piece with
      | char c => exact congrArg (c :: ·) ih
      | found d => exact congrArg (d.source ++ ·) ih

/-- Expansions are put between the gaps that spans leave, whatever the spans are. -/
theorem spliceFrom?_eq {spans : List Span} (h : expansions.length = spans.length) (text : List Char)
    (cursor : Nat) : spliceFrom? text cursor (spans.zip expansions) =
      ((Span.between cursor (byteSize text) spans).mapM (Span.part? text)).map (alternate · expansions) := by
  induction spans generalizing cursor expansions with
  | nil =>
      obtain rfl := List.eq_nil_of_length_eq_zero h
      rw [List.zip_nil_left, spliceFrom?, Span.between, List.mapM_cons, Span.part?]
      cases slice? text cursor (byteSize text) with
      | none => rfl
      | some gap => simp [alternate]
  | cons span spans ih =>
      obtain ⟨expansion, expansions, rfl⟩ := List.exists_cons_of_length_eq_add_one h
      rw [List.zip_cons_cons, spliceFrom?, ih (Nat.succ.inj h), Span.between, List.mapM_cons, Span.part?]
      cases slice? text cursor span.start with
      | none => rfl
      | some gap => cases (Span.between span.stop (byteSize text) spans).mapM (Span.part? text) <;> rfl

end Pages

/-! ## The places that a scan finds -/

theorem map_ofInclusion {spans : List Span} {includes : List Inclusion} (h : spans.length = includes.length) :
    (List.zipWith Found.ofInclusion spans includes).map Found.span = spans ∧
      (List.zipWith Found.ofInclusion spans includes).map (fun f => (f.reference, f.arguments)) =
        includes.map fun i => (i.1.reference, i.2) := by
  induction spans generalizing includes with
  | nil =>
      obtain rfl := List.eq_nil_of_length_eq_zero h.symm
      exact ⟨rfl, rfl⟩
  | cons s spans ih =>
      obtain ⟨i, includes, rfl⟩ := List.exists_cons_of_length_eq_add_one h.symm
      obtain ⟨hspans, hincludes⟩ := ih (Nat.succ.inj h)
      exact ⟨congrArg (s :: ·) hspans, congrArg (_ :: ·) hincludes⟩

/-- The places that a scan finds and the gaps between them make up the text. Expansions can always be put at
these places, and are then in the text by turns with the gaps; the texts of the directives themselves give the
text again. -/
theorem scan_partitions_text (path : Path) {text : List Char} {includes : List Inclusion}
    (h : inclusions path (Page.ofText text).directives = .ok includes) :
    ∃ found gaps, scan? path text = some (.ok found) ∧
      found.map (fun f => (f.reference, f.arguments)) = includes.map (fun i => (i.1.reference, i.2)) ∧
      Partition text (found.map Found.span) (includes.map fun i => i.1.source) gaps ∧
      (∀ expansions : List (List Char), expansions.length = found.length →
        splice? text found expansions = some (alternate gaps expansions) ∧
          (Page.ofText text).splice expansions = alternate gaps expansions) ∧
      splice? text found (includes.map fun i => i.1.source) = some text := by
  obtain ⟨hdirectives, _⟩ := inclusions_eq_ok_iff.mp h
  have hsource := source_ofText text
  have hscan := foundFrom?_eq path [] text
  rw [h] at hscan
  have hne := fun d => @ne_nil_of_mem_directives text d
  generalize Page.ofText text = page at *
  have hsources : includes.map (fun i => i.1.source) = page.directives.map Directive.source := by
    rw [← hdirectives, List.map_map]
    rfl
  have hlength : (page.spans 0).length = includes.length := by
    rw [length_spans, ← hdirectives, List.length_map]
  obtain ⟨hspans, hcontents⟩ := map_ofInclusion hlength
  have hgaps : (Span.between 0 (byteSize text) (page.spans 0)).mapM (Span.part? text) = some page.gaps := by
    have hbetween := mapM_part?_between [] [] page
    rw [modifyHead_nil_append] at hbetween
    simpa [hsource] using hbetween
  have hspliced {expansions : List (List Char)} (hexpansions : expansions.length = page.directives.length) :
      splice? text (List.zipWith Found.ofInclusion (page.spans 0) includes) expansions =
        some (alternate page.gaps expansions) := by
    rw [splice?, hspans, spliceFrom?_eq (by rw [hexpansions, length_spans]), hgaps]
    rfl
  have hwhole : alternate page.gaps (page.directives.map Directive.source) = text := by
    rw [← splice_eq_alternate (by rw [List.length_map]), splice_sources, hsource]
  refine ⟨List.zipWith Found.ofInclusion (page.spans 0) includes, page.gaps, hscan, hcontents, ?_, ?_, ?_⟩
  · rw [hspans, hsources]
    refine ⟨fun s hs => start_lt_stop_of_mem_spans hne hs, (spans_ordered page 0).2, ?_, hgaps, hwhole⟩
    simpa [hsource] using mapM_part?_spans [] page
  · intro expansions hexpansions
    have hcount : expansions.length = page.directives.length := by
      rw [hexpansions, ← List.length_map (f := Found.span), hspans, length_spans]
    exact ⟨hspliced hcount, splice_eq_alternate hcount⟩
  · rw [hsources, hspliced (by rw [List.length_map]), hwhole]

/-- Directives side by side, of which the first takes a line end along, between characters of two bytes. -/
def sideBySide : List Char :=
  "é<%- include('a') -%>\r\n<%-include(\"b\")%>ü".toList

theorem scan_partitions_sideBySide :
    inclusions ⟨"/page.tmpl"⟩ (Page.ofText sideBySide).directives =
        .ok [(⟨"<%- include('a') -%>\r\n".toList, "a", none⟩, none),
          (⟨"<%-include(\"b\")%>".toList, "b", none⟩, none)] ∧
      ∃ found, scan? ⟨"/page.tmpl"⟩ sideBySide = some (.ok found) ∧
        found.map Found.span = [⟨2, 24⟩, ⟨24, 41⟩] ∧
        splice? sideBySide found [['A'], ['B']] = some ['é', 'A', 'B', 'ü'] := by
  have hdirectives : (Page.ofText sideBySide).directives =
      [⟨"<%- include('a') -%>\r\n".toList, "a", none⟩, ⟨"<%-include(\"b\")%>".toList, "b", none⟩] := by
    decide +kernel
  have hincludes : inclusions ⟨"/page.tmpl"⟩ (Page.ofText sideBySide).directives = .ok
      [(⟨"<%- include('a') -%>\r\n".toList, "a", none⟩, none),
        (⟨"<%-include(\"b\")%>".toList, "b", none⟩, none)] := by
    rw [hdirectives]
    rfl
  obtain ⟨found, gaps, hscan, hcontents, _, hspliced, _⟩ := scan_partitions_text _ hincludes
  have hlength : found.length = 2 := by simpa using congrArg List.length hcontents
  have hspans : (scan? ⟨"/page.tmpl"⟩ sideBySide).map (Except.map (List.map Found.span)) =
      some (.ok [⟨2, 24⟩, ⟨24, 41⟩]) := by decide +kernel
  rw [hscan] at hspans
  obtain ⟨hplaced, hpage⟩ := hspliced [['A'], ['B']] hlength.symm
  have hwhole : (Page.ofText sideBySide).splice [['A'], ['B']] = ['é', 'A', 'B', 'ü'] := by decide +kernel
  refine ⟨hincludes, found, hscan, Except.ok.inj (Option.some.inj hspans), ?_⟩
  rw [hplaced, ← hpage, hwhole]

end SiteServer.Template

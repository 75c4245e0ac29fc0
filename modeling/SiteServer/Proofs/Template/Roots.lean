import SiteServer.Proofs.Template.Grammar
import SiteServer.Proofs.Template.Rendering

/-! # What a template reads of its data.

The lookup of a tag starts with an identifier, its root, and this names the only property of the data that the
tag asks for, unless it is the name for the data as a whole. So a template without that name cannot tell two
objects apart that agree on the roots in its tags: it prints the same on both, or fails in the same way. -/

namespace SiteServer.Template

variable {text inner : List Char} {name : String} {segments : List Segment} {data other : Json}

/-! ## Roots of tags -/

/-- A text between the marks of a tag starts with an identifier, up to the first character that does not go on
in it; blanks before it do not matter. -/
def Lookup.RootOf (inner : List Char) (name : String) : Prop :=
  ∃ more, Text.trim inner = name.toList ++ more ∧ IsIdent name.toList ∧
    ∀ d, more.head? = some d → isIdentRest d = false

/-- A tag that prints a lookup, escaped or as it is, with its root. -/
inductive RootTag : Text.Piece Tag → String → Prop where
  | intro {mark : Char} {inner : List Char} {name : String} (prints : mark = '=' ∨ mark = '-')
      (root : Lookup.RootOf inner name) : RootTag (.found (.body (mark :: inner))) name

/-- A name is the root in some tag of a text. -/
def HasRoot (text : List Char) (name : String) : Prop :=
  ∃ pieces, Reads text pieces ∧ ∃ p ∈ pieces, RootTag p name

theorem Lookup.RootOf.unique {first : String} (h : RootOf inner name) (hfirst : RootOf inner first) :
    name = first := by
  obtain ⟨more, htrim, hname, hmore⟩ := h
  obtain ⟨others, htrim', hfirst, hothers⟩ := hfirst
  have hread := hname.ident? hmore
  rw [← htrim, htrim', hfirst.ident? hothers] at hread
  simpa using (Prod.mk.inj (Option.some.inj hread)).1.symm

theorem Lookup.Spells.rootOf {lookup : Lookup} (h : lookup.Spells inner) : RootOf inner lookup.root := by
  obtain ⟨root, more, htrim, hroot, heq, hsteps⟩ := h.path
  rw [heq]
  refine ⟨more, ?_, ?_, hsteps.head⟩
  · rw [String.toList_ofList, htrim]
  · rwa [String.toList_ofList]

/-! ## Lookups of segments -/

theorem lookupsOf_append (first second : List Segment) :
    lookupsOf (first ++ second) = lookupsOf first ++ lookupsOf second :=
  List.filterMap_append

/-- No lookup is at the seam where segments are put together. -/
theorem lookupsOf_join (first second : List Segment) :
    lookupsOf (joinSegments first second) = lookupsOf first ++ lookupsOf second := by
  unfold lookupsOf
  rw [List.filterMap_eq_flatMap_toList, List.filterMap_eq_flatMap_toList,
    List.filterMap_eq_flatMap_toList]
  exact flatMap_join (fun s t => rfl) first second

theorem rootTag_iff {mark : Char} {lookup : Lookup} (hmark : mark = '=' ∨ mark = '-')
    (hspells : lookup.Spells inner) : RootTag (.found (.body (mark :: inner))) name ↔ lookup.root = name := by
  constructor
  · intro h
    cases h with
    | intro prints root => exact hspells.rootOf.unique root
  · rintro rfl
    exact .intro hmark hspells.rootOf

/-- The root of a lookup that a piece makes is the one in its tag. -/
theorem Makes.rootTag_iff {p : Text.Piece Tag} {part : List Segment} (h : Makes p part) :
    RootTag p name ↔ ∃ lookup ∈ lookupsOf part, lookup.root = name := by
  cases h with
  | char c =>
      constructor
      · rintro ⟨⟩
      · simp [lookupsOf, Segment.lookup?]
  | literal =>
      constructor
      · rintro ⟨⟩
      · simp [lookupsOf, Segment.lookup?]
  | comment note =>
      constructor
      · intro htag
        cases htag with
        | intro prints root => exact absurd prints (by decide)
      · simp [lookupsOf]
  | escaped spells => simpa [lookupsOf, Segment.lookup?] using Template.rootTag_iff (.inl rfl) spells
  | raw spells => simpa [lookupsOf, Segment.lookup?] using Template.rootTag_iff (.inr rfl) spells

theorem exists_rootTag_iff {pieces : List (Text.Piece Tag)} {parts : List (List Segment)}
    (h : List.Forall₂ Makes pieces parts) : (∃ p ∈ pieces, RootTag p name) ↔
      ∃ lookup ∈ lookupsOf (parts.foldr joinSegments []), lookup.root = name := by
  induction h with
  | nil => simp [lookupsOf]
  | @cons p part pieces parts hpart _ ih =>
      rw [List.exists_mem_cons_iff, hpart.rootTag_iff, ih, List.foldr_cons, lookupsOf_join]
      simp only [List.mem_append, or_and_right, exists_or]

/-- The roots in the tags of a text are the roots of the lookups of its template. -/
theorem hasRoot_iff (h : segmentsOf text = .ok segments) :
    HasRoot text name ↔ ∃ lookup ∈ lookupsOf segments, lookup.root = name := by
  obtain ⟨pieces, hreads⟩ := exists_reads text
  obtain ⟨parts, hparts, rfl⟩ := (segmentsOf_eq_ok_iff hreads).mp h
  rw [← exists_rootTag_iff hparts]
  constructor
  · rintro ⟨others, hothers, htag⟩
    rwa [← hothers.split_eq, hreads.split_eq] at htag
  · intro htag
    exact ⟨pieces, hreads, htag⟩

/-! ## Data that agree on roots -/

/-- A lookup asks objects for its root only. -/
theorem Lookup.value_congr {lookup : Lookup} (hwhole : lookup.root ≠ wholeData)
    (h : data.get? lookup.root = other.get? lookup.root) : lookup.value data = lookup.value other := by
  have hstart : lookup.start? data = lookup.start? other := by
    rw [start?, start?, if_neg hwhole, if_neg hwhole, h]
  rw [value, value, hstart]

theorem Segment.render_congr {segment : Segment}
    (h : ∀ lookup, segment.lookup? = some lookup → lookup.value data = lookup.value other) :
    segment.render data = segment.render other := by
  cases segment with
  | text content => rfl
  | escaped lookup => rw [Segment.render, Segment.render, h lookup rfl]
  | raw lookup => rw [Segment.render, Segment.render, h lookup rfl]

theorem renderSegments_congr
    (h : ∀ lookup ∈ lookupsOf segments, lookup.value data = lookup.value other) :
    renderSegments data segments = renderSegments other segments := by
  induction segments with
  | nil => rfl
  | cons segment segments ih =>
      have hsegments : lookupsOf (segment :: segments) = lookupsOf [segment] ++ lookupsOf segments :=
        lookupsOf_append [segment] segments
      rw [hsegments, List.forall_mem_append] at h
      have hfirst : segment.render data = segment.render other := by
        apply Segment.render_congr
        intro lookup hlookup
        apply h.1
        simp [lookupsOf, hlookup]
      rw [renderSegments_cons, renderSegments_cons, hfirst, ih h.2]

/-- Of two objects that agree on the roots in its tags a template makes the same, output or failure, if none of
these roots is the name for the data as a whole. The roots in the tags are those that lookups start from. -/
theorem rendering_reads_roots_only (h : segmentsOf text = .ok segments) (hwhole : ¬ HasRoot text "locals")
    {fields changed : JsonFields}
    (hagree : ∀ name, HasRoot text name → fields.get? name = changed.get? name) (path : Path) :
    (⟨path, segments⟩ : Template).render (.object fields) =
        (⟨path, segments⟩ : Template).render (.object changed) ∧
      ∀ name, HasRoot text name ↔ ∃ lookup ∈ lookupsOf segments, lookup.root = name := by
  refine ⟨?_, fun name => hasRoot_iff h⟩
  have hvalues : ∀ lookup ∈ lookupsOf segments,
      lookup.value (.object fields) = lookup.value (.object changed) := by
    intro lookup hlookup
    have hroot : HasRoot text lookup.root := (hasRoot_iff h).mpr ⟨lookup, hlookup, rfl⟩
    refine Lookup.value_congr ?_ (hagree lookup.root hroot)
    intro heq
    rw [heq] at hroot
    exact hwhole hroot
  rw [render, render, renderSegments_congr hvalues]

/-- A template with a comment about a property that no tag prints, and with a property that may be missing. -/
def greetingText : List Char :=
  "<%# token %><%= user.name %> <%- user['e mail'] -%>\n(<%= list[1].x %>)".toList

def greetingSegments : List Segment :=
  [.escaped ⟨"user.name", "user", [.key "name"]⟩, .text " ", .raw ⟨"user['e mail']", "user", [.key "e mail"]⟩,
    .text "(", .escaped ⟨"list[1].x", "list", [.index 1, .key "x"]⟩, .text ")"]

/-- Two objects that agree on the user and on a list, which ends before the place that is asked for. -/
def greetedFields : JsonFields :=
  [("list", .array [.null]), ("token", .string "secret"), ("user", .object [("name", .string "<ada>")])]

def otherFields : JsonFields :=
  [("list", .array [.null]), ("user", .object [("name", .string "<ada>")]), ("visits", Json.ofNat 3)]

theorem rendering_reads_roots_only_greeting :
    segmentsOf greetingText = .ok greetingSegments ∧ ¬ HasRoot greetingText "token" ∧
      (⟨⟨"page"⟩, greetingSegments⟩ : Template).render (.object greetedFields) =
        (⟨⟨"page"⟩, greetingSegments⟩ : Template).render (.object otherFields) ∧
      (⟨⟨"page"⟩, greetingSegments⟩ : Template).render (.object greetedFields) =
        .error ⟨.lookup (.unreadable (.key "x") .undefined "list[1].x"), ⟨"page"⟩, []⟩ := by
  have hsegments : segmentsOf greetingText = .ok greetingSegments := by decide +kernel
  have hroots (name : String) : HasRoot greetingText name ↔ name = "user" ∨ name = "list" := by
    rw [hasRoot_iff hsegments]
    simp [lookupsOf, greetingSegments, Segment.lookup?, eq_comm]
  have hwhole : ¬ HasRoot greetingText "locals" := by simp [hroots]
  have htoken : ¬ HasRoot greetingText "token" := by simp [hroots]
  have hagree : ∀ name, HasRoot greetingText name → greetedFields.get? name = otherFields.get? name := by
    intro name hname
    rcases (hroots name).mp hname with rfl | rfl <;> rfl
  refine ⟨hsegments, htoken, (rendering_reads_roots_only hsegments hwhole hagree ⟨"page"⟩).1, ?_⟩
  decide +kernel

end SiteServer.Template

import SiteServer.Proofs.Template.Segments

/-! # When a template can be rendered.

A lookup is defined on data when its root is there and each of its steps is taken from an array or an object;
the last step may find nothing, which prints nothing. A template is rendered exactly when all its lookups are
defined, and the output is then that of its segments in order. Otherwise the first lookup that is not defined
is to blame, at its first step that cannot be taken, and there is no output at all. -/

namespace SiteServer.Template

namespace Lookup

variable {data start value : Json} {lookup : Lookup} {steps rest : List Step} {step : Step}
  {fault : LookupFault} {source : String}

/-! ## What lookups mean -/

/-- A value that has items or properties, so that steps can be taken from it. -/
inductive Branches : Json → Prop where
  | array (items : List Json) : Branches (.array items)
  | object (fields : JsonFields) : Branches (.object fields)

/-- A value that no step can be taken from, and what it is. -/
inductive Blunt : Json → Obstacle → Prop where
  | null : Blunt .null .null
  | boolean (b : Bool) : Blunt (.bool b) .boolean
  | number (n : JsonNumber) : Blunt (.number n) .number
  | string (s : String) : Blunt (.string s) .string

/-- What a step finds. A key finds nothing in an array, and a place nothing in an object. -/
inductive Finds : Json → Step → Json → Prop where
  | property {fields : JsonFields} {name : String} {value : Json}
      (found : fields.get? name = some value) : Finds (.object fields) (.key name) value
  | item {items : List Json} {place : Nat} {value : Json} (found : items[place]? = some value) :
      Finds (.array items) (.index place) value

/-- Steps lead from a value to another. -/
inductive LeadsTo : Json → List Step → Json → Prop where
  | here (value : Json) : LeadsTo value [] value
  | step {start next value : Json} {step : Step} {rest : List Step} (first : Finds start step next)
      (behind : LeadsTo next rest value) : LeadsTo start (step :: rest) value

/-- Each of some steps is taken from an array or an object that is there. -/
def Open (start : Json) (steps : List Step) : Prop :=
  ∀ front step rest, steps = front ++ step :: rest → ∃ value, LeadsTo start front value ∧ Branches value

/-- What a lookup starts from: the data as a whole, or the property of the data that its root names. -/
inductive StartsAt (lookup : Lookup) : Json → Json → Prop where
  | whole {data : Json} (root : lookup.root = "locals") : StartsAt lookup data data
  | property {fields : JsonFields} {value : Json} (root : lookup.root ≠ "locals")
      (found : fields.get? lookup.root = some value) : StartsAt lookup (.object fields) value

/-- A lookup can be printed. -/
def Defined (lookup : Lookup) (data : Json) : Prop :=
  ∃ start, lookup.StartsAt data start ∧ Open start lookup.steps

/-- The value of a lookup that is defined, or none if its last step finds nothing. -/
inductive Denotes (lookup : Lookup) (data : Json) : Option Json → Prop where
  | found {start value : Json} (starts : lookup.StartsAt data start) (passable : Open start lookup.steps)
      (leads : LeadsTo start lookup.steps value) : Denotes lookup data (some value)
  | missing {start : Json} (starts : lookup.StartsAt data start) (passable : Open start lookup.steps)
      (nowhere : ∀ value, ¬ LeadsTo start lookup.steps value) : Denotes lookup data none

/-- Why a lookup fails: its root is not there, or it is the first step that cannot be taken, since what it is
taken from is missing or neither array nor object. -/
inductive Fails (lookup : Lookup) (data : Json) : LookupFault → Prop where
  | root (nowhere : ∀ start, ¬ lookup.StartsAt data start) : Fails lookup data (.undefinedRoot lookup.root)
  | missing {start : Json} {front rest : List Step} {step : Step} (starts : lookup.StartsAt data start)
      (cut : lookup.steps = front ++ step :: rest) (passable : Open start front)
      (nowhere : ∀ value, ¬ LeadsTo start front value) :
      Fails lookup data (.unreadable step .undefined lookup.source)
  | blunt {start value : Json} {front rest : List Step} {step : Step} {obstacle : Obstacle}
      (starts : lookup.StartsAt data start) (cut : lookup.steps = front ++ step :: rest)
      (passable : Open start front) (leads : LeadsTo start front value) (blunt : Blunt value obstacle) :
      Fails lookup data (.unreadable step obstacle lookup.source)

/-! ## Single steps -/

theorem follow_eq_some_iff : follow start step = some value ↔ Finds start step value := by
  constructor
  · intro h
    cases step with
    | key name =>
        cases start with
        | object fields => exact .property h
        | _ => cases h
    | index place =>
        cases start with
        | array items => exact .item h
        | _ => cases h
  · intro h
    cases h with
    | property found => exact found
    | item found => exact found

theorem obstacle?_eq_none_iff {current : Option Json} :
    obstacle? current = none ↔ ∃ value, current = some value ∧ Branches value := by
  constructor
  · intro h
    cases current with
    | none => cases h
    | some value =>
        cases value with
        | array items => exact ⟨_, rfl, .array items⟩
        | object fields => exact ⟨_, rfl, .object fields⟩
        | _ => cases h
  · rintro ⟨value, rfl, hvalue⟩
    cases hvalue <;> rfl

theorem obstacle?_eq_some_iff {current : Option Json} {obstacle : Obstacle} :
    obstacle? current = some obstacle ↔
      current = none ∧ obstacle = .undefined ∨ ∃ value, current = some value ∧ Blunt value obstacle := by
  constructor
  · intro h
    cases current with
    | none =>
        cases h
        exact .inl ⟨rfl, rfl⟩
    | some value =>
        refine .inr ⟨value, rfl, ?_⟩
        cases value with
        | null =>
            cases h
            exact .null
        | bool b =>
            cases h
            exact .boolean b
        | number n =>
            cases h
            exact .number n
        | string s =>
            cases h
            exact .string s
        | array items => cases h
        | object fields => cases h
  · rintro (⟨rfl, rfl⟩ | ⟨value, rfl, hvalue⟩)
    · rfl
    · cases hvalue <;> rfl

theorem start?_eq_some_iff : lookup.start? data = some start ↔ lookup.StartsAt data start := by
  unfold start? wholeData
  by_cases hroot : lookup.root = "locals"
  · simp only [hroot, if_true, Option.some.injEq]
    constructor
    · rintro rfl
      exact .whole hroot
    · intro h
      cases h with
      | whole => rfl
      | property root => exact absurd hroot root
  · simp only [hroot, if_false]
    constructor
    · intro h
      cases data with
      | object fields => exact .property hroot h
      | _ => cases h
    · intro h
      cases h with
      | whole root => exact absurd root hroot
      | property _ found => exact found

/-! ## Several steps -/

/-- Where steps lead from a value that may be missing: from a missing one nowhere. -/
def arrive (current : Option Json) (steps : List Step) : Option Json :=
  steps.foldl (fun value step => value.bind (follow · step)) current

theorem arrive_none (steps : List Step) : arrive none steps = none := by
  induction steps with
  | nil => rfl
  | cons step rest ih => exact ih

theorem arrive_eq_some_iff : arrive (some start) steps = some value ↔ LeadsTo start steps value := by
  induction steps generalizing start with
  | nil =>
      constructor
      · intro h
        cases h
        exact .here _
      · intro h
        cases h
        rfl
  | cons step rest ih =>
      change arrive (follow start step) rest = some value ↔ _
      constructor
      · intro h
        cases hnext : follow start step with
        | none =>
            rw [hnext, arrive_none] at h
            cases h
        | some next =>
            rw [hnext] at h
            exact .step (follow_eq_some_iff.mp hnext) (ih.mp h)
      · intro h
        cases h with
        | step first behind =>
            rw [follow_eq_some_iff.mpr first]
            exact ih.mpr behind

theorem arrive_eq_none_iff : arrive (some start) steps = none ↔ ∀ value, ¬ LeadsTo start steps value := by
  simp only [Option.eq_none_iff_forall_ne_some, ne_eq, arrive_eq_some_iff]

/-- No step is in vain. -/
def Clear (current : Option Json) (steps : List Step) : Prop :=
  ∀ front step rest, steps = front ++ step :: rest → obstacle? (arrive current front) = none

theorem clear_some_iff : Clear (some start) steps ↔ Open start steps := by
  simp only [Clear, Open, obstacle?_eq_none_iff, arrive_eq_some_iff]

theorem clear_nil (current : Option Json) : Clear current [] := by
  intro front step rest h
  simp at h

theorem clear_cons {current : Option Json} :
    Clear current (step :: rest) ↔
      obstacle? current = none ∧ Clear (current.bind (follow · step)) rest := by
  constructor
  · intro h
    refine ⟨h [] step rest rfl, ?_⟩
    intro front other behind hrest
    exact h (step :: front) other behind (congrArg (step :: ·) hrest)
  · rintro ⟨hfirst, hrest⟩ front other behind h
    cases front with
    | nil => exact hfirst
    | cons first front =>
        obtain ⟨rfl, rfl⟩ := List.cons.inj h
        exact hrest front other behind rfl

theorem walk_eq_ok_iff {current last : Option Json} :
    walk source current steps = .ok last ↔ Clear current steps ∧ arrive current steps = last := by
  induction steps generalizing current with
  | nil => simp [walk, clear_nil, arrive]
  | cons step rest ih =>
      rw [walk, clear_cons]
      cases hobstacle : obstacle? current with
      | none =>
          simp only [true_and]
          exact ih
      | some obstacle => simp

/-- A walk ends at its first step that is in vain. -/
theorem walk_eq_error_iff {current : Option Json} :
    walk source current steps = .error fault ↔ ∃ front step rest obstacle,
      steps = front ++ step :: rest ∧ Clear current front ∧
        obstacle? (arrive current front) = some obstacle ∧ fault = .unreadable step obstacle source := by
  induction steps generalizing current with
  | nil => simp [walk]
  | cons first others ih =>
      rw [walk]
      constructor
      · intro h
        cases hobstacle : obstacle? current with
        | some obstacle =>
            rw [hobstacle] at h
            cases h
            exact ⟨[], first, others, obstacle, rfl, clear_nil current, hobstacle, rfl⟩
        | none =>
            rw [hobstacle] at h
            obtain ⟨front, step, rest, obstacle, rfl, hclear, hvain, rfl⟩ := ih.mp h
            exact ⟨first :: front, step, rest, obstacle, rfl, clear_cons.mpr ⟨hobstacle, hclear⟩,
              hvain, rfl⟩
      · rintro ⟨front, step, rest, obstacle, hcut, hclear, hvain, rfl⟩
        cases front with
        | nil =>
            obtain ⟨rfl, rfl⟩ := List.cons.inj hcut
            change obstacle? current = some obstacle at hvain
            rw [hvain]
        | cons other front =>
            obtain ⟨rfl, rfl⟩ := List.cons.inj hcut
            obtain ⟨hobstacle, hclear⟩ := clear_cons.mp hclear
            rw [hobstacle]
            exact ih.mpr ⟨front, step, rest, obstacle, rfl, hclear, hvain, rfl⟩

/-! ## Lookups -/

theorem value_eq_of_startsAt (h : lookup.StartsAt data start) :
    lookup.value data = walk lookup.source (some start) lookup.steps := by
  rw [value, start?_eq_some_iff.mpr h]

theorem value_eq_of_not_startsAt (h : ∀ start, ¬ lookup.StartsAt data start) :
    lookup.value data = .error (.undefinedRoot lookup.root) := by
  have hstart : lookup.start? data = none := by
    simpa only [Option.eq_none_iff_forall_ne_some, ne_eq, start?_eq_some_iff] using h
  rw [value, hstart]

theorem value_eq_ok_iff {found : Option Json} : lookup.value data = .ok found ↔ lookup.Denotes data found := by
  constructor
  · intro h
    by_cases hstart : ∃ start, lookup.StartsAt data start
    · obtain ⟨start, hstart⟩ := hstart
      rw [value_eq_of_startsAt hstart] at h
      obtain ⟨hclear, harrive⟩ := walk_eq_ok_iff.mp h
      have hopen := clear_some_iff.mp hclear
      cases found with
      | some value => exact .found hstart hopen (arrive_eq_some_iff.mp harrive)
      | none => exact .missing hstart hopen (arrive_eq_none_iff.mp harrive)
    · rw [value_eq_of_not_startsAt (not_exists.mp hstart)] at h
      cases h
  · intro h
    cases h with
    | found starts passable leads =>
        rw [value_eq_of_startsAt starts]
        exact walk_eq_ok_iff.mpr ⟨clear_some_iff.mpr passable, arrive_eq_some_iff.mpr leads⟩
    | missing starts passable nowhere =>
        rw [value_eq_of_startsAt starts]
        exact walk_eq_ok_iff.mpr ⟨clear_some_iff.mpr passable, arrive_eq_none_iff.mpr nowhere⟩

theorem value_eq_error_iff : lookup.value data = .error fault ↔ lookup.Fails data fault := by
  constructor
  · intro h
    by_cases hstart : ∃ start, lookup.StartsAt data start
    · obtain ⟨start, hstart⟩ := hstart
      rw [value_eq_of_startsAt hstart] at h
      obtain ⟨front, step, rest, obstacle, hcut, hclear, hvain, rfl⟩ := walk_eq_error_iff.mp h
      have hopen := clear_some_iff.mp hclear
      rcases obstacle?_eq_some_iff.mp hvain with ⟨harrive, rfl⟩ | ⟨value, harrive, hblunt⟩
      · exact .missing hstart hcut hopen (arrive_eq_none_iff.mp harrive)
      · exact .blunt hstart hcut hopen (arrive_eq_some_iff.mp harrive) hblunt
    · rw [value_eq_of_not_startsAt (not_exists.mp hstart)] at h
      cases h
      exact .root (not_exists.mp hstart)
  · intro h
    cases h with
    | root nowhere => exact value_eq_of_not_startsAt nowhere
    | @missing start front rest step starts cut passable nowhere =>
        have hvain := obstacle?_eq_some_iff.mpr (.inl ⟨arrive_eq_none_iff.mpr nowhere, rfl⟩)
        rw [value_eq_of_startsAt starts]
        exact walk_eq_error_iff.mpr ⟨front, step, rest, _, cut, clear_some_iff.mpr passable, hvain, rfl⟩
    | @blunt start value front rest step obstacle starts cut passable leads blunt =>
        have hvain := obstacle?_eq_some_iff.mpr (.inr ⟨value, arrive_eq_some_iff.mpr leads, blunt⟩)
        rw [value_eq_of_startsAt starts]
        exact walk_eq_error_iff.mpr ⟨front, step, rest, _, cut, clear_some_iff.mpr passable, hvain, rfl⟩

/-- A lookup is defined when it has a value, or none. -/
theorem defined_iff : lookup.Defined data ↔ ∃ found, lookup.value data = .ok found := by
  constructor
  · rintro ⟨start, hstart, hopen⟩
    rw [value_eq_of_startsAt hstart]
    exact ⟨_, walk_eq_ok_iff.mpr ⟨clear_some_iff.mpr hopen, rfl⟩⟩
  · rintro ⟨found, hfound⟩
    cases value_eq_ok_iff.mp hfound with
    | found starts passable leads => exact ⟨_, starts, passable⟩
    | missing starts passable nowhere => exact ⟨_, starts, passable⟩

end Lookup

/-! ## Printed values -/

/-- How values are printed: nothing for a missing one and for `null`, a text as it is, the items of an array
with commas between them, and no property of an object. -/
structure DisplayRules (printed : Option Json → List Char) : Prop where
  missing : printed none = []
  null : printed (some .null) = []
  string : ∀ s, printed (some (.string s)) = s.toList
  boolean : ∀ b, printed (some (.bool b)) = (if b then "true" else "false").toList
  number : ∀ n, printed (some (.number n)) = Json.printNumber n
  array : ∀ items, printed (some (.array items)) =
    List.intercalate [','] (items.map fun item => printed (some item))
  object : ∀ fields, printed (some (.object fields)) = "[object Object]".toList

theorem displayItems_cons_cons (item other : Json) (rest : List Json) :
    displayItems (item :: other :: rest) = display item ++ ',' :: displayItems (other :: rest) :=
  rfl

theorem displayItems_eq (items : List Json) :
    displayItems items = List.intercalate [','] (items.map display) := by
  induction items with
  | nil => rfl
  | cons item rest ih =>
      cases rest with
      | nil => exact (List.append_nil _).symm
      | cons other rest =>
          rw [displayItems_cons_cons, ih]
          simp

theorem displayRules_displayValue : DisplayRules displayValue where
  missing := rfl
  null := rfl
  string s := rfl
  boolean b := by cases b <;> rfl
  number n := rfl
  array items := displayItems_eq items
  object fields := rfl

/-! ## Segments -/

def Segment.lookup? : Segment → Option Lookup
  | .text _ => none
  | .escaped lookup => some lookup
  | .raw lookup => some lookup

def lookupsOf (segments : List Segment) : List Lookup :=
  segments.filterMap Segment.lookup?

/-- What a segment prints, if its lookup is defined. -/
inductive Segment.Prints (data : Json) : Segment → List Char → Prop where
  | text (content : String) : Prints data (.text content) content.toList
  | escaped {lookup : Lookup} {value : Option Json} (denotes : lookup.Denotes data value) :
      Prints data (.escaped lookup) (Text.Markup.escape (displayValue value))
  | raw {lookup : Lookup} {value : Option Json} (denotes : lookup.Denotes data value) :
      Prints data (.raw lookup) (displayValue value)

variable {data : Json} {segments : List Segment} {segment : Segment} {printed : List Char}
  {fault : LookupFault}

theorem map_eq_ok_iff {α β : Type} {result : Except LookupFault α} {f : α → β} {b : β} :
    result.map f = .ok b ↔ ∃ a, result = .ok a ∧ f a = b := by
  cases result <;> simp [Except.map]

theorem map_eq_error_iff {α β : Type} {result : Except LookupFault α} {f : α → β} :
    result.map f = .error fault ↔ result = .error fault := by
  cases result <;> simp [Except.map]

theorem Segment.render_eq_ok_iff : segment.render data = .ok printed ↔ segment.Prints data printed := by
  constructor
  · intro h
    cases segment with
    | text content =>
        cases h
        exact .text content
    | escaped lookup =>
        obtain ⟨value, hvalue, rfl⟩ := map_eq_ok_iff.mp h
        exact .escaped (Lookup.value_eq_ok_iff.mp hvalue)
    | raw lookup =>
        obtain ⟨value, hvalue, rfl⟩ := map_eq_ok_iff.mp h
        exact .raw (Lookup.value_eq_ok_iff.mp hvalue)
  · intro h
    cases h with
    | text content => rfl
    | escaped denotes => exact map_eq_ok_iff.mpr ⟨_, Lookup.value_eq_ok_iff.mpr denotes, rfl⟩
    | raw denotes => exact map_eq_ok_iff.mpr ⟨_, Lookup.value_eq_ok_iff.mpr denotes, rfl⟩

theorem Segment.render_eq_error_iff : segment.render data = .error fault ↔
    ∃ lookup, segment.lookup? = some lookup ∧ lookup.Fails data fault := by
  cases segment with
  | text content => simp [Segment.render, Segment.lookup?]
  | escaped lookup => simp [Segment.render, Segment.lookup?, map_eq_error_iff, Lookup.value_eq_error_iff]
  | raw lookup => simp [Segment.render, Segment.lookup?, map_eq_error_iff, Lookup.value_eq_error_iff]

theorem Segment.exists_render_eq_ok_iff : (∃ printed, segment.render data = .ok printed) ↔
    ∀ lookup, segment.lookup? = some lookup → lookup.Defined data := by
  cases segment with
  | text content => simp [Segment.render, Segment.lookup?]
  | escaped lookup => simp [Segment.render, Segment.lookup?, map_eq_ok_iff, Lookup.defined_iff]
  | raw lookup => simp [Segment.render, Segment.lookup?, map_eq_ok_iff, Lookup.defined_iff]

theorem defined_lookupsOf_iff : (∀ lookup ∈ lookupsOf segments, lookup.Defined data) ↔
    ∀ segment ∈ segments, ∃ printed, segment.render data = .ok printed := by
  simp only [Segment.exists_render_eq_ok_iff, lookupsOf, List.mem_filterMap]
  constructor
  · intro h segment hsegment lookup hlookup
    exact h lookup ⟨segment, hsegment, hlookup⟩
  · rintro h lookup ⟨segment, hsegment, hlookup⟩
    exact h segment hsegment lookup hlookup

/-! ## Templates -/

theorem renderSegments_eq_ok_iff : renderSegments data segments = .ok printed ↔
    ∃ parts, List.Forall₂ (Segment.Prints data) segments parts ∧ printed = parts.flatten := by
  induction segments generalizing printed with
  | nil => simp [renderSegments, eq_comm]
  | cons segment segments ih =>
      rw [renderSegments_cons]
      constructor
      · intro h
        obtain ⟨first, others, hfirst, hothers, rfl⟩ := exists_of_andThen_eq_ok h
        obtain ⟨parts, hparts, rfl⟩ := ih.mp hothers
        exact ⟨first :: parts, .cons (Segment.render_eq_ok_iff.mp hfirst) hparts, rfl⟩
      · rintro ⟨parts, hparts, rfl⟩
        cases hparts with
        | cons hfirst hothers =>
            rw [Segment.render_eq_ok_iff.mpr hfirst, ih.mpr ⟨_, hothers, rfl⟩]
            rfl

theorem exists_renderSegments_eq_ok_iff : (∃ printed, renderSegments data segments = .ok printed) ↔
    ∀ lookup ∈ lookupsOf segments, lookup.Defined data := by
  rw [defined_lookupsOf_iff]
  induction segments with
  | nil => simp [renderSegments]
  | cons segment segments ih =>
      rw [renderSegments_cons, List.forall_mem_cons, ← ih]
      cases segment.render data with
      | error fault => simp [andThen, bind, Except.bind]
      | ok first =>
          cases renderSegments data segments with
          | error fault => simp [andThen, bind, Except.bind]
          | ok others => simp [andThen, bind, Except.bind, pure, Except.pure]

/-- The first segment that fails is to blame. -/
theorem renderSegments_eq_error_iff : renderSegments data segments = .error fault ↔
    ∃ before segment after lookup, segments = before ++ segment :: after ∧
      (∀ other ∈ lookupsOf before, other.Defined data) ∧ segment.lookup? = some lookup ∧
        lookup.Fails data fault := by
  induction segments with
  | nil => simp [renderSegments]
  | cons first others ih =>
      rw [renderSegments_cons]
      constructor
      · intro h
        cases hfirst : first.render data with
        | error found =>
            rw [hfirst] at h
            cases h
            obtain ⟨lookup, hlookup, hfails⟩ := Segment.render_eq_error_iff.mp hfirst
            exact ⟨[], first, others, lookup, rfl, by simp [lookupsOf], hlookup, hfails⟩
        | ok printed =>
            rw [hfirst] at h
            have hothers : renderSegments data others = .error fault := by
              cases hothers : renderSegments data others with
              | error found =>
                  rw [hothers] at h
                  exact h
              | ok rest =>
                  rw [hothers] at h
                  cases h
            obtain ⟨before, segment, after, lookup, rfl, hbefore, hlookup, hfails⟩ := ih.mp hothers
            refine ⟨first :: before, segment, after, lookup, rfl, ?_, hlookup, hfails⟩
            rw [defined_lookupsOf_iff] at hbefore ⊢
            exact List.forall_mem_cons.mpr ⟨⟨printed, hfirst⟩, hbefore⟩
      · rintro ⟨before, segment, after, lookup, hcut, hbefore, hlookup, hfails⟩
        cases before with
        | nil =>
            obtain ⟨rfl, rfl⟩ := List.cons.inj hcut
            rw [Segment.render_eq_error_iff.mpr ⟨lookup, hlookup, hfails⟩]
            rfl
        | cons other before =>
            obtain ⟨rfl, rfl⟩ := List.cons.inj hcut
            rw [defined_lookupsOf_iff, List.forall_mem_cons, ← defined_lookupsOf_iff] at hbefore
            obtain ⟨⟨printed, hfirst⟩, hbefore⟩ := hbefore
            rw [hfirst, ih.mpr ⟨before, segment, after, lookup, rfl, hbefore, hlookup, hfails⟩]
            rfl

variable {template : Template}

theorem exists_render_eq_ok_iff : (∃ output, template.render data = .ok output) ↔
    ∀ lookup ∈ lookupsOf template.segments, lookup.Defined data := by
  rw [← exists_renderSegments_eq_ok_iff]
  unfold render
  cases renderSegments data template.segments <;> simp

theorem render_eq_ok_iff {output : String} : template.render data = .ok output ↔
    ∃ parts, List.Forall₂ (Segment.Prints data) template.segments parts ∧
      output = String.ofList parts.flatten := by
  have hrender : template.render data = .ok output ↔
      ∃ printed, renderSegments data template.segments = .ok printed ∧ output = String.ofList printed := by
    unfold render
    cases renderSegments data template.segments <;> simp [eq_comm]
  simp only [hrender, renderSegments_eq_ok_iff]
  constructor
  · rintro ⟨printed, ⟨parts, hparts, rfl⟩, rfl⟩
    exact ⟨parts, hparts, rfl⟩
  · rintro ⟨parts, hparts, rfl⟩
    exact ⟨_, ⟨parts, hparts, rfl⟩, rfl⟩

theorem render_eq_error_iff {failure : Failure} : template.render data = .error failure ↔
    ∃ fault, renderSegments data template.segments = .error fault ∧
      failure = ⟨.lookup fault, template.path, []⟩ := by
  unfold render
  cases renderSegments data template.segments <;> simp [eq_comm]

/-- What rendering a template on data comes to: an output exactly when all lookups are defined, namely what its
segments print in order, and otherwise the failure of the first lookup that is not defined. -/
structure RendersExactly (template : Template) (data : Json) : Prop where
  succeeds : (∃ output, template.render data = .ok output) ↔
    ∀ lookup ∈ lookupsOf template.segments, lookup.Defined data
  prints : ∀ output, template.render data = .ok output ↔
    ∃ parts, List.Forall₂ (Segment.Prints data) template.segments parts ∧
      output = String.ofList parts.flatten
  fails : ∀ failure, template.render data = .error failure ↔
    ∃ before segment after lookup fault, template.segments = before ++ segment :: after ∧
      (∀ other ∈ lookupsOf before, other.Defined data) ∧ segment.lookup? = some lookup ∧
        lookup.Fails data fault ∧ failure = ⟨.lookup fault, template.path, []⟩
  kind : ∀ failure, template.render data = .error failure → failure.kind = .renderFailed

/-- Rendering succeeds exactly when every lookup is defined, and otherwise fails at the first that is not. -/
theorem rendering_exact (template : Template) (data : Json) :
    RendersExactly template data ∧ DisplayRules displayValue := by
  refine ⟨⟨exists_render_eq_ok_iff, fun _ => render_eq_ok_iff, ?_, ?_⟩, displayRules_displayValue⟩
  · intro failure
    simp only [render_eq_error_iff, renderSegments_eq_error_iff]
    constructor
    · rintro ⟨fault, ⟨before, segment, after, lookup, hcut, hbefore, hlookup, hfails⟩, rfl⟩
      exact ⟨before, segment, after, lookup, fault, hcut, hbefore, hlookup, hfails, rfl⟩
    · rintro ⟨before, segment, after, lookup, fault, hcut, hbefore, hlookup, hfails, rfl⟩
      exact ⟨fault, ⟨before, segment, after, lookup, hcut, hbefore, hlookup, hfails⟩, rfl⟩
  · intro failure h
    obtain ⟨fault, _, rfl⟩ := render_eq_error_iff.mp h
    rfl

end SiteServer.Template

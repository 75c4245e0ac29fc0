import Mathlib.Data.List.Nodup
import SiteServer.Config.Coding

/-! # Configurations that are written in part.

A configuration is written as tables of options. What is left of it may stand in any order and among fields
of other names; it is read over the usual values of what was left out. `Holds` says what a record may look
like, and `members?` finds in it what was written. -/

namespace SiteServer

/-! ## Records that are written in part -/

def Json.fields : Json → JsonFields
  | .object fields => fields
  | _ => []

/-- The value of a field is written: a format without `null` leaves such a field out. -/
def Format.writes (format : Format) : Json → Bool
  | .null => format.hasNull
  | _ => true

/-- The fields of a record that are kept and that the format writes. -/
def Format.kept (format : Format) (keeps : String → Bool) (record : Json) : JsonFields :=
  record.fields.filter fun (key, value) => keeps key && format.writes value

namespace RawJson

variable {keys : List String} {fields all : List (Option String × RawJson)} {value : RawJson} {key : String}

/-- An object with these fields, in any order, and perhaps with others, of which none is a member. -/
def Holds (keys : List String) (fields : List (Option String × RawJson)) (value : RawJson) : Prop :=
  ∃ all others, value = .object all ∧ all.Perm (fields ++ others) ∧
    ∀ field ∈ others, ∃ name, field.1 = some name ∧ name ∉ keys

theorem lookup_eq_head? (fields : List (Option String × RawJson)) (key : String) :
    fields.lookup (some key) =
      (fields.filter fun field => field.1 = some key).head?.map Prod.snd := by
  induction fields with
  | nil => rfl
  | cons field fields ih =>
      rw [List.lookup_cons, List.filter_cons, ih]
      by_cases h : field.1 = some key
      · simp [h]
      · have hne : (some key == field.1) = false := beq_eq_false_iff_ne.mpr (Ne.symm h)
        simp [h, hne]

/-- Lists of at most one element with the same elements are the same. -/
theorem eq_of_perm_of_length_le {α : Type} {xs ys : List α} (h : xs.Perm ys) (hlength : ys.length ≤ 1) :
    xs = ys := by
  match ys with
  | [] => exact h.eq_nil
  | [y] => exact List.perm_singleton.mp h

/-- Of a member there is in an object what is in the fields that it holds. -/
theorem filter_eq_of_perm {others : List (Option String × RawJson)} (hperm : all.Perm (fields ++ others))
    (hothers : ∀ field ∈ others, ∃ name, field.1 = some name ∧ name ∉ keys) (hkey : key ∈ keys)
    (honce : occursOnce fields key = true) :
    (all.filter fun field => field.1 = some key) = fields.filter fun field => field.1 = some key := by
  have hnone : (others.filter fun field => field.1 = some key) = [] := by
    rw [List.filter_eq_nil_iff]
    intro field hfield heq
    obtain ⟨name, hname, hnot⟩ := hothers field hfield
    rw [hname, decide_eq_true_eq, Option.some_inj] at heq
    exact hnot (heq ▸ hkey)
  have hfilter := hperm.filter fun field => decide (field.1 = some key)
  rw [List.filter_append, hnone, List.append_nil] at hfilter
  exact eq_of_perm_of_length_le hfilter (of_decide_eq_true honce)

theorem holds_object (keys : List String) (fields : List (Option String × RawJson)) :
    Holds keys fields (.object fields) :=
  ⟨fields, [], rfl, by rw [List.append_nil], fun _ h => absurd h List.not_mem_nil⟩

/-- In an object the members are found as they stand in the fields that it holds. -/
theorem Holds.exists_members (h : Holds keys fields value) (closed : Bool)
    (hnamed : ∀ field ∈ fields, field.1.isSome = true) (honce : ∀ key ∈ keys, occursOnce fields key = true) :
    ∃ found, members? closed keys value = some found ∧ ∀ key ∈ keys, found key = fields.lookup (some key) := by
  obtain ⟨all, others, rfl, hperm, hothers⟩ := h
  have hfilter {key : String} (hkey : key ∈ keys) := filter_eq_of_perm hperm hothers hkey (honce key hkey)
  refine ⟨fun key => all.lookup (some key), ?_, fun key hkey => ?_⟩
  · have hall : all.all (·.1.isSome) = true := by
      rw [List.all_eq_true]
      intro field hfield
      rcases List.mem_append.mp (hperm.mem_iff.mp hfield) with hfield | hfield
      · exact hnamed field hfield
      · obtain ⟨name, hname, _⟩ := hothers field hfield
        rw [hname]
        rfl
    have hkeys : keys.all (occursOnce all) = true := by
      rw [List.all_eq_true]
      intro key hkey
      rw [occursOnce, hfilter hkey]
      exact honce key hkey
    simp only [members?, hall, hkeys, Bool.and_self, if_true]
  · dsimp only
    rw [lookup_eq_head?, hfilter hkey, lookup_eq_head?]

end RawJson

/-! ## Named fields -/

section Named

variable {α : Type} {fields : List (String × α)} {name : String} {value : α}

theorem lookup_of_mem (h : (fields.map Prod.fst).Nodup) (hmem : (name, value) ∈ fields) :
    fields.lookup name = some value := by
  obtain ⟨before, behind, rfl⟩ := List.append_of_mem hmem
  rw [List.lookup_eq_some_iff]
  refine ⟨before, behind, rfl, fun field hfield => bne_iff_ne.mpr ?_⟩
  rintro rfl
  rw [List.map_append, List.nodup_append] at h
  exact h.2.2 field.1 (List.mem_map_of_mem hfield) field.1 List.mem_cons_self rfl

/-- Among the fields that are kept a field is found if it is one of them. -/
theorem lookup_filter_of_mem (h : (fields.map Prod.fst).Nodup) (hmem : (name, value) ∈ fields)
    (keeps : String × α → Bool) :
    (fields.filter keeps).lookup name = if keeps (name, value) then some value else none := by
  split
  · rename_i hkeep
    exact lookup_of_mem (h.sublist (List.filter_sublist.map Prod.fst)) (List.mem_filter.mpr ⟨hmem, hkeep⟩)
  · rename_i hdrop
    rw [List.lookup_eq_none_iff]
    intro other hother
    obtain ⟨hin, hkeep⟩ := List.mem_filter.mp hother
    refine bne_iff_ne.mpr fun heq => hdrop ?_
    rwa [List.inj_on_of_nodup_map h hmem hin heq]

namespace RawJson

/-- Fields with names, as an object has them. -/
def named (raw : α → RawJson) (fields : List (String × α)) : List (Option String × RawJson) :=
  fields.map fun (name, value) => (some name, raw value)

theorem ofFields_eq_named (fields : JsonFields) : ofFields fields = named ofJson fields := by
  induction fields with
  | nil => rfl
  | cons field fields ih => rw [ofFields, ih, named, named, List.map_cons]

theorem isSome_of_mem_named {raw : α → RawJson} {field : Option String × RawJson}
    (h : field ∈ named raw fields) : field.1.isSome = true := by
  obtain ⟨_, _, rfl⟩ := List.mem_map.mp h
  rfl

theorem lookup_named (raw : α → RawJson) (fields : List (String × α)) (name : String) :
    (named raw fields).lookup (some name) = (fields.lookup name).map raw := by
  induction fields with
  | nil => rfl
  | cons field fields ih =>
      rw [named, List.map_cons, List.lookup_cons, List.lookup_cons, ← named, ih, Option.some_beq_some]
      cases name == field.1 <;> rfl

theorem occursOnce_named (raw : α → RawJson) (h : (fields.map Prod.fst).Nodup) (name : String) :
    occursOnce (named raw fields) name = true := by
  have hcount := List.nodup_iff_count_le_one.mp h name
  rw [List.count, List.countP_map, List.countP_eq_length_filter] at hcount
  rw [occursOnce, named, List.filter_map, List.length_map, decide_eq_true_eq]
  refine Nat.le_trans (Nat.le_of_eq ?_) hcount
  congr 2
  funext field
  simp [Bool.beq_eq_decide_eq]

/-- What is found for the members of a record of which some are kept. -/
theorem Holds.exists_kept {raw : α → RawJson} {keys : List String} {keeps : String × α → Bool}
    {record : RawJson} (h : Holds keys (named raw (fields.filter keeps)) record) (closed : Bool)
    (hkeys : fields.map Prod.fst = keys) (hnodup : keys.Nodup) :
    ∃ found, members? closed keys record = some found ∧
      ∀ field ∈ fields, found field.1 = if keeps field then some (raw field.2) else none := by
  rw [← hkeys] at hnodup
  have hkept : ((fields.filter keeps).map Prod.fst).Nodup :=
    hnodup.sublist (List.filter_sublist.map Prod.fst)
  obtain ⟨found, hmembers, hfound⟩ := h.exists_members closed (fun _ => isSome_of_mem_named)
    (fun name _ => occursOnce_named raw hkept name)
  refine ⟨found, hmembers, fun field hfield => ?_⟩
  rw [hfound field.1 (hkeys ▸ List.mem_map_of_mem hfield), lookup_named,
    lookup_filter_of_mem hnodup hfield, apply_ite (Option.map raw)]
  rfl

end RawJson

end Named

/-! ## Options over their usual values -/

namespace RouterOptions

/-- The options that are kept; the others have their usual values. -/
def restrict (keeps : String → Bool) (options : RouterOptions) : RouterOptions :=
  let usual : RouterOptions := {}
  { basePath := if keeps "base_path" then options.basePath else usual.basePath
    templateDir := if keeps "template_dir" then options.templateDir else usual.templateDir
    staticDir := if keeps "static_dir" then options.staticDir else usual.staticDir
    extensions := if keeps "template_exts" then options.extensions else usual.extensions
    notFoundRoute := if keeps "not_found_route" then options.notFoundRoute else usual.notFoundRoute
    errorRoute := if keeps "error_route" then options.errorRoute else usual.errorRoute }

end RouterOptions

namespace ParserOptions

/-- The options that are kept; the others have their usual values. -/
def restrict (keeps : String → Bool) (options : ParserOptions) : ParserOptions :=
  let usual : ParserOptions := {}
  { storageDir := if keeps "storage_dir" then options.storageDir else usual.storageDir
    spillThreshold := if keeps "spill_threshold_bytes" then options.spillThreshold else usual.spillThreshold
    maxBody := if keeps "max_body_bytes" then options.maxBody else usual.maxBody }

end ParserOptions

namespace ListenOptions

/-- The options that are kept; the others have their usual values. -/
def restrict (keeps : String → Bool) (options : ListenOptions) : ListenOptions :=
  let usual : ListenOptions := {}
  { host := if keeps "host" then options.host else usual.host
    port := if keeps "port" then options.port else usual.port }

end ListenOptions

namespace RawJson

/-- A member that is kept is read, and otherwise its usual value holds. -/
theorem memberOr_kept {α : Type} (usual : α) (decode : RawJson → Option α) (kept : Bool) (value : RawJson) :
    memberOr usual decode (if kept then some value else none) =
      if kept then decode value else some usual := by
  cases kept <;> rfl

end RawJson

/-! ## Options as they are written -/

theorem Path.ofRaw?_ofJson (path : Path) : ofRaw? (.ofJson (.string path.text)) = some path :=
  rfl

theorem RawJson.text?_ofJson (text : String) : text? (.ofJson (.string text)) = some text :=
  rfl

theorem RawJson.texts?_ofJson (texts : List String) :
    texts? (.ofJson (.array (texts.map .string))) = some texts := by
  rw [RawJson.ofJson, RawJson.texts?]
  induction texts with
  | nil => rfl
  | cons text texts ih =>
      rw [List.map_cons, RawJson.ofItems, List.mapM_cons, ih]
      rfl

theorem RawJson.natUpTo?_ofJson {limit n : Nat} (h : n ≤ limit) :
    natUpTo? limit (.ofJson (.ofNat n)) = some n := by
  simp [natUpTo?, ofJson, Json.ofNat, h]

theorem sizeOfRaw?_ofJson (size : UInt64) : sizeOfRaw? (.ofJson (.ofNat size.toNat)) = some size := by
  rw [sizeOfRaw?, RawJson.natUpTo?_ofJson (Nat.le_sub_one_of_lt size.toNat_lt), Option.map_some,
    UInt64.ofNat_toNat]

theorem portOfRaw?_ofJson (port : UInt16) : portOfRaw? (.ofJson (.ofNat port.toNat)) = some port := by
  rw [portOfRaw?, RawJson.natUpTo?_ofJson (Nat.le_sub_one_of_lt port.toNat_lt), Option.map_some,
    UInt16.ofNat_toNat]

section Tables

variable {format : Format} {keeps : String → Bool} {value : RawJson}

theorem Format.writes_string (text : String) : format.writes (.string text) = true :=
  rfl

theorem Format.writes_array (items : List Json) : format.writes (.array items) = true :=
  rfl

theorem Format.writes_ofNat (n : Nat) : format.writes (.ofNat n) = true :=
  rfl

/-- What is kept of router options is read over the usual ones. -/
theorem RouterOptions.ofRaw?_kept {options : RouterOptions}
    (h : RawJson.Holds keys (RawJson.named .ofJson (format.kept keeps options.toJson)) value) :
    ofRaw? format .omitted value = some (options.restrict keeps) := by
  rw [omitted_eq]
  obtain ⟨found, hmembers, hfound⟩ := h.exists_kept format.closed rfl (by decide)
  simp only [toJson, Json.fields, List.forall_mem_cons, Format.writes_string, Format.writes_array,
    Bool.and_true] at hfound
  obtain ⟨h₁, h₂, h₃, h₄, h₅, h₆, -⟩ := hfound
  simp only [ofRaw?, hmembers, Option.bind_eq_bind, Option.bind_some, h₁, h₂, h₃, h₄, h₅, h₆,
    RawJson.memberOr_kept, Path.ofRaw?_ofJson, RawJson.texts?_ofJson, RawJson.text?_ofJson, ← apply_ite some]
  rfl

/-- A directory that may be missing is read again; a format without `null` says by leaving it out that it is
missing, as its usual value does. -/
theorem Format.directory_kept (kept : Bool) (dir : Option Path) :
    (if kept && format.writes (dir.elim .null fun dir => .string dir.text) then
      format.optional? Path.ofRaw? (.ofJson (dir.elim .null fun dir => .string dir.text)) else some none) =
      some (if kept then dir else none) := by
  obtain ⟨hasNull, closed⟩ := format
  cases kept with
  | false => rfl
  | true => cases dir <;> cases hasNull <;> rfl

/-- What is kept of parser options is read over the usual ones. -/
theorem ParserOptions.ofRaw?_kept {options : ParserOptions}
    (h : RawJson.Holds keys (RawJson.named .ofJson (format.kept keeps options.toJson)) value) :
    ofRaw? format .omitted value = some (options.restrict keeps) := by
  rw [omitted_eq]
  obtain ⟨found, hmembers, hfound⟩ := h.exists_kept format.closed rfl (by decide)
  simp only [toJson, Json.fields, List.forall_mem_cons, Format.writes_ofNat, Bool.and_true] at hfound
  obtain ⟨h₁, h₂, h₃, -⟩ := hfound
  simp only [ofRaw?, hmembers, Option.bind_eq_bind, Option.bind_some, h₁, h₂, h₃, RawJson.memberOr_kept,
    Format.directory_kept, sizeOfRaw?_ofJson, ← apply_ite some]
  rfl

/-- What is kept of listen options is read over the usual ones. -/
theorem ListenOptions.ofRaw?_kept {options : ListenOptions}
    (h : RawJson.Holds keys (RawJson.named .ofJson (format.kept keeps options.toJson)) value) :
    ofRaw? format .omitted value = some (options.restrict keeps) := by
  rw [omitted_eq]
  obtain ⟨found, hmembers, hfound⟩ := h.exists_kept format.closed rfl (by decide)
  simp only [toJson, Json.fields, List.forall_mem_cons, Format.writes_string, Format.writes_ofNat,
    Bool.and_true] at hfound
  obtain ⟨h₁, h₂, -⟩ := hfound
  simp only [ofRaw?, hmembers, Option.bind_eq_bind, Option.bind_some, h₁, h₂, RawJson.memberOr_kept,
    RawJson.text?_ofJson, portOfRaw?_ofJson, ← apply_ite some]
  rfl

end Tables

/-! ## Configurations that are written in part -/

/-- What is left of a configuration: some tables, and some options of each. -/
structure Selection where
  table : String → Bool
  option : String → String → Bool

def Selection.everything : Selection :=
  ⟨fun _ => true, fun _ _ => true⟩

namespace SiteConfig

open RawJson (Holds named)

/-- The configuration with the usual values of what is left out. -/
def restrict (kept : Selection) (config : SiteConfig) : SiteConfig where
  router := if kept.table "router" then config.router.restrict (kept.option "router") else {}
  parser := if kept.table "request_parser" then config.parser.restrict (kept.option "request_parser") else {}
  listen := if kept.table "listen" then config.listen.restrict (kept.option "listen") else {}

def serialized (format : Format) (kept : Selection) (config : SiteConfig) : Json :=
  .object ((config.toJson.fields.filter (kept.table ·.1)).map fun (name, table) =>
    (name, .object (format.kept (kept.option name) table)))

/-- What is left of a configuration is written: in each table and among the tables there are those fields of
the serialized form that are kept, in any order, and perhaps fields of other names. -/
inductive Written (format : Format) (kept : Selection) (config : SiteConfig) : RawJson → Prop where
  | intro {router parser listen value : RawJson}
      (hrouter : Holds RouterOptions.keys
        (named .ofJson (format.kept (kept.option "router") config.router.toJson)) router)
      (hparser : Holds ParserOptions.keys
        (named .ofJson (format.kept (kept.option "request_parser") config.parser.toJson)) parser)
      (hlisten : Holds ListenOptions.keys
        (named .ofJson (format.kept (kept.option "listen") config.listen.toJson)) listen)
      (htables : Holds keys (named id
        ([("router", router), ("request_parser", parser), ("listen", listen)].filter (kept.table ·.1))) value) :
      Written format kept config value

variable {format : Format} {kept : Selection} {config : SiteConfig} {value : RawJson}

/-- What is left of a configuration is read over the usual values. -/
theorem ofRaw?_written (h : config.Written format kept value) :
    ofRaw? format value = some (config.restrict kept) := by
  obtain ⟨hrouter, hparser, hlisten, htables⟩ := h
  have hnodup : keys.Nodup := by decide
  obtain ⟨found, hmembers, hfound⟩ := htables.exists_kept format.closed rfl hnodup
  simp only [List.forall_mem_cons, id] at hfound
  obtain ⟨h₁, h₂, h₃, -⟩ := hfound
  simp only [ofRaw?, hmembers, Option.bind_eq_bind, Option.bind_some, h₁, h₂, h₃, RawJson.memberOr_kept,
    RouterOptions.ofRaw?_kept hrouter, ParserOptions.ofRaw?_kept hparser, ListenOptions.ofRaw?_kept hlisten,
    ← apply_ite some]
  rfl

/-- What is left of the serialized form is written. -/
theorem written_serialized (format : Format) (kept : Selection) (config : SiteConfig) :
    config.Written format kept (.ofJson (config.serialized format kept)) := by
  refine .intro (RawJson.holds_object _ _) (RawJson.holds_object _ _) (RawJson.holds_object _ _) ?_
  have hfields : RawJson.ofJson (config.serialized format kept) = .object (named id
      (((config.toJson.fields.map fun (name, table) =>
        (name, RawJson.object (named .ofJson (format.kept (kept.option name) table)))).filter
          (kept.table ·.1)))) := by
    rw [serialized, RawJson.ofJson, RawJson.ofFields_eq_named, List.filter_map, named, named, List.map_map,
      List.map_map]
    refine congrArg RawJson.object (List.map_congr_left fun field _ => ?_)
    simp [RawJson.ofJson, RawJson.ofFields_eq_named]
  rw [hfields]
  exact RawJson.holds_object _ _

/-- With nothing left out the serialized form is whole. -/
theorem serialized_everything (config : SiteConfig) :
    config.serialized .json .everything = config.toJson := by
  have hkept (table : Json) : Format.json.kept (fun _ => true) table = table.fields := by
    refine List.filter_eq_self.mpr fun (name, value) _ => ?_
    cases value <;> rfl
  have htables : config.toJson.fields.filter (fun _ => true) = config.toJson.fields :=
    List.filter_true config.toJson.fields
  simp only [serialized, Selection.everything, htables, hkept]
  rfl

end SiteConfig

end SiteServer

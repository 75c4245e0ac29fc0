import SiteServer.Proofs.Config.Overlay
import SiteServer.Proofs.Toml.Sheet

/-! # Texts of configurations.

What is left of the serialized form of a configuration has a JSON text and, when its sizes fit the numbers of
TOML, a TOML text. Reading such a text gives the configuration over the usual values of what was left out, and
with nothing left out the configuration itself. -/

namespace SiteServer

open Toml (Plain Sheet)

/-! ## Values of options -/

/-- The value of an option: nothing, a text, a list of texts, or a number below a limit. -/
inductive OptionValue (limit : Nat) : Json → Prop where
  | null : OptionValue limit .null
  | text (text : String) : OptionValue limit (.string text)
  | texts (texts : List String) : OptionValue limit (.array (texts.map .string))
  | size {n : Nat} (below : n < limit) : OptionValue limit (.ofNat n)

/-- The sizes and the port of a configuration lie below a limit. -/
def SiteConfig.Below (limit : Nat) (config : SiteConfig) : Prop :=
  config.parser.spillThreshold.toNat < limit ∧ config.parser.maxBody.toNat < limit ∧
    config.listen.port.toNat < limit

theorem SiteConfig.optionValue {limit : Nat} {config : SiteConfig} (h : config.Below limit) :
    ∀ table ∈ config.toJson.fields, ∀ field ∈ table.2.fields, OptionValue limit field.2 := by
  obtain ⟨hspill, hbody, hport⟩ := h
  have hdir : OptionValue limit (config.parser.storageDir.elim .null fun dir => .string dir.text) := by
    cases config.parser.storageDir with
    | none => exact .null
    | some dir => exact .text dir.text
  simp only [toJson, Json.fields, RouterOptions.toJson, ParserOptions.toJson, ListenOptions.toJson,
    List.forall_mem_cons, List.not_mem_nil, false_implies, implies_true, and_true]
  exact ⟨⟨.text _, .text _, .text _, .texts _, .text _, .text _⟩, ⟨hdir, .size hspill, .size hbody⟩,
    .text _, .size hport⟩

/-- What is left of the serialized form holds options that stood there, where the format writes them. -/
theorem SiteConfig.mem_serialized {format : Format} {kept : Selection} {config : SiteConfig}
    {table : String × Json} (h : table ∈ (config.serialized format kept).fields) :
    ∃ whole ∈ config.toJson.fields, table.2 = .object (format.kept (kept.option whole.1) whole.2) := by
  obtain ⟨whole, hwhole, rfl⟩ := List.mem_map.mp h
  exact ⟨whole, (List.mem_filter.mp hwhole).1, rfl⟩

/-! ## JSON -/

theorem OptionValue.whole {value : Json} (h : OptionValue UInt64.size value) : value.Whole := by
  cases h with
  | null => trivial
  | text text => trivial
  | texts texts =>
      rw [Json.Whole, Json.wholeItems_iff]
      intro item hitem
      obtain ⟨text, _, rfl⟩ := List.mem_map.mp hitem
      trivial
  | size below => exact ⟨by omega, by omega⟩

/-- The numbers of the serialized form are whole. -/
theorem SiteConfig.whole_serialized (format : Format) (kept : Selection) (config : SiteConfig) :
    (config.serialized format kept).Whole := by
  have hport : config.listen.port.toNat < UInt64.size := Nat.lt_trans config.listen.port.toNat_lt (by decide)
  have hvalue := optionValue ⟨config.parser.spillThreshold.toNat_lt, config.parser.maxBody.toNat_lt, hport⟩
  refine (Json.wholeFields_iff _).mpr fun table htable => ?_
  obtain ⟨whole, hwhole, heq⟩ := mem_serialized htable
  rw [heq]
  refine (Json.wholeFields_iff _).mpr fun field hfield => ?_
  exact (hvalue whole hwhole field (List.mem_filter.mp hfield).1).whole

/-! ## TOML -/

theorem OptionValue.exists_plain {value : Json} (h : OptionValue (1 <<< 63) value)
    (hwrites : Format.toml.writes value = true) : ∃ plain : Plain, plain.data = value := by
  cases h with
  | null => cases hwrites
  | text text => exact ⟨.text text, rfl⟩
  | texts texts => exact ⟨.texts texts, rfl⟩
  | size below => exact ⟨.size ⟨_, below⟩, rfl⟩

theorem exists_dataOf {fields : JsonFields} (h : ∀ field ∈ fields, ∃ plain : Plain, plain.data = field.2) :
    ∃ pairs, Toml.dataOf pairs = fields := by
  induction fields with
  | nil => exact ⟨[], rfl⟩
  | cons field fields ih =>
      obtain ⟨⟨plain, hplain⟩, hrest⟩ := List.forall_mem_cons.mp h
      obtain ⟨pairs, hpairs⟩ := ih hrest
      refine ⟨(field.1, plain) :: pairs, ?_⟩
      rw [Toml.dataOf, List.map_cons, ← Toml.dataOf, hpairs]
      dsimp only
      rw [hplain]

theorem map_fst_dataOf (pairs : List (String × Plain)) :
    (Toml.dataOf pairs).map Prod.fst = pairs.map Prod.fst := by
  rw [Toml.dataOf, List.map_map]
  rfl

/-- Tables of plain values are those of a sheet. -/
theorem exists_tables {tables : List (String × Json)}
    (h : ∀ table ∈ tables, ∃ fields : JsonFields, table.2 = .object fields ∧ (fields.map Prod.fst).Nodup ∧
      ∀ field ∈ fields, ∃ plain : Plain, plain.data = field.2) :
    ∃ sheets : List (String × List (String × Plain)),
      (sheets.map fun (name, pairs) => (name, Json.object (Toml.dataOf pairs))) = tables ∧
      ∀ sheet ∈ sheets, (sheet.2.map Prod.fst).Nodup := by
  induction tables with
  | nil => exact ⟨[], rfl, fun _ h => absurd h List.not_mem_nil⟩
  | cons table tables ih =>
      obtain ⟨⟨fields, htable, hnodup, hplain⟩, hrest⟩ := List.forall_mem_cons.mp h
      obtain ⟨pairs, rfl⟩ := exists_dataOf hplain
      obtain ⟨sheets, rfl, hdistinct⟩ := ih hrest
      rw [map_fst_dataOf] at hnodup
      refine ⟨(table.1, pairs) :: sheets, ?_, List.forall_mem_cons.mpr ⟨hnodup, hdistinct⟩⟩
      rw [List.map_cons]
      dsimp only
      rw [← htable]

/-- No option stands twice in its table. -/
theorem SiteConfig.nodup_options (config : SiteConfig) :
    ∀ table ∈ config.toJson.fields, (table.2.fields.map Prod.fst).Nodup := by
  simp only [toJson, Json.fields, List.forall_mem_cons, List.not_mem_nil, false_implies, implies_true, and_true]
  have hrouter : RouterOptions.keys.Nodup := by decide
  have hparser : ParserOptions.keys.Nodup := by decide
  have hlisten : ListenOptions.keys.Nodup := by decide
  exact ⟨hrouter, hparser, hlisten⟩

/-- A configuration whose sizes fit the numbers of TOML can be written as a sheet, whatever is left of it. -/
theorem SiteConfig.exists_sheet {config : SiteConfig} (h : config.Below (1 <<< 63)) (kept : Selection) :
    ∃ sheet : Sheet, sheet.data = config.serialized .toml kept := by
  obtain ⟨tables, htables, hdistinct⟩ : ∃ tables : List (String × List (String × Plain)),
      (tables.map fun (name, pairs) => (name, Json.object (Toml.dataOf pairs))) =
        (config.serialized .toml kept).fields ∧ ∀ table ∈ tables, (table.2.map Prod.fst).Nodup := by
    refine exists_tables fun table htable => ?_
    obtain ⟨whole, hwhole, heq⟩ := mem_serialized htable
    refine ⟨_, heq, ?_, fun field hfield => ?_⟩
    · exact (config.nodup_options whole hwhole).sublist (List.filter_sublist.map Prod.fst)
    · obtain ⟨hoption, hkept⟩ := List.mem_filter.mp hfield
      exact (optionValue h whole hwhole field hoption).exists_plain (Bool.and_eq_true_iff.mp hkept).2
  have hnames : (tables.map Prod.fst).Nodup := by
    have hkeys : (config.toJson.fields.map Prod.fst).Nodup := (by decide : keys.Nodup)
    have hfst := congrArg (List.map Prod.fst) htables
    simp only [serialized, Json.fields, List.map_map] at hfst
    refine (congrArg List.Nodup hfst).mpr ?_
    exact hkeys.sublist (List.filter_sublist.map Prod.fst)
  exact ⟨⟨[], tables, hnames, hdistinct⟩, congrArg Json.object htables⟩

/-! ## Reading what is left of a configuration -/

namespace SiteConfig

/-- A configuration of which anything may be left out.

Reading what is left, as data or as a text, gives the configuration with the usual values of exactly what was
left out; in each table and among the tables the fields may be in any order, and there may be others. What is
left of the serialized form is such data, and it has texts. -/
structure ReadsOverDefaults (config : SiteConfig) : Prop where
  data : ∀ (format : Format) (kept : Selection) (value : RawJson), config.Written format kept value →
    ofRaw? format value = some (config.restrict kept)
  json : ∀ (kept : Selection) (text : List Char) (value : Json), Json.Lexes text value.tokens →
    config.Written .json kept (.ofJson value) →
    (Json.readRaw text).toOption.bind (ofRaw? .json) = some (config.restrict kept)
  toml : ∀ (kept : Selection) (text : String) (value : Json), Toml.read? text = some value →
    config.Written .toml kept (.ofJson value) →
    (Toml.read? text).bind (ofJson? .toml) = some (config.restrict kept)
  sheet : ∀ (kept : Selection) (sheet : Sheet), config.Written .toml kept (.ofJson sheet.data) →
    (Toml.read? sheet.text).bind (ofJson? .toml) = some (config.restrict kept)
  written : ∀ (format : Format) (kept : Selection),
    config.Written format kept (.ofJson (config.serialized format kept))
  hasJson : ∀ kept : Selection,
    Json.Lexes (config.serialized .json kept).print (config.serialized .json kept).tokens
  hasToml : config.Below (1 <<< 63) → ∀ kept : Selection,
    ∃ sheet : Sheet, sheet.data = config.serialized .toml kept
  everything : config.serialized .json .everything = config.toJson ∧ config.restrict .everything = config
  nothing : ∀ kept : Selection, (∀ table option, kept.option table option = false) →
    config.restrict kept = {}

/-- Every configuration is read over the usual values of what was left out of it. -/
theorem reads_over_defaults (config : SiteConfig) : config.ReadsOverDefaults where
  data := fun _ _ _ => ofRaw?_written
  json := by
    intro kept text value hlexes hwritten
    rw [Json.readRaw_eq_ok hlexes]
    exact ofRaw?_written hwritten
  toml := by
    intro kept text value hread hwritten
    rw [hread]
    exact ofRaw?_written hwritten
  sheet := by
    intro kept sheet hwritten
    rw [Toml.read?_text]
    exact ofRaw?_written hwritten
  written := fun format kept => written_serialized format kept config
  hasJson := by
    intro kept
    have hlexes := Json.lexes_print _ (whole_serialized .json kept config) (by simp [Json.EndsNumber]) .nil
    rwa [List.append_nil, List.append_nil] at hlexes
  hasToml := exists_sheet
  everything := ⟨serialized_everything config, rfl⟩
  nothing := by
    intro kept hnone
    simp [restrict, RouterOptions.restrict, ParserOptions.restrict, ListenOptions.restrict, hnone]

example : (Toml.read? "[router]\nbase_path = '/srv/site'\n\n[listen] # local\nport = 8080\n").bind
    (ofJson? .toml) = some { router := { basePath := ⟨"/srv/site"⟩ }, listen := { port := 8080 } } := by
  decide +kernel

end SiteConfig

end SiteServer

import SiteServer.Intake
import SiteServer.Proofs.FileTree.Changes

/-! # What parsing a request comes to.

The body decides: one that is empty or too large is settled before anything is stored, a large one goes to a
file, if there is a directory for it, and any other is read by its content type. What is stored in files and what
is tracked are the same on every way out: a failure leaves every regular file as it was and tracks nothing. -/

namespace SiteServer

open Message (Body Request)

/-- A body is stored in a directory: it is longer than the threshold, and still allowed. -/
structure ParserOptions.Spills (options : ParserOptions) (request : Request) (dir : Path) : Prop where
  allowed : request.rawBody.length ≤ options.maxBody.toNat
  large : options.spillThreshold.toNat < request.rawBody.length
  storage : options.storageDir = some dir

structure ParserOptions.Reads (options : ParserOptions) (request : Request) : Prop where
  nonempty : request.rawBody ≠ []
  allowed : request.rawBody.length ≤ options.maxBody.toNat
  unspilled : ∀ dir, ¬ options.Spills request dir

namespace Intake

variable {options : ParserOptions} {files : FileTree} {request : Request} {dir : Path} {fault : IoFault}

/-! ## Content types -/

/-- The content type of a request begins with a kind, in whatever case both are written. -/
def HasType (request : Request) (kind : String) : Prop :=
  ∃ value start, request.headers.text? "content-type" = some value ∧ start <+: value.toList ∧
    start.map Char.toLower = kind.toList.map Char.toLower

inductive Typed (request : Request) : Except Failure Body → Prop
  | json {value : Json} (kind : HasType request "application/json")
      (valid : Json.readBytes request.rawBody = .ok value) : Typed request (.ok (.json value))
  | invalid {fault : JsonFault} (kind : HasType request "application/json")
      (invalid : Json.readBytes request.rawBody = .error fault) :
      Typed request (.error (.stage (some "parse") (.invalidJsonBody fault)))
  | form (noJson : ¬ HasType request "application/json")
      (kind : HasType request "application/x-www-form-urlencoded") :
      Typed request (.ok (.form (Text.Form.pairs request.rawBody)))
  | raw (noJson : ¬ HasType request "application/json")
      (noForm : ¬ HasType request "application/x-www-form-urlencoded") :
      Typed request (.ok (.raw request.rawBody))

theorem begins_iff {text start : String} : begins text start = true ↔ start.toList <+: text.toList :=
  List.isPrefixOf_iff_prefix

/-- Comparing with the content type in lower case ignores the case, as kinds are written in lower case. -/
theorem begins_contentType_iff {kind : String} (hne : kind.toList ≠ [])
    (hlower : kind.toList.map Char.toLower = kind.toList) :
    begins (contentType request) kind = true ↔ HasType request kind := by
  rw [begins_iff, contentType, HasType, String.toList_map, List.prefix_map_iff, hlower]
  cases request.headers.text? "content-type" with
  | none =>
      constructor
      · rintro ⟨start, hstart, hkind⟩
        rw [List.prefix_nil.mp hstart] at hkind
        exact absurd hkind hne
      · rintro ⟨value, _, hvalue, _⟩
        cases hvalue
  | some value =>
      constructor
      · rintro ⟨start, hstart, hkind⟩
        exact ⟨value, start, rfl, hstart, hkind.symm⟩
      · rintro ⟨_, start, hvalue, hstart, hkind⟩
        cases hvalue
        exact ⟨start, hstart, hkind.symm⟩

theorem typed_typedBody (request : Request) : Typed request (typedBody request) := by
  have hjson : begins (contentType request) "application/json" = true ↔ HasType request "application/json" :=
    begins_contentType_iff (by decide) (by decide)
  have hform : begins (contentType request) "application/x-www-form-urlencoded" = true ↔
      HasType request "application/x-www-form-urlencoded" :=
    begins_contentType_iff (by decide) (by decide)
  rw [typedBody]
  split
  · rename_i hkind
    split
    · rename_i hvalid
      exact .json (hjson.mp hkind) hvalid
    · rename_i hinvalid
      exact .invalid (hjson.mp hkind) hinvalid
  · rename_i hnoJson
    split
    · rename_i hkind
      exact .form (mt hjson.mpr hnoJson) (hform.mp hkind)
    · rename_i hnoForm
      exact .raw (mt hjson.mpr hnoJson) (mt hform.mpr hnoForm)

/-! ## Ways to parse -/

/-- The request with its URL, which is parsed first. -/
def located (request : Request) : Request :=
  { request with url := some (urlOf request) }

/-- The file system refuses to store a body: its directory cannot be made, or its file cannot be written. -/
inductive StorageFails (files : FileTree) (request : Request) (dir : Path) (fault : IoFault) : Prop
  | directory (refused : (files.makeDirectories dir).1 = .error fault)
  | file (made : (files.makeDirectories dir).1 = .ok ())
      (refused : (files.makeDirectories dir).2.write (storagePath dir request) request.rawBody = .error fault)

theorem body_cases (options : ParserOptions) (request : Request) :
    request.rawBody = [] ∨ options.maxBody.toNat < request.rawBody.length ∨
      (∃ dir, options.Spills request dir) ∨ options.Reads request := by
  by_cases hempty : request.rawBody = []
  · exact .inl hempty
  · by_cases hlarge : options.maxBody.toNat < request.rawBody.length
    · exact .inr (.inl hlarge)
    · by_cases hspills : ∃ dir, options.Spills request dir
      · exact .inr (.inr (.inl hspills))
      · exact .inr (.inr (.inr ⟨hempty, Nat.le_of_not_lt hlarge, not_exists.mp hspills⟩))

theorem storage_cases (files : FileTree) (request : Request) (dir : Path) :
    (∃ fault, StorageFails files request dir fault) ∨
      ∃ written, (files.makeDirectories dir).1 = .ok () ∧
        (files.makeDirectories dir).2.write (storagePath dir request) request.rawBody = .ok written := by
  cases hmade : (files.makeDirectories dir).1 with
  | error fault => exact .inl ⟨fault, .directory hmade⟩
  | ok _ =>
      cases hwrite : (files.makeDirectories dir).2.write (storagePath dir request) request.rawBody with
      | error fault => exact .inl ⟨fault, .file hmade hwrite⟩
      | ok written => exact .inr ⟨written, rfl, rfl⟩

theorem take_of_empty (h : request.rawBody = []) :
    take options files request = ⟨.ok (), files, { located request with body := .empty }, []⟩ := by
  rw [take, takeBody]
  simp [h, located]

theorem take_of_tooLarge (h : options.maxBody.toNat < request.rawBody.length) :
    take options files request =
      ⟨.error (.stage (some "parse") (.bodyTooLarge request.rawBody.length options.maxBody.toNat)), files,
        located request, []⟩ := by
  rw [take, takeBody]
  simp only [h, if_true]
  rw [if_neg (Nat.ne_zero_of_lt h)]
  rfl

theorem storageFor_of_spills (h : options.Spills request dir) :
    storageFor options request.rawBody.length = some dir := by
  rw [storageFor, if_pos h.large, h.storage]

theorem take_of_spills (h : options.Spills request dir) :
    take options files request = storeBody dir files (located request) := by
  rw [take, takeBody]
  simp only [storageFor_of_spills h]
  rw [if_neg (Nat.ne_zero_of_lt h.large), if_neg (Nat.not_lt_of_le h.allowed)]
  rfl

theorem take_of_reads (h : options.Reads request) :
    take options files request =
      match typedBody request with
      | .ok body => ⟨.ok (), files, { located request with body }, []⟩
      | .error failure => ⟨.error failure, files, located request, []⟩ := by
  obtain ⟨hnonempty, hallowed, hunspilled⟩ := h
  have hstorage : storageFor options request.rawBody.length = none := by
    rw [storageFor]
    split
    · rename_i hlarge
      exact Option.eq_none_iff_forall_ne_some.mpr fun dir hdir => hunspilled dir ⟨hallowed, hlarge, hdir⟩
    · rfl
  rw [take, takeBody]
  simp only [hstorage]
  rw [if_neg (by simpa using hnonempty), if_neg (Nat.not_lt_of_le hallowed)]
  rfl

theorem storeBody_of_fails (h : StorageFails files request dir fault) :
    storeBody dir files (located request) =
      ⟨.error (.io fault), (files.makeDirectories dir).2, located request, []⟩ := by
  rw [storeBody]
  cases h with
  | directory refused =>
      generalize files.makeDirectories dir = made at refused ⊢
      obtain ⟨_, made⟩ := made
      cases refused
      rfl
  | file success refused =>
      generalize files.makeDirectories dir = made at success refused ⊢
      obtain ⟨_, made⟩ := made
      cases success
      have hwrite : made.write (storagePath dir (located request)) (located request).rawBody = .error fault :=
        refused
      simp only [hwrite]

theorem storeBody_of_written {written : FileTree} (hmade : (files.makeDirectories dir).1 = .ok ())
    (hwrite : (files.makeDirectories dir).2.write (storagePath dir request) request.rawBody = .ok written) :
    storeBody dir files (located request) =
      ⟨.ok (), written,
        { (located request).track (storagePath dir request) with body := .stored (storagePath dir request) },
        []⟩ := by
  rw [storeBody]
  generalize files.makeDirectories dir = made at hmade hwrite ⊢
  obtain ⟨_, made⟩ := made
  cases hmade
  have hwrite : made.write (storagePath dir (located request)) (located request).rawBody = .ok written :=
    hwrite
  simp only [hwrite]
  rfl

/-! ## Files and paths -/

def keptIn : Body → List Path
  | .stored path => [path]
  | _ => []

/-- The files that were written are those at the paths that were tracked in addition: each holds the raw body,
and every other place has the file that it had before. -/
structure Tracks (files : FileTree) (request : Request) (newly : List Path) (out : Outcome) : Prop where
  tracked : out.request.tempFiles = request.tempFiles ++ newly
  written : ∀ path ∈ newly, ∃ place, out.files.Leads path place ∧
    out.files.fileAt? place = some request.rawBody
  others : ∀ place, (∀ path ∈ newly, ¬ out.files.Leads path place) →
    out.files.fileAt? place = files.fileAt? place

/-- A failure leaves no trace among bodies, tracked paths and regular files. -/
structure Spares (files : FileTree) (request : Request) (out : Outcome) : Prop where
  body : out.request.body = request.body
  tracked : out.request.tempFiles = request.tempFiles
  files : ∀ place, out.files.fileAt? place = files.fileAt? place

/-- Where no file was before, there is one afterwards exactly if a path that was tracked in addition leads there. -/
theorem Tracks.isSome_iff {newly : List Path} {out : Outcome} {place : Location}
    (h : Tracks files request newly out) (hplace : files.fileAt? place = none) :
    (out.files.fileAt? place).isSome ↔ ∃ path ∈ newly, out.files.Leads path place := by
  constructor
  · intro hfile
    by_cases hleads : ∃ path ∈ newly, out.files.Leads path place
    · exact hleads
    · rw [h.others place (by simpa using hleads), hplace] at hfile
      cases hfile
  · rintro ⟨path, hpath, hleads⟩
    obtain ⟨other, hother, hfile⟩ := h.written path hpath
    rw [hleads.unique hother, hfile]
    rfl

theorem Tracks.nothing {out : Outcome} (htracked : out.request.tempFiles = request.tempFiles)
    (hfiles : out.files = files) : Tracks files request [] out where
  tracked := by rw [htracked, List.append_nil]
  written := List.forall_mem_nil _
  others place _ := by rw [hfiles]

/-- A file that is written in a directory that was made for it is the only one that changes. -/
theorem exists_place_of_write {path : Path} {written : FileTree} {content : Bytes}
    (hwrite : (files.makeDirectories dir).2.write path content = .ok written) :
    files.KeepsDirectories written ∧ ∃ place, (files.makeDirectories dir).2.Leads path place ∧
      written.Leads path place ∧ written.fileAt? place = some content ∧
        ∀ other, other ≠ place → written.fileAt? other = files.fileAt? other := by
  have hgrows := files.grows_makeDirectories dir
  obtain ⟨place, hleads, hfree, rfl⟩ := FileTree.leads_of_write hwrite
  have hkeeps := FileTree.keepsDirectories_put hleads.ne_nil hfree (.file content)
  refine ⟨fun other hother => hkeeps other (hgrows.directories other hother), place, hleads,
    hleads.of_keepsDirectories hkeeps, ?_, ?_⟩
  · rw [FileTree.fileAt?_put hleads.ne_nil, if_pos rfl]
    rfl
  · intro other hother
    rw [FileTree.fileAt?_put hleads.ne_nil, if_neg hother, hgrows.files other]

theorem keptIn_of_typed {body : Body} (h : Typed request (.ok body)) : keptIn body = [] := by
  cases h <;> rfl

/-- How parsing can end, as far as files and paths go: it fails, it finds a body that is kept in no file, or it
has written the body to a file. -/
inductive Ends (options : ParserOptions) (files : FileTree) (request : Request) : Outcome → Prop
  | failed {failure : Failure} {left : FileTree} (grows : files.Grows left) :
      Ends options files request ⟨.error failure, left, located request, []⟩
  | read {body : Body} (unkept : keptIn body = []) :
      Ends options files request ⟨.ok (), files, { located request with body }, []⟩
  | stored {dir : Path} {left : FileTree} (spills : options.Spills request dir)
      (written : (files.makeDirectories dir).2.write (storagePath dir request) request.rawBody = .ok left) :
      Ends options files request
        ⟨.ok (), left,
          { (located request).track (storagePath dir request) with
            body := .stored (storagePath dir request) }, []⟩

theorem ends_take (options : ParserOptions) (files : FileTree) (request : Request) :
    Ends options files request (take options files request) := by
  rcases body_cases options request with hempty | hlarge | ⟨dir, hspills⟩ | hreads
  · rw [take_of_empty hempty]
    exact .read rfl
  · rw [take_of_tooLarge hlarge]
    exact .failed (.refl files)
  · rw [take_of_spills hspills]
    rcases storage_cases files request dir with ⟨fault, hfails⟩ | ⟨written, hmade, hwrite⟩
    · rw [storeBody_of_fails hfails]
      exact .failed (files.grows_makeDirectories dir)
    · rw [storeBody_of_written hmade hwrite]
      exact .stored hspills hwrite
  · rw [take_of_reads hreads]
    have htyped := typed_typedBody request
    cases hbody : typedBody request with
    | error failure => exact .failed (.refl files)
    | ok body =>
        rw [hbody] at htyped
        exact .read (keptIn_of_typed htyped)

namespace Ends

variable {out : Outcome} {failure : Failure}

/-- Nothing of a request changes but its URL, its body and what it tracks, and no directory is taken away. -/
theorem frame (h : Ends options files request out) :
    (∃ body tempFiles, out.request = { located request with body, tempFiles }) ∧
      files.KeepsDirectories out.files := by
  cases h with
  | failed grows => exact ⟨⟨_, _, rfl⟩, grows.directories⟩
  | read _ => exact ⟨⟨_, _, rfl⟩, fun _ => id⟩
  | stored _ written => exact ⟨⟨_, _, rfl⟩, (exists_place_of_write written).1⟩

theorem tracks (h : Ends options files request out) (hok : out.result = .ok ()) :
    Tracks files request (keptIn out.request.body) out := by
  cases h with
  | failed _ => cases hok
  | read unkept =>
      dsimp only
      rw [unkept]
      exact .nothing rfl rfl
  | stored _ written =>
      obtain ⟨_, place, _, hleads, hfile, hothers⟩ := exists_place_of_write written
      refine ⟨rfl, ?_, ?_⟩
      · intro path hpath
        rw [List.mem_singleton.mp hpath]
        exact ⟨place, hleads, hfile⟩
      · intro other hother
        apply hothers
        rintro rfl
        exact hother _ (List.mem_singleton_self _) hleads

theorem spares (h : Ends options files request out) (herror : out.result = .error failure) :
    Spares files request out := by
  cases h with
  | failed grows => exact ⟨rfl, rfl, grows.files⟩
  | read _ => cases herror
  | stored _ _ => cases herror

end Ends

/-! ## What becomes of the body -/

theorem result_of_spills (h : options.Spills request dir) {failure : Failure} :
    (take options files request).result = .error failure ↔
      ∃ fault, StorageFails files request dir fault ∧ failure = .io fault := by
  rw [take_of_spills h]
  constructor
  · intro herror
    rcases storage_cases files request dir with ⟨fault, hfails⟩ | ⟨written, hmade, hwrite⟩
    · rw [storeBody_of_fails hfails] at herror
      cases herror
      exact ⟨fault, hfails, rfl⟩
    · rw [storeBody_of_written hmade hwrite] at herror
      cases herror
  · rintro ⟨fault, hfails, rfl⟩
    rw [storeBody_of_fails hfails]

theorem stored_of_spills (h : options.Spills request dir) (hok : (take options files request).result = .ok ()) :
    (take options files request).request.body = .stored (storagePath dir request) ∧
      (take options files request).files.content? (storagePath dir request) = some request.rawBody := by
  rw [take_of_spills h] at hok ⊢
  rcases storage_cases files request dir with ⟨fault, hfails⟩ | ⟨written, hmade, hwrite⟩
  · rw [storeBody_of_fails hfails] at hok
    cases hok
  · rw [storeBody_of_written hmade hwrite]
    obtain ⟨_, place, _, hleads, hfile, _⟩ := exists_place_of_write hwrite
    exact ⟨rfl, hleads.content?_eq.trans hfile⟩

theorem typed_of_reads (h : options.Reads request) : (take options files request).files = files ∧
    Typed request ((take options files request).result.map fun _ =>
      (take options files request).request.body) := by
  rw [take_of_reads h]
  have htyped := typed_typedBody request
  cases hbody : typedBody request with
  | error failure =>
      rw [hbody] at htyped
      exact ⟨rfl, htyped⟩
  | ok body =>
      rw [hbody] at htyped
      exact ⟨rfl, htyped⟩

/-- What parsing a request comes to. The URL is set in any case; the body is settled by its size, by the
options and by its content type; what was written is what is tracked, and a failure leaves no trace. -/
structure ParsesExactly (options : ParserOptions) (files : FileTree) (request : Request) (out : Outcome) :
    Prop where
  url : out.request.url = some
    { pathname := request.uri.path
      query := (request.uri.query.map fun query => Text.Form.pairs (bytesOf query)).getD [] }
  frame : out.request =
    { request with
      url := out.request.url, body := out.request.body, tempFiles := out.request.tempFiles }
  directories : files.KeepsDirectories out.files
  tooLarge : options.maxBody.toNat < request.rawBody.length → out.files = files ∧
    out.result =
      .error (.stage (some "parse") (.bodyTooLarge request.rawBody.length options.maxBody.toNat))
  empty : request.rawBody = [] → out.files = files ∧ out.result = .ok () ∧ out.request.body = .empty
  stored : ∀ dir, options.Spills request dir → out.result = .ok () →
    out.request.body = .stored (storagePath dir request) ∧
      out.files.content? (storagePath dir request) = some request.rawBody
  unstored : ∀ dir, options.Spills request dir → ∀ failure, out.result = .error failure ↔
    ∃ fault, StorageFails files request dir fault ∧ failure = .io fault
  typed : options.Reads request → out.files = files ∧
    Typed request (out.result.map fun _ => out.request.body)
  success : out.result = .ok () → Tracks files request (keptIn out.request.body) out
  created : out.result = .ok () → ∀ place, files.fileAt? place = none →
    ((out.files.fileAt? place).isSome ↔ ∃ path ∈ keptIn out.request.body, out.files.Leads path place)
  failure : ∀ failure, out.result = .error failure → Spares files request out

theorem parse_parsesExactly (options : ParserOptions) (files : FileTree) (request : Request) :
    ParsesExactly options files request ((usual options).parse files request) := by
  change ParsesExactly options files request (take options files request)
  have hends := ends_take options files request
  obtain ⟨⟨body, tempFiles, hrequest⟩, hdirectories⟩ := hends.frame
  refine ⟨?_, ?_, hdirectories, ?_, ?_, ?_, ?_, typed_of_reads, hends.tracks, ?_, ?_⟩
  · rw [hrequest]
    rfl
  · rw [hrequest]
    rfl
  · intro hlarge
    rw [take_of_tooLarge hlarge]
    exact ⟨rfl, rfl⟩
  · intro hempty
    rw [take_of_empty hempty]
    exact ⟨rfl, rfl, rfl⟩
  · intro dir hspills hok
    exact stored_of_spills hspills hok
  · intro dir hspills failure
    exact result_of_spills hspills
  · intro hok place hplace
    exact (hends.tracks hok).isSome_iff hplace
  · intro failure herror
    exact hends.spares herror

end Intake

end SiteServer

import SiteServer.Path

/-! # File trees: regular files and directories, without links.

A path is looked up step by step: every component but the last has to be a directory that exists, a
`..` leads to the directory above, and at the root back to the root. Relative paths start at the root,
which is the working directory. -/

namespace SiteServer

/-- Why the file system refuses an operation. -/
inductive IoFault where
  | notFound
  | exists
  | notDirectory
  | isDirectory
  | nameTooLong
  | nulInName
  | invalidUtf8
  | emptyPath
  | other (text : String)
  deriving DecidableEq, Repr

def IoFault.message : IoFault → String
  | .notFound => "No such file or directory (os error 2)"
  | .exists => "File exists (os error 17)"
  | .notDirectory => "Not a directory (os error 20)"
  | .isDirectory => "Is a directory (os error 21)"
  | .nameTooLong => "File name too long (os error 36)"
  | .nulInName => "file name contained an unexpected NUL byte"
  | .invalidUtf8 => "stream did not contain valid UTF-8"
  | .emptyPath => "cannot make an empty path absolute"
  | .other text => text

/-- The names on the way from the root to a place, outermost first. -/
abbrev Location := List String

inductive Entry where
  | file (content : Bytes)
  | directory
  deriving DecidableEq, Repr

/-- What is at each place; the root is a directory always. -/
structure FileTree where
  entries : List (Location × Entry)
  deriving Repr

namespace FileTree

def empty : FileTree := ⟨[]⟩

/-! ## Places -/

def occupant? (tree : FileTree) : Location → Option Entry
  | [] => some .directory
  | place => tree.entries.lookup place

/-- Puts an entry at a place, over what was there. -/
def put (tree : FileTree) (place : Location) (entry : Entry) : FileTree :=
  ⟨(place, entry) :: tree.entries.filter (·.1 ≠ place)⟩

def clear (tree : FileTree) (place : Location) : FileTree :=
  ⟨tree.entries.filter (·.1 ≠ place)⟩

def clearBelow (tree : FileTree) (place : Location) : FileTree :=
  ⟨tree.entries.filter fun e => !place.isPrefixOf e.1⟩

/-! ## Lookup by path -/

/-- A path is shorter than this, in bytes. -/
def pathLimit : Nat := 4096

/-- A name has at most this many bytes. -/
def nameLimit : Nat := 255

/-- Goes on from a place by the parts of a path between its slashes. -/
def walk (tree : FileTree) : Location → List (List Char) → Except IoFault Location
  | place, [] => .ok place
  | place, slice :: rest =>
    match tree.occupant? place with
    | some .directory =>
      if slice = [] ∨ slice = ['.'] then tree.walk place rest
      else if slice = ['.', '.'] then tree.walk place.dropLast rest
      else if nameLimit < Text.Utf8.byteSize slice then .error .nameTooLong
      else
        let next := place ++ [String.ofList slice]
        if (tree.occupant? next).isSome then tree.walk next rest else .error .notFound
    | some (.file _) => .error .notDirectory
    | none => .error .notFound

/-- A text that can be handed to the file system as a path. -/
def checkText (text : List Char) : Except IoFault Unit :=
  if '\x00' ∈ text then .error .nulInName
  else if text = [] then .error .notFound
  else if pathLimit ≤ Text.Utf8.byteSize text then .error .nameTooLong
  else .ok ()

/-- The place that a path leads to. -/
def locate (tree : FileTree) (p : Path) : Except IoFault Location := do
  checkText p.text.toList
  tree.walk [] (Path.slices p.text.toList)

/-- What a path leads to. -/
def find (tree : FileTree) (p : Path) : Except IoFault (Location × Entry) := do
  let place ← tree.locate p
  match tree.occupant? place with
  | some entry => .ok (place, entry)
  | none => .error .notFound

/-- The content of the regular file that a path leads to. -/
def content? (tree : FileTree) (p : Path) : Option Bytes :=
  match tree.find p with
  | .ok (_, .file content) => some content
  | _ => none

def isFile (tree : FileTree) (p : Path) : Bool :=
  (tree.content? p).isSome

def isDirectory (tree : FileTree) (p : Path) : Bool :=
  match tree.find p with
  | .ok (_, .directory) => true
  | _ => false

def occupied (tree : FileTree) (p : Path) : Bool :=
  match tree.find p with
  | .ok _ => true
  | .error _ => false

def read (tree : FileTree) (p : Path) : Except IoFault Bytes := do
  match ← tree.find p with
  | (_, .file content) => .ok content
  | (_, .directory) => .error .isDirectory

def readText (tree : FileTree) (p : Path) : Except IoFault String := do
  match stringOf? (← tree.read p) with
  | some text => .ok text
  | none => .error .invalidUtf8

/-! ## Changes by path -/

/-- The last part of a path and the parts before it; parts after the last name, which are empty, are
left out and reported. -/
structure Target where
  before : List (List Char)
  last : List Char
  trailing : Bool
  deriving DecidableEq, Repr

/-- Splits a path at its last part. A path of slashes only has none. -/
def target? (text : List Char) : Option Target :=
  let slices := Path.slices text
  match slices.reverse.dropWhile (· = []) with
  | [] => none
  | last :: before => some ⟨before.reverse, last, slices.getLast? = some []⟩

/-- A part of a path that is a name, not a step within the tree. -/
def isName (slice : List Char) : Bool :=
  slice ≠ ['.'] && slice ≠ ['.', '.']

/-- The directory that holds the last part of a path. -/
def holder (tree : FileTree) (target : Target) : Except IoFault Location := do
  let place ← tree.walk [] target.before
  match tree.occupant? place with
  | some .directory => .ok place
  | some (.file _) => .error .notDirectory
  | none => .error .notFound

/-- The place that the last part of a path names. -/
def namedPlace (tree : FileTree) (target : Target) : Except IoFault Location := do
  let place ← tree.holder target
  if nameLimit < Text.Utf8.byteSize target.last then .error .nameTooLong
  else .ok (place ++ [String.ofList target.last])

/-- Writes a file as a whole, in a directory that exists. -/
def write (tree : FileTree) (p : Path) (content : Bytes) : Except IoFault FileTree := do
  checkText p.text.toList
  match target? p.text.toList with
  | none => .error .isDirectory
  | some target =>
    if !isName target.last then
      let _ ← tree.holder target
      .error .isDirectory
    else
      let place ← tree.namedPlace target
      match tree.occupant? place, target.trailing with
      | some .directory, _ => .error .isDirectory
      | some (.file _), true => .error .notDirectory
      | none, true => .error .isDirectory
      | _, false => .ok (tree.put place (.file content))

/-- Removes a file; a directory is not removed. -/
def remove (tree : FileTree) (p : Path) : Except IoFault FileTree := do
  checkText p.text.toList
  match target? p.text.toList with
  | none => .error .isDirectory
  | some target =>
    if !isName target.last then
      let _ ← tree.holder target
      .error .isDirectory
    else
      let place ← tree.namedPlace target
      match tree.occupant? place, target.trailing with
      | none, _ => .error .notFound
      | some .directory, _ => .error .isDirectory
      | some (.file _), true => .error .notDirectory
      | some (.file _), false => .ok (tree.clear place)

/-- Makes one directory, in a directory that exists. -/
def makeDirectory (tree : FileTree) (p : Path) : Except IoFault FileTree := do
  checkText p.text.toList
  match target? p.text.toList with
  | none => .error .exists
  | some target =>
    if !isName target.last then
      let _ ← tree.holder target
      .error .exists
    else
      let place ← tree.namedPlace target
      if (tree.occupant? place).isSome then .error .exists else .ok (tree.put place .directory)

/-- Makes a directory, unless it is there already. -/
def ensureDirectory (tree : FileTree) (p : Path) : Except IoFault Unit × FileTree :=
  match tree.makeDirectory p with
  | .ok tree' => (.ok (), tree')
  | .error fault => (if tree.isDirectory p then .ok () else .error fault, tree)

/-- Makes a directory and the missing ones above it; `above` counts how far up it may have to go. -/
def makeDirectoriesWithin : Nat → FileTree → Path → Except IoFault Unit × FileTree
  | 0, tree, _ => (.ok (), tree)
  | above + 1, tree, p =>
    if p.text = "" then (.ok (), tree)
    else match tree.makeDirectory p with
      | .ok tree' => (.ok (), tree')
      | .error .notFound =>
        match p.parent? with
        | some parent =>
          match makeDirectoriesWithin above tree parent with
          | (.ok (), tree') => tree'.ensureDirectory p
          | (.error fault, tree') => (.error fault, tree')
        | none => (.error .notFound, tree)
      | .error fault => (if tree.isDirectory p then .ok () else .error fault, tree)

/-- Makes a directory and the missing ones above it. What was made stays when a later step fails. -/
def makeDirectories (tree : FileTree) (p : Path) : Except IoFault Unit × FileTree :=
  makeDirectoriesWithin (p.components.length + 1) tree p

/-! ## Laws of places -/

theorem lookup_filter_ne (place other : Location) (entries : List (Location × Entry)) :
    (entries.filter (·.1 ≠ place)).lookup other =
      if other = place then none else entries.lookup other := by
  induction entries with
  | nil => simp
  | cons e rest ih =>
    obtain ⟨l, x⟩ := e
    by_cases hl : l = place
    · subst hl
      by_cases ho : other = l
      · subst ho
        simpa using ih
      · have hb : (other == l) = false := by simpa using ho
        simpa [List.lookup_cons, hb, ho] using ih
    · by_cases ho : other = l
      · subst ho
        simp [hl]
      · have hb : (other == l) = false := by simpa using ho
        simpa [List.lookup_cons, hb, hl] using ih

theorem occupant?_put (tree : FileTree) {place : Location} (h : place ≠ []) (entry : Entry)
    (other : Location) :
    (tree.put place entry).occupant? other = if other = place then some entry else tree.occupant? other := by
  cases other with
  | nil => simp [occupant?, Ne.symm h]
  | cons n rest =>
    by_cases heq : n :: rest = place
    · simp [put, occupant?, heq]
    · have hb : (n :: rest == place) = false := by simpa using heq
      simp only [put, occupant?, List.lookup_cons, hb, heq, if_false]
      simpa [heq] using lookup_filter_ne place (n :: rest) tree.entries

theorem occupant?_clear (tree : FileTree) {place : Location} (h : place ≠ []) (other : Location) :
    (tree.clear place).occupant? other = if other = place then none else tree.occupant? other := by
  cases other with
  | nil => simp [occupant?, Ne.symm h]
  | cons n rest => exact lookup_filter_ne place (n :: rest) tree.entries

/-- A path that leads to a regular file is shorter than the limit. -/
theorem length_lt_of_isFile {tree : FileTree} {p : Path} (h : tree.isFile p) :
    p.text.toList.length < pathLimit := by
  simp only [isFile, content?, find, locate, checkText] at h
  by_cases h₁ : '\x00' ∈ p.text.toList
  · simp [h₁, bind, Except.bind] at h
  · by_cases h₂ : p.text.toList = []
    · simp [h₂, pathLimit]
    · by_cases h₃ : pathLimit ≤ Text.Utf8.byteSize p.text.toList
      · simp [h₁, h₂, h₃, bind, Except.bind] at h
      · have := Text.Utf8.length_le_byteSize p.text.toList
        omega

end FileTree

end SiteServer

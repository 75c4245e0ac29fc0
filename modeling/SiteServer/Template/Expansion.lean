import SiteServer.Join
import SiteServer.Template.Directive
import SiteServer.Template.Failure
import SiteServer.Template.Placeholder

/-! # Expanding includes.

A file is expanded by putting the expansion of the file that each directive refers to in the place of
the directive. The files being expanded on the way form a stack; a file is never expanded inside its own
expansion. Since a path leads to a file only when it is shorter than the file system allows, the stack
cannot grow for ever, and expansion ends. -/

namespace SiteServer.Template

/-! ## Finding the file of a directive -/

/-- Where includes are looked for: references that start with a slash are looked up in `root`, and the
extensions are tried in order. -/
structure Library where
  root : Path
  extensions : List String
  deriving DecidableEq, Repr

namespace Library

/-- The path that a reference in a file stands for, in normal form and without an added extension. -/
def base (library : Library) (reference : String) (including : Path) : Path :=
  match reference.toList with
  | '/' :: rooted => (library.root.join ⟨String.ofList rooted⟩).normalize
  | _ => ((including.parent?.getD library.root).join ⟨reference⟩).normalize

/-- The paths that are tried for a base, in order: the base itself if it has one of the extensions,
then the base with each extension appended. -/
def candidates (library : Library) (base : Path) : List Path :=
  let known := base.extension?.any library.extensions.contains
  (if known then [base] else []) ++ library.extensions.map base.appendExtension

/-- The file that a reference in a file stands for: the first candidate that is a regular file. -/
def resolve? (library : Library) (tree : FileTree) (reference : String) (including : Path) :
    Option Path :=
  (library.candidates (library.base reference including)).find? tree.isFile

end Library

/-! ## The measure of expansion -/

/-- A number for each text, different for different texts. -/
def codeOf : List Char → Nat
  | [] => 0
  | c :: rest => codeOf rest * 0x110001 + (c.toNat + 1)

/-- A bound of the numbers of texts with so many characters. -/
def codeBound (length : Nat) : Nat := Nat.pow 0x110001 length

theorem codeBound_le {m n : Nat} (h : m ≤ n) : codeBound m ≤ codeBound n :=
  Nat.pow_le_pow_right (by decide) h

theorem codeOf_lt (text : List Char) : codeOf text < codeBound text.length := by
  induction text with
  | nil => exact Nat.zero_lt_one
  | cons c rest ih =>
    have hc : c.toNat < 0x110000 := by
      have := c.valid
      simp only [UInt32.isValidChar, Nat.isValidChar] at this
      have hn : c.toNat = c.val.toNat := rfl
      omega
    have hb : codeBound (rest.length + 1) = codeBound rest.length * 0x110001 := rfl
    simp only [codeOf, List.length_cons, hb]
    have : codeOf rest + 1 ≤ codeBound rest.length := ih
    have := Nat.mul_le_mul_right 0x110001 this
    omega

theorem codeOf_injective {first second : List Char} (h : codeOf first = codeOf second) :
    first = second := by
  have bound (c : Char) : c.toNat < 0x110000 := by
    have := c.valid
    simp only [UInt32.isValidChar, Nat.isValidChar] at this
    have hn : c.toNat = c.val.toNat := rfl
    omega
  induction first generalizing second with
  | nil =>
    cases second with
    | nil => rfl
    | cons d rest =>
      simp only [codeOf] at h
      omega
  | cons c rest ih =>
    cases second with
    | nil =>
      simp only [codeOf] at h
      omega
    | cons d tail =>
      simp only [codeOf] at h
      have hc := bound c
      have hd := bound d
      have hcd : c.toNat = d.toNat := by omega
      have hrest : codeOf rest = codeOf tail := by omega
      rw [ih hrest, Char.toNat_inj.1 hcd]

/-- How many different numbers below a bound are in a list. -/
def taken (bound : Nat) : List Nat → Nat
  | [] => 0
  | m :: rest => taken bound rest + if m < bound ∧ m ∉ rest then 1 else 0

/-- How many numbers below a bound are not in a list. -/
def free (used : List Nat) : Nat → Nat
  | 0 => 0
  | n + 1 => free used n + if n ∈ used then 0 else 1

theorem free_nil (bound : Nat) : free [] bound = bound := by
  induction bound with
  | zero => rfl
  | succ n ih => simp [free, ih]

theorem free_cons_of_mem {used : List Nat} {m : Nat} (h : m ∈ used) (bound : Nat) :
    free (m :: used) bound = free used bound := by
  induction bound with
  | zero => rfl
  | succ n ih =>
    have hn : n ∈ m :: used ↔ n ∈ used := by
      rw [List.mem_cons]
      exact ⟨fun hn => hn.elim (fun he => he ▸ h) id, Or.inr⟩
    simp only [free, ih, hn]

theorem free_cons_of_le {used : List Nat} {m bound : Nat} (h : bound ≤ m) :
    free (m :: used) bound = free used bound := by
  induction bound with
  | zero => rfl
  | succ n ih =>
    have hn : n ∈ m :: used ↔ n ∈ used := by
      rw [List.mem_cons]
      exact or_iff_right (Nat.ne_of_lt h)
    simp only [free, ih (Nat.le_of_succ_le h), hn]

theorem free_cons_add_one {used : List Nat} {m bound : Nat} (hm : m < bound) (hu : m ∉ used) :
    free (m :: used) bound + 1 = free used bound := by
  induction bound with
  | zero => omega
  | succ n ih =>
    simp only [free, List.mem_cons]
    by_cases hn : n = m
    · subst hn
      simp [hu, free_cons_of_le (Nat.le_refl n)]
    · have := ih (by omega)
      simp only [hn, false_or]
      omega

theorem taken_add_free (bound : Nat) (used : List Nat) :
    taken bound used + free used bound = bound := by
  induction used with
  | nil => simp [taken, free_nil]
  | cons m rest ih =>
    rw [taken]
    by_cases hm : m < bound ∧ m ∉ rest
    · have := free_cons_add_one hm.1 hm.2
      simp only [hm, not_false_eq_true, and_self, if_true]
      omega
    · have hfree : free (m :: rest) bound = free rest bound := by
        by_cases hlt : m < bound
        · exact free_cons_of_mem (Decidable.not_not.1 fun hn => hm ⟨hlt, hn⟩) bound
        · exact free_cons_of_le (Nat.le_of_not_lt hlt)
      rw [if_neg hm, hfree]
      exact ih

/-- The bound of the numbers of all texts that are short enough to be paths. -/
def pathCodes : Nat := codeBound FileTree.pathLimit

/-- How many texts that are short enough to be paths are not on a stack. -/
def unvisited (stack : List Path) : Nat :=
  pathCodes - taken pathCodes (stack.map fun p => codeOf p.text.toList)

theorem unvisited_cons_lt {tree : FileTree} {stack : List Path} {target : Path}
    (hf : tree.isFile target) (hs : stack.any target.same = false) :
    unvisited (target :: stack) < unvisited stack := by
  have hlt : codeOf target.text.toList < pathCodes :=
    Nat.lt_of_lt_of_le (codeOf_lt _)
      (codeBound_le (Nat.le_of_lt (FileTree.length_lt_of_isFile hf)))
  have hnot : codeOf target.text.toList ∉ stack.map fun p => codeOf p.text.toList := by
    intro hm
    obtain ⟨q, hq, he⟩ := List.mem_map.1 hm
    have ht : q.text = target.text := String.toList_inj.1 (codeOf_injective he)
    have hqt : q = target := by
      cases q
      cases target
      simpa using ht
    subst hqt
    rw [List.any_eq_false] at hs
    exact hs q hq (by simp [Path.same])
  have hall := taken_add_free pathCodes
    (codeOf target.text.toList :: stack.map fun p => codeOf p.text.toList)
  unfold unvisited
  rw [List.map_cons]
  rw [taken, if_pos ⟨hlt, hnot⟩] at hall ⊢
  omega

/-! ## Expansion -/

/-- The order in which the includes of a file finish, given the files being expanded, innermost
first. -/
abbrev Schedule := List Path → List Nat

/-- Includes finish in the order in which they stand. -/
def Schedule.inOrder : Schedule := fun _ => []

/-- A directive together with its arguments. -/
abbrev Inclusion := Directive × Option JsonFields

/-- The directives of a page with their arguments; the first literal that is refused fails the page. -/
def inclusions (path : Path) : List Directive → Except Failure (List Inclusion)
  | [] => .ok []
  | d :: rest =>
    match d.arguments with
    | .error fault =>
      .error ⟨.arguments (String.ofList (d.literal.getD [])) fault, path, []⟩
    | .ok arguments => (inclusions path rest).map ((d, arguments) :: ·)

/-- The expansion of a file with the arguments of the directive filled in. -/
def fillIn (arguments : Option JsonFields) (fragment : List Char) : List Char :=
  match arguments with
  | some fields => Placeholder.substitute fields fragment
  | none => fragment

variable (library : Library) (tree : FileTree) (finish : Schedule)

/-- The text of a file with all includes expanded. `stack` holds the files being expanded, innermost
first, and starts with the file itself. -/
def expand (path : Path) (stack : List Path) : Except Failure (List Char) :=
  match tree.readText path with
  | .error fault => .error ⟨.read fault, path, stack.reverse⟩
  | .ok content =>
    let page := Page.ofText content.toList
    match inclusions path page.directives with
    | .error failure => .error failure
    | .ok includes =>
      let expansions := includes.map fun (directive, arguments) =>
        match _hr : library.resolve? tree directive.reference path with
        | none => .error ⟨.missing directive.reference, path, stack.reverse⟩
        | some target =>
          if _hs : stack.any target.same then .error ⟨.circular, target, stack.reverse⟩
          else (expand target (target :: stack)).map (fillIn arguments)
      (Join.settle (finish stack) expansions).map page.splice
termination_by unvisited stack
decreasing_by
  exact unvisited_cons_lt (List.find?_some _hr) (by simpa using _hs)

end SiteServer.Template

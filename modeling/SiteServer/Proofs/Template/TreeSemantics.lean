import SiteServer.Proofs.Template.Cycles
import SiteServer.Proofs.Template.Tokens
import SiteServer.Template.Compiler

/-! # Plain templates as trees of files.

The meaning of a plain template follows its includes: an include prints what its file prints, with the
arguments of the directive before those already in force. Compiling goes another way, over one text that
all includes are put into and that arguments are filled into from the inside out. The leaves of the tree
join the two: expansion gives their sources, and rendering gives what they print. -/

namespace SiteServer.Template

variable {library : Library} {tree : FileTree} {finish : Schedule} {root : Path} {data : Json}

/-! ## The meaning of a tree -/

def PlainFile (tree : FileTree) (path : Path) (tokens : List Token) : Prop :=
  ∃ content, tree.readText path = .ok content ∧ content.toList = tokens.flatMap Token.source ∧
    ∀ t ∈ tokens, t.Plain

/-- The arguments in force, innermost first. -/
abbrev Scope := List JsonFields

/-- What the arguments in force say of a leaf that they may fill. -/
def Leaf.binding (scope : Scope) (leaf : Leaf) : Option Json :=
  leaf.name?.bind fun name => scope.findSome? fun fields => fields.get? name

def Leaf.evaluate (data : Json) : Leaf → Except LookupFault (List Char)
  | .text content => .ok content
  | .mark => .ok ['<', '%']
  | .tag escaped _ lookup => (lookup.value data).map fun value =>
    if escaped then Text.Markup.escape (displayValue value) else displayValue value

/-- What a leaf prints: the argument that it is bound to, as it is, or what it prints by itself. -/
def Leaf.render (data : Json) (scope : Scope) (leaf : Leaf) : Except LookupFault (List Char) :=
  match leaf.binding scope with
  | some value => .ok (Placeholder.inserted value)
  | none => leaf.evaluate data

/-- One output after the other; the first failure counts. -/
def andThen (first rest : Except LookupFault (List Char)) : Except LookupFault (List Char) := do
  let printed ← first
  let others ← rest
  return printed ++ others

/-- What tokens of a file print: the leaves in order, and in the place of an include what its file
prints in the scope that the arguments of the directive make. -/
inductive Renders (library : Library) (tree : FileTree) (data : Json) :
    Path → Scope → List Token → Except LookupFault (List Char) → Prop where
  | done {path : Path} {scope : Scope} : Renders library tree data path scope [] (.ok [])
  | leaf {path : Path} {scope : Scope} {tokens : List Token}
      {rest : Except LookupFault (List Char)} (l : Leaf)
      (behind : Renders library tree data path scope tokens rest) :
      Renders library tree data path scope (.leaf l :: tokens) (andThen (l.render data scope) rest)
  | part {path target : Path} {scope : Scope} {directive : Directive}
      {arguments : Option JsonFields} {inner tokens : List Token}
      {first rest : Except LookupFault (List Char)}
      (resolved : library.resolve? tree directive.reference path = some target)
      (parsed : directive.arguments = .ok arguments) (file : PlainFile tree target inner)
      (inside : Renders library tree data target (arguments.toList ++ scope) inner first)
      (behind : Renders library tree data path scope tokens rest) :
      Renders library tree data path scope (.part directive :: tokens) (andThen first rest)

/-- What a plain file prints in a scope. -/
def RendersFile (library : Library) (tree : FileTree) (data : Json) (path : Path) (scope : Scope)
    (result : Except LookupFault (List Char)) : Prop :=
  ∃ tokens, PlainFile tree path tokens ∧ Renders library tree data path scope tokens result

/-- The output of a template for what its tree prints. -/
def outcome (path : Path) : Except LookupFault (List Char) → Except Failure String
  | .ok text => .ok (String.ofList text)
  | .error fault => .error ⟨.lookup fault, path, []⟩

/-! ## Leaves in scopes -/

def renderLeaves (data : Json) (scope : Scope) : List Leaf → Except LookupFault (List Char)
  | [] => .ok []
  | l :: leaves => andThen (l.render data scope) (renderLeaves data scope leaves)

/-- The leaf that the arguments of a directive, if it has any, leave in the place of a leaf. -/
def Leaf.fillIn (arguments : Option JsonFields) (leaf : Leaf) : Leaf :=
  arguments.elim leaf leaf.fill

theorem andThen_assoc (a b c : Except LookupFault (List Char)) :
    andThen (andThen a b) c = andThen a (andThen b c) := by
  cases a with
  | error fault => rfl
  | ok first =>
      cases b with
      | error fault => rfl
      | ok second =>
          cases c with
          | error fault => rfl
          | ok third => simp [andThen, bind, Except.bind, pure, Except.pure]

theorem ok_nil_andThen (a : Except LookupFault (List Char)) : andThen (.ok []) a = a := by
  cases a <;> rfl

/-- Both outputs are there when one behind the other is. -/
theorem exists_of_andThen_eq_ok {a b : Except LookupFault (List Char)} {printed : List Char}
    (h : andThen a b = .ok printed) :
    ∃ first rest, a = .ok first ∧ b = .ok rest ∧ printed = first ++ rest := by
  cases a with
  | error fault => cases h
  | ok first =>
      cases b with
      | error fault => cases h
      | ok rest =>
          cases h
          exact ⟨first, rest, rfl, rfl, rfl⟩

theorem renderLeaves_append (scope : Scope) (first rest : List Leaf) :
    renderLeaves data scope (first ++ rest) =
      andThen (renderLeaves data scope first) (renderLeaves data scope rest) := by
  induction first with
  | nil => exact (ok_nil_andThen _).symm
  | cons l first ih => rw [List.cons_append, renderLeaves, renderLeaves, ih, andThen_assoc]

theorem Leaf.binding_fillIn (arguments : Option JsonFields) (scope : Scope) (leaf : Leaf) :
    (∃ value, leaf.binding (arguments.toList ++ scope) = some value ∧
        leaf.fillIn arguments = .text (Placeholder.inserted value)) ∨
      leaf.binding (arguments.toList ++ scope) = leaf.binding scope ∧
        leaf.fillIn arguments = leaf := by
  cases arguments with
  | none => exact Or.inr ⟨rfl, rfl⟩
  | some fields =>
      unfold Leaf.fillIn Leaf.fill Leaf.binding
      cases hname : leaf.name? with
      | none => simp
      | some name =>
          cases hvalue : fields.get? name with
          | none => simp [hvalue]
          | some value => simp [hvalue]

/-- Filling in arguments does to a leaf what they do in force. -/
theorem Leaf.render_fillIn (arguments : Option JsonFields) (scope : Scope) (leaf : Leaf) :
    (leaf.fillIn arguments).render data scope = leaf.render data (arguments.toList ++ scope) := by
  rcases leaf.binding_fillIn arguments scope with ⟨value, hbinding, hfill⟩ | ⟨hbinding, hfill⟩
  · rw [hfill]
    unfold Leaf.render
    rw [hbinding]
    rfl
  · rw [hfill]
    unfold Leaf.render
    rw [hbinding]

theorem renderLeaves_fillIn (arguments : Option JsonFields) (scope : Scope) (leaves : List Leaf) :
    renderLeaves data scope (leaves.map (Leaf.fillIn arguments)) =
      renderLeaves data (arguments.toList ++ scope) leaves := by
  induction leaves with
  | nil => rfl
  | cons l leaves ih => rw [List.map_cons, renderLeaves, renderLeaves, ih, Leaf.render_fillIn]

/-- A leaf is found again in its text, and what it is bound to starts no mark. -/
structure Leaf.Fits (scope : Scope) (leaf : Leaf) : Prop where
  safe : leaf.Safe
  inserted : ∀ value, leaf.binding scope = some value → '<' ∉ Placeholder.inserted value

theorem Leaf.Fits.fillIn {arguments : Option JsonFields} {scope : Scope} {leaf : Leaf}
    (h : leaf.Fits (arguments.toList ++ scope)) : (leaf.fillIn arguments).Fits scope := by
  rcases leaf.binding_fillIn arguments scope with ⟨value, hbinding, hfill⟩ | ⟨hbinding, hfill⟩
  · rw [hfill]
    refine ⟨quiet_of_not_mem (h.inserted value hbinding), ?_⟩
    intro other hother
    cases hother
  · rw [hfill]
    refine ⟨h.safe, ?_⟩
    rw [← hbinding]
    exact h.inserted

/-- Filling in arguments in the sources of leaves gives the sources of the filled leaves. -/
theorem fillIn_source {arguments : Option JsonFields} {leaves : List Leaf}
    (h : ∀ l ∈ leaves, l.Safe) :
    fillIn arguments (leaves.flatMap Leaf.source) =
      (leaves.map (Leaf.fillIn arguments)).flatMap Leaf.source := by
  cases arguments with
  | none =>
      have hmap : leaves.map (Leaf.fillIn none) = leaves := List.map_id leaves
      rw [hmap]
      rfl
  | some fields =>
      show Placeholder.substitute fields (leaves.flatMap Leaf.source) = _
      induction leaves with
      | nil => simp [Placeholder.substitute]
      | cons l leaves ih =>
          have hl := h l List.mem_cons_self
          have hrest := ih fun l' hl' => h l' (List.mem_cons_of_mem l hl')
          rw [List.flatMap_cons, hl.substitute, hrest]
          rfl

end SiteServer.Template

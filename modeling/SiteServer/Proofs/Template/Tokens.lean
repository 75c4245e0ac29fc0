import SiteServer.Proofs.Template.Directive
import SiteServer.Proofs.Template.Lookup
import SiteServer.Template.Placeholder
import SiteServer.Template.Tag

/-! # Plain template texts as tokens.

A plain text is a sequence of text chunks, written marks, tags with lookups, and include directives.
Searching it for directives, placeholders or tags finds those of its tokens and nothing across the
boundary of two. -/

namespace SiteServer.Template

/-! ## Tokens -/

/-- A token that is no include: a chunk of text, the written form of `<%`, or a tag with a lookup. -/
inductive Leaf where
  | text (content : List Char)
  | mark
  | tag (escaped : Bool) (inner : List Char) (lookup : Lookup)
  deriving DecidableEq, Repr

/-- A token of a plain text. -/
inductive Token where
  | leaf (leaf : Leaf)
  | part (directive : Directive)
  deriving DecidableEq, Repr

def Leaf.source : Leaf → List Char
  | .text content => content
  | .mark => ['<', '%', '%']
  | .tag escaped inner _ => '<' :: '%' :: (if escaped then '=' else '-') :: (inner ++ ['%', '>'])

def Token.source : Token → List Char
  | .leaf l => l.source
  | .part directive => directive.source

/-- No mark starts in a chunk, nor with its end. -/
structure Quiet (text : List Char) : Prop where
  noOpen : ¬ ['<', '%'] <:+: text
  noEnd : text.getLast? ≠ some '<'

/-- What stands in a tag is a lookup, and the tag ends where it does, taking no line end along. -/
structure PlainTag (inner : List Char) (lookup : Lookup) : Prop where
  parse : Lookup.parse? inner = some lookup
  noOpen : '<' ∉ inner
  noClose : ¬ ['%', '>'] <:+: inner
  noTrim : inner.getLast? ≠ some '-'

/-- A leaf that is found again in the text that it stands in. -/
def Leaf.Safe : Leaf → Prop
  | .text content => Quiet content
  | .mark => True
  | .tag _ inner lookup => PlainTag inner lookup

/-- A token as a plain file may have it. -/
def Token.Plain : Token → Prop
  | .leaf (.text content) => Quiet content ∧ content.head? ≠ some '%'
  | .leaf l => l.Safe
  | .part directive => directive.Plain ∧ ∃ arguments, directive.arguments = .ok arguments

/-! ## Checking tokens -/

instance (text : List Char) : Decidable (Quiet text) :=
  decidable_of_iff (¬ ['<', '%'] <:+: text ∧ text.getLast? ≠ some '<')
    ⟨fun h => ⟨h.1, h.2⟩, fun h => ⟨h.noOpen, h.noEnd⟩⟩

instance (inner : List Char) (lookup : Lookup) : Decidable (PlainTag inner lookup) :=
  decidable_of_iff (Lookup.parse? inner = some lookup ∧ '<' ∉ inner ∧ ¬ ['%', '>'] <:+: inner ∧
      inner.getLast? ≠ some '-')
    ⟨fun h => ⟨h.1, h.2.1, h.2.2.1, h.2.2.2⟩, fun h => ⟨h.parse, h.noOpen, h.noClose, h.noTrim⟩⟩

theorem isOk_iff {ε α : Type} {result : Except ε α} :
    result.isOk = true ↔ ∃ a, result = .ok a := by
  cases result <;> simp [Except.isOk, Except.toBool]

instance (t : Token) : Decidable t.Plain :=
  match t with
  | .leaf (.text content) => inferInstanceAs (Decidable (Quiet content ∧ content.head? ≠ some '%'))
  | .leaf .mark => isTrue trivial
  | .leaf (.tag _ inner lookup) => inferInstanceAs (Decidable (PlainTag inner lookup))
  | .part directive => decidable_of_iff (directive.Plain ∧ directive.arguments.isOk = true)
      (and_congr_right fun _ => isOk_iff)

theorem Token.Plain.safe {leaf : Leaf} (h : (Token.leaf leaf).Plain) : leaf.Safe := by
  cases leaf with
  | text content => exact h.1
  | mark => trivial
  | tag escaped inner lookup => exact h

/-! ## Searching for what starts with a mark -/

/-- Every occurrence of the pattern starts with `<%`. -/
def Marked {α : Type} (p : Text.Pattern α) : Prop :=
  ∀ text a rest, p.read? text = some (a, rest) → ∃ more, text = '<' :: '%' :: more

section Search

variable {α : Type} {p : Text.Pattern α} {text rest : List Char}

theorem Marked.split_quiet (hp : Marked p) (h : Quiet text) :
    p.split (text ++ rest) = text.map .char ++ p.split rest := by
  apply Text.Pattern.split_append
  intro s hs hsuffix
  by_contra hsome
  obtain ⟨⟨a, after⟩, hread⟩ := Option.ne_none_iff_exists'.mp hsome
  obtain ⟨more, hmore⟩ := hp _ _ _ hread
  match s, hs, hsuffix, hmore with
  | [c], _, hsuffix, hmore =>
      apply h.noEnd
      rw [← (List.cons.inj hmore).1]
      obtain ⟨front, rfl⟩ := hsuffix
      exact List.getLast?_concat
  | c :: d :: s, _, hsuffix, hmore =>
      apply h.noOpen
      have hcd := List.cons.inj hmore
      rw [← hcd.1, ← (List.cons.inj hcd.2).1]
      exact List.IsInfix.trans (List.prefix_append [c, d] s).isInfix hsuffix.isInfix

theorem quiet_of_not_mem (h : '<' ∉ text) : Quiet text := by
  refine ⟨?_, ?_⟩
  · intro hoccurs
    exact h (hoccurs.subset List.mem_cons_self)
  · intro hlast
    exact h (List.mem_of_getLast? hlast)

/-- Text with one mark at its start is passed over when the pattern does not occur there. -/
theorem Marked.split_mark (hp : Marked p) (h : '<' ∉ text)
    (hnone : p.read? ('<' :: (text ++ rest)) = none) :
    p.split ('<' :: (text ++ rest)) = ('<' :: text).map .char ++ p.split rest := by
  rw [Text.Pattern.split_char hnone, hp.split_quiet (quiet_of_not_mem h)]
  rfl

end Search

theorem PlainTag.not_mem {inner : List Char} {lookup : Lookup} (h : PlainTag inner lookup)
    (escaped : Bool) :
    '<' ∉ '%' :: (if escaped then '=' else '-') :: (inner ++ ['%', '>']) := by
  have := h.noOpen
  cases escaped <;> simpa

theorem marked_directive : Marked Directive.pattern := by
  intro text d rest h
  simp only [Directive.pattern, Directive.read?, Directive.opening?, Option.bind_eq_bind,
    Option.bind_eq_some_iff, Text.dropLead?_eq_some_iff] at h
  obtain ⟨_, ⟨r, rfl, _⟩, _⟩ := h
  exact ⟨_, rfl⟩

theorem marked_placeholder : Marked Placeholder.pattern := by
  intro text p rest h
  rw [Placeholder.eq_append_of_read? h]
  exact ⟨_, rfl⟩

theorem marked_tag : Marked Tag.pattern := by
  intro text tag rest h
  simp only [Tag.pattern] at h
  unfold Tag.read? at h
  split at h
  · exact ⟨_, rfl⟩
  · exact ⟨_, rfl⟩
  · cases h

/-! ## Directives -/

/-- The opening of a directive is read as the identifier `include` and a bracket behind it. -/
theorem ident?_of_opening? {text after : List Char}
    (h : Directive.opening? ('<' :: '%' :: '-' :: text) = some after) :
    ∃ rest more, Lookup.ident? (Text.trimLeft text) = some ("include", rest) ∧
      Text.trimLeft rest = '(' :: more := by
  simp only [Directive.opening?, Option.bind_eq_bind, Option.bind_eq_some_iff,
    Text.dropLead?_eq_some_iff] at h
  obtain ⟨r₁, h₁, r₂, h₂, r₃, h₃, _⟩ := h
  have hr₁ : text = r₁ := by simpa using h₁
  have hletters : "nclude".toList.all Lookup.isIdentRest = true := by decide
  refine ⟨r₂, r₃, ?_, h₃⟩
  rw [hr₁, h₂]
  refine Lookup.ident?_eq_some_iff.mpr
    ⟨'i', "nclude".toList, rfl, by decide, List.all_eq_true.mp hletters, ?_, rfl⟩
  intro d hd
  cases r₂ with
  | nil => cases hd
  | cons c r₂ =>
      cases hd
      by_cases hblank : Text.isBlank d = true
      · exact Lookup.isIdentRest_eq_false hblank
      · rw [Text.trimLeft_cons_of_not_blank (by simpa using hblank)] at h₃
        rw [(List.cons.inj h₃).1]
        decide

/-- A raw tag with a lookup is no directive. -/
theorem opening?_raw {inner : List Char} {lookup : Lookup} (h : Lookup.parse? inner = some lookup)
    (rest : List Char) :
    Directive.opening? ('<' :: '%' :: '-' :: (inner ++ '%' :: rest)) = none := by
  by_contra hsome
  obtain ⟨after, hopening⟩ := Option.ne_none_iff_exists'.mp hsome
  obtain ⟨r₂, r₃, hinclude, h₃⟩ := ident?_of_opening? hopening
  obtain ⟨tail, hident, hnext⟩ := Lookup.ident?_of_parse? h rest
  rw [hinclude] at hident
  obtain ⟨_, rfl⟩ := Prod.mk.inj (Option.some.inj hident)
  rw [h₃] at hnext
  rcases hnext with ⟨_, hnext⟩ | ⟨_, hnext | hnext⟩
  · cases hnext
  · cases hnext
  · cases hnext

theorem Leaf.Safe.split_directive {leaf : Leaf} (h : leaf.Safe) (rest : List Char) :
    Directive.pattern.split (leaf.source ++ rest) =
      leaf.source.map .char ++ Directive.pattern.split rest := by
  cases leaf with
  | text content => exact marked_directive.split_quiet h
  | mark => exact marked_directive.split_mark (by decide) rfl
  | tag escaped inner lookup =>
      refine marked_directive.split_mark (PlainTag.not_mem h escaped) ?_
      cases escaped with
      | true => rfl
      | false =>
          have hopening := opening?_raw h.parse ('>' :: rest)
          have hread (text : List Char) (hnone : Directive.opening? text = none) :
              Directive.read? text = none := by
            unfold Directive.read?
            rw [hnone]
            rfl
          apply hread
          simpa using hopening

def Token.pieces : Token → Page
  | .leaf l => l.source.map .char
  | .part directive => [.found directive]

/-- The page of a plain text is that of its tokens. -/
theorem ofText_source {tokens : List Token} (h : ∀ t ∈ tokens, t.Plain) :
    Page.ofText (tokens.flatMap Token.source) = tokens.flatMap Token.pieces := by
  unfold Page.ofText
  induction tokens with
  | nil => simp
  | cons t tokens ih =>
      have ht := h t List.mem_cons_self
      have hrest := ih fun t' ht' => h t' (List.mem_cons_of_mem t ht')
      rw [List.flatMap_cons, List.flatMap_cons, ← hrest]
      cases t with
      | leaf l => exact ht.safe.split_directive _
      | part directive => exact Text.Pattern.split_found (ht.1.read?_append _)

/-! ## Placeholders -/

/-- The name that arguments may fill: that of an escaped tag with a bare identifier. -/
def Leaf.name? : Leaf → Option String
  | .tag true _ lookup => if lookup.steps = [] then some lookup.root else none
  | _ => none

/-- The leaf that arguments leave in the place of a leaf. -/
def Leaf.fill (arguments : JsonFields) (leaf : Leaf) : Leaf :=
  match leaf.name?.bind arguments.get? with
  | some value => .text (Placeholder.inserted value)
  | none => leaf

/-- An escaped tag is a placeholder when it has a bare identifier. -/
theorem read?_placeholder {inner : List Char} {lookup : Lookup}
    (h : Lookup.parse? inner = some lookup) (rest : List Char) :
    (lookup.steps = [] → ∃ p,
      Placeholder.read? ((Leaf.tag true inner lookup).source ++ rest) = some (p, rest) ∧
        p.name = lookup.root ∧ p.source = (Leaf.tag true inner lookup).source) ∧
      (lookup.steps ≠ [] →
        Placeholder.read? ((Leaf.tag true inner lookup).source ++ rest) = none) := by
  have htext : (Leaf.tag true inner lookup).source ++ rest =
      ['<', '%', '='] ++ (inner ++ '%' :: '>' :: rest) := by
    simp [Leaf.source]
  have hlead := Text.dropLead?_eq_some_iff.mpr htext
  obtain ⟨tail, hident, hnext⟩ := Lookup.ident?_of_parse? h ('>' :: rest)
  refine ⟨?_, ?_⟩
  · intro hsteps
    have htail : Text.trimLeft tail = ['%', '>'] ++ rest := by
      rcases hnext with ⟨_, hnext⟩ | ⟨hne, _⟩
      · exact hnext
      · exact absurd hsteps hne
    have hread : Placeholder.read? ((Leaf.tag true inner lookup).source ++ rest) =
        some (⟨Text.blanksLeft (inner ++ '%' :: '>' :: rest), lookup.root,
          Text.blanksLeft tail⟩, rest) := by
      unfold Placeholder.read?
      rw [hlead]
      dsimp only [Option.bind_eq_bind, Option.bind_some]
      rw [hident]
      dsimp only [Option.bind_some]
      rw [Text.dropLead?_eq_some_iff.mpr htail]
      rfl
    have happend := Placeholder.eq_append_of_read? hread
    exact ⟨_, hread, rfl, (List.append_cancel_right happend).symm⟩
  · intro hsteps
    by_contra hsome
    obtain ⟨⟨p, after⟩, hread⟩ := Option.ne_none_iff_exists'.mp hsome
    unfold Placeholder.read? at hread
    rw [hlead] at hread
    dsimp only [Option.bind_eq_bind, Option.bind_some] at hread
    rw [hident] at hread
    simp only [Option.bind_some, Option.bind_eq_some_iff, Text.dropLead?_eq_some_iff] at hread
    obtain ⟨_, htail, _⟩ := hread
    rw [htail] at hnext
    rcases hnext with ⟨hsteps', _⟩ | ⟨_, hnext | hnext⟩
    · exact hsteps hsteps'
    · cases hnext
    · cases hnext

theorem flatMap_fill_chars (arguments : JsonFields) (text : List Char) :
    (text.map Text.Piece.char).flatMap (Placeholder.fill arguments) = text := by
  induction text with
  | nil => rfl
  | cons c text ih => simpa [Placeholder.fill] using ih

/-- Arguments fill a leaf, and nothing in it or around it. -/
theorem Leaf.Safe.substitute {leaf : Leaf} (h : leaf.Safe) (arguments : JsonFields)
    (rest : List Char) :
    Placeholder.substitute arguments (leaf.source ++ rest) =
      (leaf.fill arguments).source ++ Placeholder.substitute arguments rest := by
  have hpass (hname : leaf.name? = none) (hsplit : Placeholder.pattern.split (leaf.source ++ rest) =
      leaf.source.map .char ++ Placeholder.pattern.split rest) :
      Placeholder.substitute arguments (leaf.source ++ rest) =
        (leaf.fill arguments).source ++ Placeholder.substitute arguments rest := by
    unfold Placeholder.substitute Leaf.fill
    rw [hsplit, List.flatMap_append, flatMap_fill_chars, hname]
    rfl
  cases leaf with
  | text content => exact hpass rfl (marked_placeholder.split_quiet h)
  | mark => exact hpass rfl (marked_placeholder.split_mark (by decide) rfl)
  | tag escaped inner lookup =>
      have hmark := PlainTag.not_mem h escaped
      cases escaped with
      | false => exact hpass rfl (marked_placeholder.split_mark hmark rfl)
      | true =>
          obtain ⟨hbare, hsteps⟩ := read?_placeholder h.parse rest
          by_cases hnil : lookup.steps = []
          · obtain ⟨p, hread, hname, hsource⟩ := hbare hnil
            have hsplit := Text.Pattern.split_found (p := Placeholder.pattern) hread
            have hleaf : (Leaf.tag true inner lookup).name? = some lookup.root := if_pos hnil
            have hfill : Placeholder.fill arguments (.found p) =
                (arguments.get? p.name).elim p.source Placeholder.inserted := rfl
            unfold Placeholder.substitute Leaf.fill
            rw [hsplit, List.flatMap_cons, hleaf, Option.bind_some, hfill, hname, hsource]
            cases arguments.get? lookup.root with
            | none => rfl
            | some value => rfl
          · exact hpass (if_neg hnil) (marked_placeholder.split_mark hmark (hsteps hnil))

/-! ## Tags -/

/-- What a leaf is among the tags of a text. -/
def Leaf.pieces : Leaf → List (Text.Piece Tag)
  | .text content => content.map .char
  | .mark => [.found .literal]
  | .tag escaped inner _ => [.found (.body ((if escaped then '=' else '-') :: inner))]

/-- A tag whose mark is no second percent runs to the first close. -/
theorem Tag.read?_of_splitAt? {c : Char} {tail content after : List Char} (hc : c ≠ '%')
    (h : Text.splitAt? ['%', '>'] (c :: tail) = some (content, after)) :
    Tag.read? ('<' :: '%' :: c :: tail) = some (Tag.closed content after) := by
  unfold Tag.read?
  split
  · rename_i heq
    cases heq
    exact absurd rfl hc
  · rename_i heq
    cases heq
    rw [h]
  · rename_i hno
    exact absurd rfl (hno _)

/-- The first close behind the start of a tag is its own. -/
theorem PlainTag.splitAt? {inner : List Char} {lookup : Lookup} (h : PlainTag inner lookup)
    {c : Char} (hc : c ≠ '%') (rest : List Char) :
    Text.splitAt? ['%', '>'] (c :: inner ++ (['%', '>'] ++ rest)) = some (c :: inner, rest) := by
  have hnoClose : ¬ ['%', '>'] <:+: c :: inner := by
    rw [List.infix_cons_iff, List.cons_prefix_cons]
    rintro (⟨heq, _⟩ | hinfix)
    · exact hc heq.symm
    · exact h.noClose hinfix
  exact Text.splitAt?_pair (by decide) hnoClose rest

theorem PlainTag.trims {inner : List Char} {lookup : Lookup} (h : PlainTag inner lookup) (c : Char) :
    Tag.trims (c :: inner) = false := by
  have := h.noTrim
  cases inner with
  | nil => simp [Tag.trims]
  | cons d inner => simpa [Tag.trims, List.getLast?_cons] using this

theorem PlainTag.read? {inner : List Char} {lookup : Lookup} (h : PlainTag inner lookup) {c : Char}
    (hc : c ≠ '%') (rest : List Char) :
    Tag.read? ('<' :: '%' :: c :: (inner ++ ['%', '>'] ++ rest)) =
      some (.body (c :: inner), rest) := by
  rw [List.append_assoc]
  have hread := Tag.read?_of_splitAt? hc (h.splitAt? hc rest)
  rw [Tag.closed, h.trims c, if_neg Bool.false_ne_true] at hread
  exact hread

theorem Leaf.Safe.split_tag {leaf : Leaf} (h : leaf.Safe) (rest : List Char) :
    Tag.pattern.split (leaf.source ++ rest) = leaf.pieces ++ Tag.pattern.split rest := by
  cases leaf with
  | text content => exact marked_tag.split_quiet h
  | mark => exact Text.Pattern.split_found (p := Tag.pattern) rfl
  | tag escaped inner lookup =>
      have hchar : (if escaped then '=' else '-') ≠ '%' := by cases escaped <;> decide
      exact Text.Pattern.split_found (p := Tag.pattern) (PlainTag.read? h hchar rest)

end SiteServer.Template

import SiteServer.Proofs.Template.Composition

/-! # Names that a template does not mention.

A lookup asks the data for the field that is its root, and for the keys of its steps. Each of these stands in
the text of the template as it is. So a name that does not occur in the text can be bound to anything: what
the template prints stays the same. The data as a whole is printed alike whatever is in it. -/

namespace SiteServer

namespace JsonFields

theorem get?_cons (key : String) (value : Json) (fields : JsonFields) (other : String) :
    get? ((key, value) :: fields) other = if other = key then some value else fields.get? other := by
  rw [get?, List.lookup_cons]
  by_cases h : other = key
  · rw [if_pos h, beq_iff_eq.mpr h]
  · rw [if_neg h, beq_eq_false_iff_ne.mpr h]
    rfl

/-- A field that is put in its place is found there, and the other fields as before. -/
theorem get?_insert (fields : JsonFields) (key : String) (value : Json) (other : String) :
    (fields.insert key value).get? other = if other = key then some value else fields.get? other := by
  induction fields with
  | nil => rw [insert, get?_cons]
  | cons field fields ih =>
      obtain ⟨k, v⟩ := field
      rw [insert]
      by_cases hlt : key < k
      · rw [if_pos hlt, get?_cons]
      · rw [if_neg hlt]
        by_cases heq : key = k
        · rw [if_pos heq, get?_cons, get?_cons, ← heq]
          split <;> rfl
        · rw [if_neg heq, get?_cons, get?_cons, ih]
          by_cases hother : other = k
          · rw [if_pos hother, if_pos hother, if_neg]
            exact fun hkey => heq (hkey.symm.trans hother)
          · rw [if_neg hother, if_neg hother]

end JsonFields

namespace Template

variable {name : String}

/-! ## Lookups -/

/-- A lookup asks for a field with a name. -/
def Lookup.Mentions (name : String) (lookup : Lookup) : Prop :=
  lookup.root = name ∨ .key name ∈ lookup.steps

/-- What a lookup prints does not depend on fields that it does not mention. -/
theorem Lookup.display_insert {lookup : Lookup} (h : ¬ lookup.Mentions name) (fields : JsonFields)
    (value : Json) :
    (lookup.value (.object (fields.insert name value))).map displayValue =
      (lookup.value (.object fields)).map displayValue := by
  obtain ⟨hroot, hsteps⟩ := not_or.mp h
  unfold Lookup.value Lookup.start?
  by_cases hwhole : lookup.root = wholeData
  · rw [if_pos hwhole, if_pos hwhole]
    dsimp only
    rcases hpath : lookup.steps with _ | ⟨step, rest⟩
    · rfl
    · have hfollow : follow (.object (fields.insert name value)) step = follow (.object fields) step := by
        cases step with
        | index place => rfl
        | key other =>
            have hother : other ≠ name := by
              rintro rfl
              exact hsteps (hpath ▸ List.mem_cons_self)
            rw [follow, follow, Json.get?, Json.get?]
            exact (JsonFields.get?_insert fields name value other).trans (if_neg hother)
      rw [walk, walk]
      dsimp only [obstacle?, Option.bind_some]
      rw [hfollow]
  · rw [if_neg hwhole, if_neg hwhole]
    have hget : (Json.object (fields.insert name value)).get? lookup.root =
        (Json.object fields).get? lookup.root :=
      (JsonFields.get?_insert fields name value lookup.root).trans (if_neg hroot)
    rw [hget]

/-! ## What a text mentions -/

theorem trim_isInfix (text : List Char) : Text.trim text <:+: text := by
  obtain ⟨blanks, _, htrim⟩ := Text.exists_trimLeft_eq text
  have hstart : Text.trim text <+: Text.trimLeft text := ⟨blanks, htrim.symm⟩
  exact hstart.isInfix.trans (List.dropWhile_suffix _).isInfix

theorem Lookup.StepText.infix_of_key {text : List Char} (h : StepText text (.key name)) :
    name.toList <:+: text := by
  cases h with
  | @dot inner ident =>
      rw [String.toList_ofList]
      exact (List.suffix_cons '.' inner).isInfix
  | @bracket inner _ noClose inside =>
      have hinner : inner <:+: '[' :: (inner ++ [']']) := ⟨['['], [']'], by simp⟩
      refine List.IsInfix.trans ?_ hinner
      refine List.IsInfix.trans ?_ (trim_isInfix inner)
      generalize Text.trim inner = content at inside
      cases inside with
      | key isQuote text =>
          rw [String.toList_ofList]
          exact ⟨[_], [_], List.append_assoc _ _ _⟩

theorem Lookup.StepsText.infix_of_mem {text : List Char} {steps : List Step} (h : StepsText text steps)
    (hmem : .key name ∈ steps) : name.toList <:+: text := by
  induction h with
  | nil => cases hmem
  | @cons text more step steps first behind ih =>
      rcases List.mem_cons.mp hmem with rfl | hmem
      · exact first.infix_of_key.trans (List.prefix_append text more).isInfix
      · exact (ih hmem).trans (List.suffix_append text more).isInfix

/-- What a lookup mentions stands in its text. -/
theorem Lookup.Spells.infix_of_mentions {inner : List Char} {lookup : Lookup} (h : lookup.Spells inner)
    (hmentions : lookup.Mentions name) : name.toList <:+: inner := by
  obtain ⟨root, more, htrim, _, hroot, hsteps⟩ := h.path
  refine List.IsInfix.trans ?_ (trim_isInfix inner)
  rw [htrim]
  rcases hmentions with rfl | hmem
  · rw [hroot, String.toList_ofList]
    exact (List.prefix_append root more).isInfix
  · exact (hsteps.infix_of_mem hmem).trans (List.suffix_append root more).isInfix

theorem Closes.body_isPrefix {content rest body after : List Char} (h : Closes content rest body after) :
    body <+: content := by
  cases h with
  | plain => exact List.prefix_refl _
  | dash => exact List.prefix_append _ _

/-- The body of a tag stands in the text that is read. -/
theorem Reads.body_isInfix {text : List Char} {pieces : List (Text.Piece Tag)} (h : Reads text pieces)
    {body : List Char} (hmem : .found (.body body) ∈ pieces) : body <:+: text := by
  induction h with
  | done => cases hmem
  | @char c rest pieces noOpen behind ih =>
      rcases List.mem_cons.mp hmem with heq | hmem
      · cases heq
      · exact (ih hmem).trans (List.suffix_cons c rest).isInfix
  | @literal rest pieces behind ih =>
      rcases List.mem_cons.mp hmem with heq | hmem
      · cases heq
      · exact (ih hmem).trans (List.suffix_append ['<', '%', '%'] rest).isInfix
  | @tag content rest inner after pieces enclosed closes behind ih =>
      rcases List.mem_cons.mp hmem with heq | hmem
      · cases heq
        exact closes.body_isPrefix.isInfix.trans ⟨['<', '%'], '%' :: '>' :: rest, by simp⟩
      · have hrest : rest <:+: '<' :: '%' :: (content ++ '%' :: '>' :: rest) :=
          ⟨'<' :: '%' :: (content ++ ['%', '>']), [], by simp⟩
        exact (ih hmem).trans (closes.suffix.isInfix.trans hrest)
  | unclosed =>
      rcases List.mem_cons.mp hmem with heq | hmem
      · cases heq
      · cases hmem

/-! ## Templates that do not mention a name -/

theorem Makes.render_insert {p : Text.Piece Tag} {part : List Segment} (h : Makes p part)
    (hname : ∀ body, p = .found (.body body) → ¬ name.toList <:+: body) (fields : JsonFields)
    (value : Json) :
    renderSegments (.object (fields.insert name value)) part = renderSegments (.object fields) part := by
  have hlookup {mark : Char} {inner : List Char} {lookup : Lookup} (hspells : lookup.Spells inner)
      (hbody : ¬ name.toList <:+: mark :: inner) : ¬ lookup.Mentions name := fun hmentions =>
    hbody ((hspells.infix_of_mentions hmentions).trans (List.suffix_cons mark inner).isInfix)
  cases h with
  | char c => rfl
  | literal => rfl
  | comment note => rfl
  | @escaped inner lookup spells =>
      have hescape (data : Json) : (Segment.escaped lookup).render data =
          ((lookup.value data).map displayValue).map Text.Markup.escape := by
        rw [Segment.render]
        cases lookup.value data <;> rfl
      rw [renderSegments_singleton, renderSegments_singleton, hescape, hescape,
        Lookup.display_insert (hlookup spells (hname _ rfl))]
  | @raw inner lookup spells =>
      rw [renderSegments_singleton, renderSegments_singleton]
      exact Lookup.display_insert (hlookup spells (hname _ rfl)) fields value

/-- A template prints the same whatever a name is bound to that does not occur in its text. -/
theorem render_insert {text : List Char} {segments : List Segment} (h : segmentsOf text = .ok segments)
    (hname : ¬ name.toList <:+: text) (fields : JsonFields) (value : Json) :
    renderSegments (.object (fields.insert name value)) segments =
      renderSegments (.object fields) segments := by
  obtain ⟨pieces, hreads⟩ := exists_reads text
  obtain ⟨parts, hparts, rfl⟩ := (segmentsOf_eq_ok_iff hreads).mp h
  have hbodies : ∀ body, .found (.body body) ∈ pieces → ¬ name.toList <:+: body :=
    fun body hmem hbody => hname (hbody.trans (hreads.body_isInfix hmem))
  clear hreads h
  induction hparts with
  | nil => rfl
  | @cons p part pieces parts hpart _ ih =>
      rw [List.foldr_cons, renderSegments_join, renderSegments_join,
        ih fun body hmem => hbodies body (List.mem_cons_of_mem p hmem),
        hpart.render_insert fun body hbody => hbodies body (hbody ▸ List.mem_cons_self)]

end Template

end SiteServer

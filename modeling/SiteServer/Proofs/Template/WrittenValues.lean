import SiteServer.Proofs.Template.Bindings
import SiteServer.Proofs.Template.Literal

/-! # Values as they are written in argument literals.

A value has many literals: blanks may stand between its tokens, strings are in quotes of either kind, and
keys that are identifiers may do without. Each literal of an object is read as this object, and of several
fields with one key the last one counts, in the object as well as in those inside it. -/

namespace SiteServer

namespace JsonFields

theorem get?_foldl_insert (fields : List (String × Json)) (sorted : JsonFields) (key : String) :
    (fields.foldl (fun sorted (k, value) => insert k value sorted) sorted).get? key =
      (fields.reverse.lookup key).or (sorted.get? key) := by
  induction fields generalizing sorted with
  | nil => rfl
  | cons field fields ih =>
      obtain ⟨k, value⟩ := field
      rw [List.foldl_cons, ih, get?_insert, List.reverse_cons, List.lookup_append, Option.or_assoc,
        List.lookup_cons]
      by_cases h : key = k
      · rw [if_pos h, beq_iff_eq.mpr h]
        rfl
      · rw [if_neg h, beq_eq_false_iff_ne.mpr h]
        rfl

/-- Of several fields with one key the last is found. -/
theorem get?_ofList (fields : List (String × Json)) (key : String) :
    (ofList fields).get? key = fields.reverse.lookup key := by
  rw [ofList, get?_foldl_insert]
  exact Option.or_none

end JsonFields

theorem Json.orderedFields_eq_map (fields : List (String × Json)) :
    orderedFields fields = fields.map fun (key, value) => (key, ordered value) := by
  induction fields with
  | nil => rfl
  | cons field fields ih => rw [orderedFields, ih, List.map_cons]

theorem Json.lookup_map_ordered (fields : List (String × Json)) (key : String) :
    (fields.map fun (k, value) => (k, ordered value)).lookup key = (fields.lookup key).map ordered := by
  induction fields with
  | nil => rfl
  | cons field fields ih =>
      obtain ⟨k, value⟩ := field
      rw [List.map_cons, List.lookup_cons, List.lookup_cons, ih]
      cases key == k <;> rfl

namespace Template.Arguments

/-! ## Literals -/

def Spaces (text : List Char) : Prop :=
  ∀ c ∈ text, Json.isSpace c = true

instance (text : List Char) : Decidable (Spaces text) :=
  decidable_of_iff (text.all Json.isSpace = true) List.all_eq_true

/-- A string in quotes of either kind. -/
inductive StringLiteral : List Char → String → Prop where
  | intro {quote : Char} {written text : List Char} (isQuote : quote = '\'' ∨ quote = '"')
      (inside : StringText quote written text) :
      StringLiteral (quote :: (written ++ [quote])) (String.ofList text)

/-- A key: an identifier as it is, or any text as a string. -/
inductive KeyLiteral : List Char → String → Prop where
  | bare {name : List Char} (ident : Lookup.IsIdent name) : KeyLiteral name (String.ofList name)
  | quoted {written : List Char} {key : String} (h : StringLiteral written key) : KeyLiteral written key

mutual

/-- A value as it is written. -/
inductive ValueLiteral : List Char → Json → Prop where
  | null : ValueLiteral "null".toList .null
  | true : ValueLiteral "true".toList (.bool true)
  | false : ValueLiteral "false".toList (.bool false)
  | number {text : List Char} {literal : Json.NumberLiteral} {n : JsonNumber}
      (isNumber : Json.NumberText text literal) (value : literal.value? = some n) :
      ValueLiteral text (.number n)
  | string {written : List Char} {s : String} (h : StringLiteral written s) :
      ValueLiteral written (.string s)
  | array {inner : List Char} {items : List Json} (h : ItemsLiteral inner items) :
      ValueLiteral ('[' :: (inner ++ [']'])) (.array items)
  | object {inner : List Char} {fields : List (String × Json)} (h : FieldsLiteral inner fields) :
      ValueLiteral ('\x7b' :: (inner ++ ['\x7d'])) (.object fields)

/-- The items of an array as they are written, with commas between them. -/
inductive ItemsLiteral : List Char → List Json → Prop where
  | nil {spaces : List Char} (h : Spaces spaces) : ItemsLiteral spaces []
  | last {s₁ text s₂ : List Char} {item : Json} (h₁ : Spaces s₁) (h : ValueLiteral text item)
      (h₂ : Spaces s₂) : ItemsLiteral (s₁ ++ (text ++ s₂)) [item]
  | cons {s₁ text s₂ more : List Char} {item next : Json} {rest : List Json} (h₁ : Spaces s₁)
      (h : ValueLiteral text item) (h₂ : Spaces s₂) (behind : ItemsLiteral more (next :: rest)) :
      ItemsLiteral (s₁ ++ (text ++ (s₂ ++ ',' :: more))) (item :: next :: rest)

/-- The fields of an object as they are written, with commas between them. -/
inductive FieldsLiteral : List Char → List (String × Json) → Prop where
  | nil {spaces : List Char} (h : Spaces spaces) : FieldsLiteral spaces []
  | last {s₁ name s₂ s₃ text s₄ : List Char} {key : String} {value : Json} (h₁ : Spaces s₁)
      (hkey : KeyLiteral name key) (h₂ : Spaces s₂) (h₃ : Spaces s₃) (h : ValueLiteral text value)
      (h₄ : Spaces s₄) :
      FieldsLiteral (s₁ ++ (name ++ (s₂ ++ ':' :: (s₃ ++ (text ++ s₄))))) [(key, value)]
  | cons {s₁ name s₂ s₃ text s₄ more : List Char} {key : String} {value : Json}
      {next : String × Json} {rest : List (String × Json)} (h₁ : Spaces s₁)
      (hkey : KeyLiteral name key) (h₂ : Spaces s₂) (h₃ : Spaces s₃) (h : ValueLiteral text value)
      (h₄ : Spaces s₄) (behind : FieldsLiteral more (next :: rest)) :
      FieldsLiteral (s₁ ++ (name ++ (s₂ ++ ':' :: (s₃ ++ (text ++ (s₄ ++ ',' :: more))))))
        ((key, value) :: next :: rest)

end

/-! ## Literals are written for tokens -/

variable {text rest : List Char} {tokens : List Json.Token} {strings : List (List Char)}

/-- What may stand behind a value: the end, or a comma or a close, and blanks before it. -/
def Follows (rest : List Char) : Prop :=
  ∃ spaces more, rest = spaces ++ more ∧ Spaces spaces ∧
    ∀ c, more.head? = some c → c = ',' ∨ c = ']' ∨ c = '\x7d'

theorem follows_spaces {spaces : List Char} (h : Spaces spaces) {c : Char}
    (hc : c = ',' ∨ c = ']' ∨ c = '\x7d') (more : List Char) : Follows (spaces ++ c :: more) :=
  ⟨spaces, c :: more, rfl, h, fun _ hd => Option.some.inj hd ▸ hc⟩

theorem Follows.endsScalar (h : Follows rest) : EndsScalar rest := by
  obtain ⟨spaces, more, rfl, hspaces, hmore⟩ := h
  intro c hc
  cases spaces with
  | nil => exact .inr (hmore c hc)
  | cons d spaces =>
      cases hc
      exact .inl (hspaces c List.mem_cons_self)

theorem Spaces.trimLeft_append {spaces : List Char} (h : Spaces spaces) (more : List Char) :
    Text.trimLeft (spaces ++ more) = Text.trimLeft more :=
  Text.trimLeft_append_of_blank (fun c hc => isBlank_of_isSpace (h c hc)) more

theorem Follows.noKey (h : Follows rest) : (Text.trimLeft rest).head? ≠ some ':' := by
  obtain ⟨spaces, more, rfl, hspaces, hmore⟩ := h
  rw [hspaces.trimLeft_append]
  cases more with
  | nil => simp [Text.trimLeft]
  | cons c more =>
      rcases hmore c rfl with rfl | rfl | rfl <;> rw [Text.trimLeft_cons_of_not_blank (by decide)] <;> simp

theorem Spaces.spelled {spaces : List Char} (h : Spaces spaces) (hrest : Spelled rest tokens strings) :
    Spelled (spaces ++ rest) tokens strings := by
  induction spaces with
  | nil => exact hrest
  | cons c spaces ih =>
      exact .space (h c List.mem_cons_self) (ih fun d hd => h d (List.mem_cons_of_mem c hd))

theorem StringLiteral.spelled {written : List Char} {s : String} (h : StringLiteral written s)
    (hrest : Spelled rest tokens strings) :
    ∃ strings, Spelled (written ++ rest) (.scalar (.string (some s)) :: tokens) strings := by
  obtain ⟨isQuote, inside⟩ := h
  rw [List.cons_append, List.append_assoc]
  exact ⟨_, .string isQuote inside hrest⟩

theorem KeyLiteral.spelled {name : List Char} {key : String} (h : KeyLiteral name key)
    (hkey : (Text.trimLeft rest).head? = some ':') (hrest : Spelled rest tokens strings) :
    ∃ strings, Spelled (name ++ rest) (.scalar (.string (some key)) :: tokens) strings := by
  cases h with
  | bare ident => exact ⟨_, .key ident hkey hrest⟩
  | quoted h => exact h.spelled hrest

/-- A colon with blanks around it. -/
theorem spelled_colon {s₂ s₃ : List Char} (h₂ : Spaces s₂) (h₃ : Spaces s₃)
    (hrest : Spelled rest tokens strings) :
    (Text.trimLeft (s₂ ++ ':' :: (s₃ ++ rest))).head? = some ':' ∧
      Spelled (s₂ ++ ':' :: (s₃ ++ rest)) (.colon :: tokens) strings := by
  refine ⟨?_, h₂.spelled (.mark .colon (h₃.spelled hrest))⟩
  rw [h₂.trimLeft_append, Text.trimLeft_cons_of_not_blank (by decide)]
  rfl

mutual

/-- A literal of a value is written for its tokens. -/
theorem spelled_value (value : Json) {text rest : List Char} {tokens : List Json.Token}
    {strings : List (List Char)} (h : ValueLiteral text value) (hrest : Spelled rest tokens strings)
    (hfollows : Follows rest) : ∃ strings, Spelled (text ++ rest) (Json.tokens value ++ tokens) strings := by
  cases value with
  | null =>
      cases h
      exact ⟨_, .word .null hfollows.endsScalar hfollows.noKey hrest⟩
  | bool b =>
      cases h with
      | true => exact ⟨_, .word .true hfollows.endsScalar hfollows.noKey hrest⟩
      | false => exact ⟨_, .word .false hfollows.endsScalar hfollows.noKey hrest⟩
  | number n =>
      cases h with
      | number isNumber hvalue =>
          rw [Json.tokens, ← hvalue]
          exact ⟨_, .number isNumber hfollows.endsScalar hrest⟩
  | string s =>
      cases h with
      | string h => exact h.spelled hrest
  | array items =>
      cases h with
      | array h =>
          obtain ⟨_, hitems⟩ := spelled_items items h hrest
          rw [Json.tokens, List.cons_append, List.append_assoc, List.cons_append, List.append_assoc]
          exact ⟨_, .mark .openArray hitems⟩
  | object fields =>
      cases h with
      | object h =>
          obtain ⟨_, hfields⟩ := spelled_fields fields h hrest
          rw [Json.tokens, List.cons_append, List.append_assoc, List.cons_append, List.append_assoc]
          exact ⟨_, .mark .openObject hfields⟩

theorem spelled_items (items : List Json) {text rest : List Char} {tokens : List Json.Token}
    {strings : List (List Char)} (h : ItemsLiteral text items) (hrest : Spelled rest tokens strings) :
    ∃ strings, Spelled (text ++ ([']'] ++ rest)) (Json.itemTokens items ++ ([.closeArray] ++ tokens))
      strings := by
  match items with
  | [] =>
      cases h with
      | nil h => exact ⟨_, h.spelled (.mark .closeArray hrest)⟩
  | [item] =>
      cases h with
      | last h₁ h h₂ =>
          have hclose := h₂.spelled (.mark .closeArray hrest)
          obtain ⟨_, hitem⟩ := spelled_value item h hclose (follows_spaces h₂ (by simp) rest)
          rw [List.append_assoc, List.append_assoc]
          exact ⟨_, h₁.spelled hitem⟩
  | item :: next :: others =>
      cases h with
      | @cons s₁ text s₂ more _ _ _ h₁ h h₂ behind =>
          obtain ⟨_, hothers⟩ := spelled_items (next :: others) behind hrest
          have hcomma := h₂.spelled (.mark .comma hothers)
          obtain ⟨_, hitem⟩ := spelled_value item h hcomma (follows_spaces h₂ (by simp) _)
          have htokens : Json.itemTokens (item :: next :: others) =
              Json.tokens item ++ .comma :: Json.itemTokens (next :: others) := rfl
          rw [htokens, List.append_assoc, List.append_assoc, List.append_assoc, List.append_assoc]
          exact ⟨_, h₁.spelled hitem⟩

theorem spelled_fields (fields : List (String × Json)) {text rest : List Char} {tokens : List Json.Token}
    {strings : List (List Char)} (h : FieldsLiteral text fields) (hrest : Spelled rest tokens strings) :
    ∃ strings, Spelled (text ++ (['\x7d'] ++ rest))
      (Json.fieldTokens fields ++ ([.closeObject] ++ tokens)) strings := by
  match fields with
  | [] =>
      cases h with
      | nil h => exact ⟨_, h.spelled (.mark .closeObject hrest)⟩
  | [(key, value)] =>
      cases h with
      | @last s₁ name s₂ s₃ text s₄ _ _ h₁ hkey h₂ h₃ h h₄ =>
          have hclose := h₄.spelled (.mark .closeObject hrest)
          obtain ⟨_, hvalue⟩ := spelled_value value h hclose (follows_spaces h₄ (by simp) rest)
          obtain ⟨hcolon, hbehind⟩ := spelled_colon h₂ h₃ hvalue
          obtain ⟨_, hfield⟩ := hkey.spelled hcolon hbehind
          simp only [List.append_assoc, List.cons_append]
          exact ⟨_, h₁.spelled hfield⟩
  | (key, value) :: next :: others =>
      cases h with
      | @cons s₁ name s₂ s₃ text s₄ more _ _ _ _ h₁ hkey h₂ h₃ h h₄ behind =>
          obtain ⟨_, hothers⟩ := spelled_fields (next :: others) behind hrest
          have hcomma := h₄.spelled (.mark .comma hothers)
          obtain ⟨_, hvalue⟩ := spelled_value value h hcomma (follows_spaces h₄ (by simp) _)
          obtain ⟨hcolon, hbehind⟩ := spelled_colon h₂ h₃ hvalue
          obtain ⟨_, hfield⟩ := hkey.spelled hcolon hbehind
          have htokens : Json.fieldTokens ((key, value) :: next :: others) =
              .scalar (.string (some key)) :: .colon ::
                (Json.tokens value ++ .comma :: Json.fieldTokens (next :: others)) := rfl
          rw [htokens]
          simp only [List.append_assoc, List.cons_append]
          exact ⟨_, h₁.spelled hfield⟩

end

/-- However an object is written, its literal is read as this object, and a field is the last with its key. -/
theorem written_object_parsed {front literal behind : List Char} {fields : List (String × Json)}
    (hfront : Spaces front) (h : ValueLiteral literal (.object fields)) (hbehind : Spaces behind)
    (hdepth : Json.depth (.object fields) ≤ Json.depthLimit) :
    ∃ parsed, parse (front ++ (literal ++ behind)) = .ok parsed ∧
      .object parsed = Json.ordered (.object fields) ∧
      ∀ key, parsed.get? key = (fields.reverse.lookup key).map Json.ordered := by
  have hend : Spelled behind [] [] := by
    simpa using hbehind.spelled .nil
  obtain ⟨_, hobject⟩ := spelled_value (.object fields) h hend ⟨behind, [], by simp, hbehind, by simp⟩
  rw [List.append_nil] at hobject
  refine ⟨JsonFields.ofList (Json.orderedFields fields), (hfront.spelled hobject).parse hdepth, rfl, fun key => ?_⟩
  rw [JsonFields.get?_ofList, Json.orderedFields_eq_map, ← List.map_reverse, Json.lookup_map_ordered]

theorem written_object_parsed_mixed :
    ∃ parsed, parse " \x7bnull: 'it\\'s\n', \"k\" : [true,\t-12], k: \x7b \x7d\x7d ".toList = .ok parsed ∧
      parsed.get? "null" = some (.string "it's\n") ∧ parsed.get? "k" = some (.object []) := by
  have hnone : Spaces [] := by decide
  have hblank : Spaces [' '] := by decide
  have htab : Spaces ['\t'] := by decide
  have hnull : KeyLiteral "null".toList "null" := .bare ⟨'n', _, rfl, by decide, List.all_eq_true.mp (by decide)⟩
  have hbare : KeyLiteral ['k'] "k" := .bare ⟨'k', _, rfl, by decide, List.all_eq_true.mp (by decide)⟩
  have hinside : StringText '"' ['k'] ['k'] := .self (by decide) (by decide)
  have hquoted : KeyLiteral "\"k\"".toList "k" := .quoted (.intro (.inr rfl) hinside)
  have hwritten : StringText '\'' "it\\'s\n".toList "it's\n".toList :=
    .char (by decide) (by decide) (.char (by decide) (by decide) (.escape (.self (by decide) (by decide))))
  have htext : ValueLiteral "'it\\'s\n'".toList (.string "it's\n") := .string (.intro (.inl rfl) hwritten)
  have hdigits : Json.Digits "12".toList := ⟨by decide, List.all_eq_true.mp (by decide)⟩
  have hnumber : ValueLiteral "-12".toList (.number (.whole (-12))) := by
    have hnumberText : Json.NumberText "-12".toList ⟨true, [1, 2], none, none⟩ :=
      @Json.NumberText.intro true "12".toList none hdigits (by simp) (by simp)
    exact .number hnumberText rfl
  have hitems : ValueLiteral "[true,\t-12]".toList (.array [.bool true, .number (.whole (-12))]) :=
    .array (.cons hnone .true hnone (.last htab hnumber hnone))
  have hempty : ValueLiteral "\x7b \x7d".toList (.object []) := .object (.nil hblank)
  have hobject : ValueLiteral "\x7bnull: 'it\\'s\n', \"k\" : [true,\t-12], k: \x7b \x7d\x7d".toList _ :=
    .object (.cons hnone hnull hnone hblank htext hnone (.cons hblank hquoted hblank hblank hitems hnone
      (.last hblank hbare hnone hblank hempty hnone)))
  obtain ⟨parsed, hparsed, _, hget⟩ := written_object_parsed hblank hobject hblank (by decide)
  exact ⟨parsed, hparsed, hget "null", hget "k"⟩

end Template.Arguments

end SiteServer

import SiteServer.Proofs.Toml.Scalar
import SiteServer.Proofs.Toml.Text
import SiteServer.Toml.Reader

/-! # Sheets of plain values.

A sheet is a document of pairs, first those outside of tables and then table by table, each pair on a line of
its own. Its text is read as its data. -/

namespace SiteServer.Toml

variable {more : List Char}

/-! ## Plain values -/

/-- A value that is written on one line: a text, a number that fits sixty-four bits with a sign, or a list of
texts. -/
inductive Plain where
  | text (text : String)
  | size (n : Fin (1 <<< 63))
  | texts (texts : List String)

def writtenTexts : List String → List Char
  | [] => []
  | [text] => quoted text.toList
  | text :: rest => quoted text.toList ++ ',' :: writtenTexts rest

namespace Plain

def data : Plain → Json
  | .text s => .string s
  | .size n => .ofNat n
  | .texts items => .array (items.map .string)

def written : Plain → List Char
  | .text s => quoted s.toList
  | .size n => Decimal.digitsOf n
  | .texts items => '[' :: (writtenTexts items ++ [']'])

end Plain

theorem begins_cons {c : Char} (h : c ∉ [' ', '\t', '#', '\n', '\r']) (rest : List Char) : Begins (c :: rest) := by
  intro d hd
  obtain rfl := Option.some.inj hd
  exact h

theorem value?_quoted (depth : Nat) (text : String) (h : more.head? ≠ some '"') :
    value? (depth + 1) (quoted text.toList ++ more) = some (.string text, more) := by
  have hstring := string?_quoted text.toList h
  rw [quoted, List.cons_append] at hstring ⊢
  rw [value?, if_pos (.inl rfl), hstring]
  exact congrArg (fun s => some (Json.string s, more)) String.ofList_toList

theorem length_le_writtenTexts (texts : List String) : texts.length ≤ (writtenTexts texts).length := by
  induction texts with
  | nil => exact Nat.le_refl 0
  | cons text texts ih =>
      cases texts with
      | nil => simp [writtenTexts, quoted]
      | cons next texts =>
          simp only [writtenTexts, quoted, List.length_cons, List.length_append] at ih ⊢
          omega

/-- The items of an array, when each text is read. -/
theorem arrayItems?_writtenTexts {read : List Char → Option (Json × List Char)}
    (hread : ∀ (text : String) (more : List Char), more.head? ≠ some '"' →
      read (quoted text.toList ++ more) = some (.string text, more))
    (texts : List String) {fuel : Nat} (hfuel : texts.length < fuel) :
    arrayItems? read fuel (writtenTexts texts ++ ']' :: more) = some (texts.map .string, more) := by
  have hmark {c : Char} (hc : c ∉ [' ', '\t', '#', '\n', '\r']) (rest : List Char) :
      skipSpace (c :: rest) = c :: rest := skipSpace_begins (begins_cons hc rest)
  have hclose : skipSpace (']' :: more) = ']' :: more := hmark (by decide) more
  have hcomma (rest : List Char) : skipSpace (',' :: rest) = ',' :: rest := hmark (by decide) rest
  have hquote (text : String) (rest : List Char) :
      skipSpace (quoted text.toList ++ rest) = quoted text.toList ++ rest := hmark (by decide) _
  induction texts generalizing fuel with
  | nil =>
      obtain ⟨fuel, rfl⟩ := Nat.exists_eq_succ_of_ne_zero (Nat.ne_of_gt hfuel)
      rw [writtenTexts, List.nil_append, arrayItems?, hclose]
      rfl
  | cons text texts ih =>
      obtain ⟨fuel, rfl⟩ := Nat.exists_eq_succ_of_ne_zero (Nat.ne_of_gt (Nat.zero_lt_of_lt hfuel))
      cases texts with
      | nil =>
          rw [writtenTexts, arrayItems?, hquote]
          refine (congrArg (Option.bind · _) (hread text (']' :: more) (by simp))).trans ?_
          dsimp only [Option.bind_some]
          rw [hclose]
          rfl
      | cons next texts =>
          have hrest := ih (Nat.lt_of_succ_lt_succ hfuel)
          have htexts : writtenTexts (text :: next :: texts) =
              quoted text.toList ++ ',' :: writtenTexts (next :: texts) := rfl
          rw [htexts, List.append_assoc, arrayItems?, hquote]
          refine (congrArg (Option.bind · _) (hread text _ (by simp))).trans ?_
          dsimp only [Option.bind_some, List.cons_append]
          rw [hcomma]
          refine (congrArg (Option.bind · _) hrest).trans ?_
          rfl

theorem begins_written (value : Plain) (more : List Char) : Begins (value.written ++ more) := by
  cases value with
  | text s => exact begins_cons (by decide) _
  | texts items => exact begins_cons (by decide) _
  | size n =>
      obtain ⟨c, rest, hcons, hc⟩ := head_isDigit (Decimal.digits_digitsOf n)
      rw [Plain.written, hcons]
      exact begins_cons (Text.not_mem_of_all (by decide) hc) _

theorem value?_of_isDigit {c : Char} (h : c.isDigit = true) (depth : Nat) (rest : List Char) :
    value? (depth + 1) (c :: rest) = numeric? (c :: rest) := by
  have hc : c ∉ ['"', '\'', '[', '\x7b', 't', 'f'] := Text.not_mem_of_all (by decide) h
  simp only [List.mem_cons, not_or] at hc
  simp [value?, hc]

/-- A plain value at the end of a line is read as its data. -/
theorem value?_written (value : Plain) :
    value? depthLimit (value.written ++ '\n' :: more) = some (value.data, '\n' :: more) := by
  cases value with
  | text s => exact value?_quoted _ s (by simp)
  | size n =>
      have hnumeric : numeric? (Decimal.digitsOf n ++ '\n' :: more) = _ := numeric?_digitsOf n.isLt
      obtain ⟨c, rest, hcons, hc⟩ := head_isDigit (Decimal.digits_digitsOf n)
      rw [Plain.written, Plain.data]
      rw [hcons, List.cons_append] at hnumeric ⊢
      rw [depthLimit, value?_of_isDigit hc, hnumeric]
  | texts items =>
      have hfuel : items.length < (writtenTexts items ++ ']' :: '\n' :: more).length + 1 := by
        have hle := length_le_writtenTexts items
        rw [List.length_append]
        omega
      have hitems := @arrayItems?_writtenTexts ('\n' :: more) _ (fun text _ h => value?_quoted 78 text h)
        items _ hfuel
      have htext : (Plain.texts items).written ++ '\n' :: more =
          '[' :: (writtenTexts items ++ ']' :: '\n' :: more) := by
        simp [Plain.written]
      rw [htext, depthLimit, value?, if_neg (by decide), if_neg (by decide), if_pos rfl, hitems]
      rfl

/-! ## Pairs -/

def writtenPair (key : String) (value : Plain) : List Char :=
  writtenKey key ++ ' ' :: '=' :: ' ' :: (value.written ++ ['\n'])

def writtenPairs (pairs : List (String × Plain)) : List Char :=
  pairs.flatMap fun (key, value) => writtenPair key value

def itemsOf (pairs : List (String × Plain)) : Fields :=
  pairs.map fun (key, value) => (key, .value value.data)

theorem writtenPair_append (key : String) (value : Plain) (more : List Char) :
    writtenPair key value ++ more =
      writtenKey key ++ ' ' :: '=' :: ' ' :: (value.written ++ '\n' :: more) := by
  simp [writtenPair]

theorem pair?_writtenPair (key : String) (value : Plain) (more : List Char) :
    pair? (value? depthLimit) (writtenPair key value ++ more) = some ([], key, value.data, '\n' :: more) := by
  have hkey : key? (depthLimit - 1) (writtenPair key value ++ more) =
      some ([key], '=' :: ' ' :: (value.written ++ '\n' :: more)) := by
    rw [writtenPair_append]
    exact key?_writtenKey 78 key (by decide) rfl (by simp)
  have hskip : skipBlanks (' ' :: (value.written ++ '\n' :: more)) = value.written ++ '\n' :: more :=
    skipBlanks_begins (begins_written value _)
  simp only [pair?, hkey, Option.bind_eq_bind, Option.bind_some, hskip, value?_written]
  rfl

/-- A line does not begin like a header. -/
theorem take?_writtenPair (doc : Document) (key : String) (value : Plain) (more : List Char) :
    doc.take? (writtenPair key value ++ more) = (doc.fields.addUnder doc.header [] key value.data).map
      fun fields => ({ doc with fields }, '\n' :: more) := by
  have hhead : ∀ rest, writtenPair key value ++ more ≠ '[' :: rest := by
    rw [writtenPair_append]
    exact writtenKey_ne_header key _
  unfold Document.take?
  split
  · rename_i heq
    exact absurd heq (hhead _)
  · rename_i heq
    exact absurd heq (hhead _)
  · rw [pair?_writtenPair]
    dsimp only [Option.bind_eq_bind, Option.bind_some]
    cases doc.fields.addUnder doc.header [] key value.data <;> rfl

/-! ## Tables -/

def writtenHeader (name : String) : List Char :=
  '[' :: (writtenKey name ++ [']', '\n'])

theorem take?_writtenHeader (doc : Document) (name : String) (more : List Char) :
    doc.take? (writtenHeader name ++ more) = (doc.fields.startTable [] name).map
      fun fields => (⟨fields, [name]⟩, '\n' :: more) := by
  have htext : writtenHeader name ++ more = '[' :: (writtenKey name ++ ']' :: '\n' :: more) := by
    simp [writtenHeader]
  have hkey : key? (depthLimit - 1) (writtenKey name ++ ']' :: '\n' :: more) =
      some ([name], ']' :: '\n' :: more) := key?_writtenKey 78 name (by decide) rfl (by simp)
  have hheader : header? [']'] (writtenKey name ++ ']' :: '\n' :: more) = some ([name], '\n' :: more) := by
    rw [header?, hkey]
    rfl
  rw [htext]
  unfold Document.take?
  split
  · rename_i heq
    exact absurd (List.cons.inj heq).2 (writtenKey_ne_header name _ _)
  · rename_i heq
    simp only [← (List.cons.inj heq).2, hheader, List.getLast?_singleton, List.dropLast_singleton,
      Option.bind_eq_bind, Option.bind_some]
    cases doc.fields.startTable [] name <;> rfl
  · rename_i hno
    exact absurd rfl (hno _)

namespace Fields

variable {front inner : Fields} {name key : String} {value : Json}

theorem lookup_eq_none_of_nodup {keys : List String} (h : (inner.map Prod.fst ++ key :: keys).Nodup) :
    inner.lookup key = none := by
  rw [List.lookup_eq_none_iff]
  intro field hfield
  rw [List.nodup_append] at h
  exact bne_iff_ne.mpr (Ne.symm (h.2.2 field.1 (List.mem_map_of_mem hfield) key List.mem_cons_self))

theorem lookup_concat (h : front.lookup name = none) (item : Item) :
    (front ++ [(name, item)]).lookup name = some item := by
  rw [List.lookup_append, h, Option.none_or, List.lookup_cons, beq_self_eq_true]

theorem set_concat (h : front.lookup name = none) (item other : Item) :
    Fields.set name other (front ++ [(name, item)]) = front ++ [(name, other)] := by
  induction front with
  | nil => exact if_pos rfl
  | cons field front ih =>
      rw [List.lookup_eq_none_iff, List.forall_mem_cons] at h
      have hne : ¬ field.1 = name := Ne.symm (bne_iff_ne.mp h.1)
      rw [List.cons_append, set, if_neg hne, ih (List.lookup_eq_none_iff.mpr h.2), List.cons_append]

theorem addUnder_root (h : inner.lookup key = none) :
    inner.addUnder [] [] key value = some (inner ++ [(key, .value value)]) := by
  simp [addUnder, add, changeAt, h]

theorem startTable_root (h : front.lookup name = none) :
    front.startTable [] name = some (front ++ [(name, .table .named [])]) := by
  simp [startTable, changeAt, h]

/-- A pair is added to the table whose header stands last. -/
theorem addUnder_last (hfront : front.lookup name = none) (h : inner.lookup key = none) :
    Fields.addUnder [name] [] key value (front ++ [(name, .table .named inner)]) =
      some (front ++ [(name, .table .named (inner ++ [(key, .value value)]))]) := by
  have hadd : inner.addUnder [] [] key value = _ := addUnder_root h
  rw [addUnder, changeAt] at hadd
  rw [addUnder, changeAt, changeIn, lookup_concat hfront]
  simp [changeAt, hadd, set_concat hfront]

end Fields

/-! ## Reading line by line -/

/-- Reading a text goes on from what has been read to a document. Each line takes one step, so that any number
of steps beyond the length of the text is enough. -/
def Document.Reads (doc : Document) (text : List Char) (left : Document) : Prop :=
  ∀ fuel, text.length < fuel → Document.readLines? fuel doc text = some left

namespace Document

variable {doc next left : Document} {line rest : List Char}

theorem reads_nil (doc : Document) : doc.Reads [] doc := by
  intro fuel hfuel
  obtain ⟨fuel, rfl⟩ := Nat.exists_eq_succ_of_ne_zero (Nat.ne_of_gt hfuel)
  rw [readLines?, skipSpace_begins (by simp [Begins])]

/-- A line is taken in, and then the text behind it. -/
theorem Reads.behind (hbegins : Begins (line ++ rest)) (hne : line ≠ [])
    (htake : doc.take? (line ++ rest) = some (next, '\n' :: rest)) (h : next.Reads rest left) :
    doc.Reads (line ++ rest) left := by
  intro fuel hfuel
  obtain ⟨fuel, rfl⟩ := Nat.exists_eq_succ_of_ne_zero (Nat.ne_of_gt (Nat.zero_lt_of_lt hfuel))
  have hlength := List.length_pos_iff.mpr hne
  have hrest : rest.length < fuel := by
    rw [List.length_append] at hfuel
    omega
  have hend : endLine? ('\n' :: rest) = some rest := rfl
  rw [readLines?, skipSpace_begins hbegins]
  split
  · rename_i hnil
    exact absurd (List.append_eq_nil_iff.mp hnil).1 hne
  · simp only [htake, Option.bind_eq_bind, Option.bind_some, hend]
    exact h fuel hrest

/-- Pairs are added one after the other where `place` says: to the document itself, or to the table of its last
header. -/
theorem Reads.pairs {place : Fields → Fields} {header : List String}
    (hplace : ∀ {inner : Fields} {key : String} {value : Json}, inner.lookup key = none →
      (place inner).addUnder header [] key value = some (place (inner ++ [(key, .value value)])))
    {pairs : List (String × Plain)} {inner : Fields}
    (hdistinct : (inner.map Prod.fst ++ pairs.map Prod.fst).Nodup)
    (h : Reads ⟨place (inner ++ itemsOf pairs), header⟩ rest left) :
    Reads ⟨place inner, header⟩ (writtenPairs pairs ++ rest) left := by
  induction pairs generalizing inner with
  | nil => simpa [itemsOf, writtenPairs] using h
  | cons pair pairs ih =>
      obtain ⟨key, value⟩ := pair
      have hfresh : inner.lookup key = none := Fields.lookup_eq_none_of_nodup hdistinct
      have hrest : Reads ⟨place (inner ++ [(key, .value value.data)]), header⟩ (writtenPairs pairs ++ rest) left := by
        apply ih
        · simpa using hdistinct
        · simpa [itemsOf] using h
      rw [writtenPairs, List.flatMap_cons, List.append_assoc, ← writtenPairs]
      refine .behind ?_ ?_ ?_ hrest
      · rw [writtenPair_append]
        exact begins_writtenKey key _
      · simp [writtenPair]
      · rw [take?_writtenPair, hplace hfresh]
        rfl

end Document

/-! ## Sheets -/

/-- Pairs outside of tables, and tables of pairs; no key stands twice in one place. -/
structure Sheet where
  pairs : List (String × Plain)
  tables : List (String × List (String × Plain))
  distinct : (pairs.map Prod.fst ++ tables.map Prod.fst).Nodup
  distinctIn : ∀ table ∈ tables, (table.2.map Prod.fst).Nodup

/-- Tables with their headers, one after the other. -/
def writtenTables (tables : List (String × List (String × Plain))) : List Char :=
  tables.flatMap fun (name, pairs) => writtenHeader name ++ writtenPairs pairs

def tablesOf (tables : List (String × List (String × Plain))) : Fields :=
  tables.map fun (name, pairs) => (name, .table .named (itemsOf pairs))

def dataOf (pairs : List (String × Plain)) : JsonFields :=
  pairs.map fun (key, value) => (key, value.data)

namespace Sheet

def text (sheet : Sheet) : String :=
  .ofList (writtenPairs sheet.pairs ++ writtenTables sheet.tables)

def data (sheet : Sheet) : Json :=
  .object (dataOf sheet.pairs ++ sheet.tables.map fun (name, pairs) => (name, .object (dataOf pairs)))

end Sheet

theorem membersOf_append (first second : Fields) :
    membersOf (first ++ second) = membersOf first ++ membersOf second := by
  induction first with
  | nil => rfl
  | cons field first ih => rw [List.cons_append, membersOf, membersOf, ih, List.cons_append]

theorem membersOf_itemsOf (pairs : List (String × Plain)) : membersOf (itemsOf pairs) = dataOf pairs := by
  induction pairs with
  | nil => rfl
  | cons pair pairs ih =>
      rw [itemsOf, List.map_cons, membersOf, ← itemsOf, ih]
      rfl

theorem membersOf_tablesOf (tables : List (String × List (String × Plain))) :
    membersOf (tablesOf tables) = tables.map fun (name, pairs) => (name, .object (dataOf pairs)) := by
  induction tables with
  | nil => rfl
  | cons table tables ih =>
      rw [tablesOf, List.map_cons, membersOf, ← tablesOf, ih, Item.toJson, membersOf_itemsOf]
      rfl

/-- Each table is started by its header and takes its pairs. -/
theorem Document.reads_tables (tables : List (String × List (String × Plain))) {front : Fields}
    {header : List String} (hdistinct : (front.map Prod.fst ++ tables.map Prod.fst).Nodup)
    (hdistinctIn : ∀ table ∈ tables, (table.2.map Prod.fst).Nodup) :
    ∃ last, Document.Reads ⟨front, header⟩ (writtenTables tables) ⟨front ++ tablesOf tables, last⟩ := by
  induction tables generalizing front header with
  | nil => exact ⟨header, by simpa [tablesOf, writtenTables] using Document.reads_nil ⟨front, header⟩⟩
  | cons table tables ih =>
      obtain ⟨name, pairs⟩ := table
      obtain ⟨hpairs, hothers⟩ := List.forall_mem_cons.mp hdistinctIn
      have hfresh : front.lookup name = none := Fields.lookup_eq_none_of_nodup hdistinct
      obtain ⟨last, hrest⟩ := @ih (front ++ [(name, .table .named (itemsOf pairs))]) [name]
        (by simpa using hdistinct) hothers
      have htable : Document.Reads ⟨front ++ [(name, .table .named [])], [name]⟩
          (writtenPairs pairs ++ writtenTables tables) ⟨front ++ tablesOf ((name, pairs) :: tables), last⟩ := by
        let place (inner : Fields) : Fields := front ++ [(name, .table .named inner)]
        refine @Document.Reads.pairs _ _ place [name] (Fields.addUnder_last hfresh) pairs [] hpairs ?_
        simpa [place, tablesOf] using hrest
      refine ⟨last, ?_⟩
      rw [writtenTables, List.flatMap_cons, List.append_assoc, ← writtenTables]
      refine htable.behind (begins_cons (by decide) _) (List.cons_ne_nil _ _) ?_
      rw [take?_writtenHeader, Fields.startTable_root hfresh]
      rfl

theorem map_fst_itemsOf (pairs : List (String × Plain)) : (itemsOf pairs).map Prod.fst = pairs.map Prod.fst := by
  rw [itemsOf, List.map_map]
  rfl

/-- A sheet begins with a key or with a header, and with no byte order mark. -/
theorem Sheet.head?_text (sheet : Sheet) : sheet.text.toList.head? ≠ some '\ufeff' := by
  rw [Sheet.text, String.toList_ofList]
  intro hhead
  cases hpairs : sheet.pairs with
  | cons pair pairs =>
      obtain ⟨key, value⟩ := pair
      obtain ⟨c, rest, hcons, hc⟩ := writtenKey_eq_cons key
      obtain rfl : c = '\ufeff' := by
        simpa [hpairs, writtenPairs, writtenPair, hcons] using hhead
      exact absurd hc (by decide)
  | nil =>
      rw [hpairs] at hhead
      cases htables : sheet.tables with
      | nil =>
          rw [htables] at hhead
          cases hhead
      | cons table tables =>
          rw [htables] at hhead
          cases hhead

/-- The text of a sheet is read as its data. -/
theorem read?_text (sheet : Sheet) : read? sheet.text = some sheet.data := by
  have hdistinct : ((itemsOf sheet.pairs).map Prod.fst ++ sheet.tables.map Prod.fst).Nodup := by
    rw [map_fst_itemsOf]
    exact sheet.distinct
  obtain ⟨last, htables⟩ := @Document.reads_tables sheet.tables _ [] hdistinct sheet.distinctIn
  have hpairs : Document.Reads ⟨[], []⟩ sheet.text.toList ⟨itemsOf sheet.pairs ++ tablesOf sheet.tables, last⟩ := by
    rw [Sheet.text, String.toList_ofList]
    exact @Document.Reads.pairs _ _ id [] Fields.addUnder_root sheet.pairs []
      (List.nodup_append.mp sheet.distinct).1 htables
  have hread := hpairs _ (Nat.lt_add_one _)
  unfold read?
  split
  · rename_i heq
    exact absurd (by rw [heq]; rfl) sheet.head?_text
  · dsimp only
    rw [hread, Option.map_some, membersOf_append, membersOf_itemsOf, membersOf_tablesOf]
    rfl

end SiteServer.Toml

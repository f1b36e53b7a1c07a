import Mathlib.Logic.Relation
import SchemaForge.Proofs.Reading

/-! # Edits that change nothing that is read

Schemas may list their keywords in any order and may hold keywords that are not read. An edit of the one or
the other kind, in a schema at any depth, leaves what is read from a document as it was. That includes the
locations of the schemas and the first error.
-/

namespace SchemaForge

namespace Json

/-- The keywords that are read without any schema in them. -/
def plainKeywords : List String :=
  ["$ref", "type", "required", "enum", "default", "description"]

/-- All keywords that are read. -/
def readKeywords : List String :=
  plainKeywords ++ ["properties", "items", "additionalProperties", "allOf", "anyOf", "definitions", "$defs"]

/-- A single edit of one schema, which is the value itself or stands anywhere below it: its keywords are put
in another order, or a member whose keyword is not read is added or removed. -/
inductive Edited : Json → Json → Prop
  | reordered {members others : Entries Json} (hdistinct : members.Distinct)
      (h : members.Perm others) : Edited (.obj members) (.obj others)
  | added (before after : Entries Json) {keyword : String} (value : Json)
      (hkeyword : keyword ∉ readKeywords) :
      Edited (.obj (before ++ after)) (.obj (before ++ (keyword, value) :: after))
  | removed (before after : Entries Json) {keyword : String} (value : Json)
      (hkeyword : keyword ∉ readKeywords) :
      Edited (.obj (before ++ (keyword, value) :: after)) (.obj (before ++ after))
  | single (before after : Entries Json) {keyword : String} {value other : Json}
      (hkeyword : keyword ∈ ["items", "additionalProperties"]) (h : Edited value other) :
      Edited (.obj (before ++ (keyword, value) :: after)) (.obj (before ++ (keyword, other) :: after))
  | listed (before after : Entries Json) {keyword : String} (front back : List Json)
      {value other : Json} (hkeyword : keyword ∈ ["items", "allOf", "anyOf"]) (h : Edited value other) :
      Edited (.obj (before ++ (keyword, .arr (front ++ value :: back)) :: after))
        (.obj (before ++ (keyword, .arr (front ++ other :: back)) :: after))
  | named (before after : Entries Json) {keyword : String} (front back : Entries Json) (name : String)
      {value other : Json} (hkeyword : keyword ∈ ["properties", "definitions", "$defs"])
      (h : Edited value other) :
      Edited (.obj (before ++ (keyword, .obj (front ++ (name, value) :: back)) :: after))
        (.obj (before ++ (keyword, .obj (front ++ (name, other) :: back)) :: after))

theorem Edited.exists_members {value other : Json} (h : Edited value other) :
    ∃ members others, value = .obj members ∧ other = .obj others := by
  cases h <;> exact ⟨_, _, rfl, rfl⟩

end Json

namespace Schema

open Json

/-! ## Readers of one keyword -/

section

variable {β : Type} {keyword : String} {reader : Entries Json → β}

/-- What the reader makes of members depends on the first one of the keyword alone. -/
def LooksUp (keyword : String) (reader : Entries Json → β) : Prop :=
  ∃ missing found, ∀ members, reader members = (Entries.get? members keyword).elim missing found

theorem LooksUp.eq_of_get? {members others : Entries Json} (h : LooksUp keyword reader)
    (hget : members.get? keyword = others.get? keyword) : reader members = reader others := by
  obtain ⟨missing, found, hreader⟩ := h
  rw [hreader, hreader, hget]

/-- A value may be replaced wherever it stands if the reader makes the same of it alone. -/
theorem LooksUp.eq_of_replaced {key : String} {value other : Json} (h : LooksUp keyword reader)
    (hvalue : reader [(key, value)] = reader [(key, other)]) (before after : Entries Json) :
    reader (before ++ (key, value) :: after) = reader (before ++ (key, other) :: after) := by
  obtain ⟨missing, found, hreader⟩ := h
  rw [hreader, hreader, Entries.get?_cons, Entries.get?_cons] at hvalue
  rw [hreader, hreader, Entries.get?_append, Entries.get?_append, Entries.get?_cons, Entries.get?_cons]
  by_cases hkey : keyword = key
  · rw [if_pos hkey, if_pos hkey] at hvalue ⊢
    cases Entries.get? before keyword with
    | none => exact hvalue
    | some first => rfl
  · rw [if_neg hkey, if_neg hkey]

theorem looksUp_get? (keyword : String) : LooksUp keyword fun members => members.get? keyword :=
  ⟨none, some, fun _ => (Option.elim_none_some id _).symm⟩

theorem looksUp_readProperties (location : String) : LooksUp "properties" (readProperties location) :=
  ⟨_, _, readProperties_eq location⟩

theorem looksUp_readItems (location : String) : LooksUp "items" (readItems location) :=
  ⟨_, _, readItems_eq location⟩

theorem looksUp_readAdditional (location : String) :
    LooksUp "additionalProperties" (readAdditional location) :=
  ⟨_, _, readAdditional_eq location⟩

theorem looksUp_readSchemaList (keyword location : String) :
    LooksUp keyword (readSchemaList keyword location) :=
  ⟨_, _, readSchemaList_eq keyword location⟩

theorem looksUp_readDefinitions (keyword location : String) :
    LooksUp keyword (readDefinitions keyword location) :=
  ⟨_, _, readDefinitions_eq keyword location⟩

end

/-! ## Members with the same parts -/

/-- Under every keyword, the same is read from the members at the location. -/
structure SameParts (location : String) (members others : Entries Json) : Prop where
  plain : ∀ keyword ∈ plainKeywords, members.get? keyword = others.get? keyword
  properties : readProperties location members = readProperties location others
  items : readItems location members = readItems location others
  additional : readAdditional location members = readAdditional location others
  allOf : readSchemaList "allOf" location members = readSchemaList "allOf" location others
  anyOf : readSchemaList "anyOf" location members = readSchemaList "anyOf" location others
  definitions : readDefinitions "definitions" location members
    = readDefinitions "definitions" location others
  furtherDefinitions : readDefinitions "$defs" location members = readDefinitions "$defs" location others

section

variable {location : String} {members others : Entries Json}

theorem SameParts.readAt_eq (h : SameParts location members others) :
    readAt location (.obj members) = readAt location (.obj others) := by
  have hplain := h.plain
  simp only [plainKeywords, List.forall_mem_cons, List.not_mem_nil, false_implies, implies_true,
    and_true] at hplain
  obtain ⟨href, htype, hrequired, henum, hdefault, hdescription⟩ := hplain
  rw [readAt_obj, readAt_obj, readReference, readReference, href, htype, h.properties, h.items,
    h.additional, h.allOf, h.anyOf, readEnumeration, readEnumeration, henum, h.definitions,
    h.furtherDefinitions, readRequired, readRequired, hrequired, hdefault, readDescription,
    readDescription, hdescription]

theorem SameParts.of_get? (h : ∀ keyword ∈ readKeywords, members.get? keyword = others.get? keyword) :
    SameParts location members others where
  plain keyword hkeyword := h keyword (List.mem_append_left _ hkeyword)
  properties := (looksUp_readProperties location).eq_of_get? (h _ (by decide))
  items := (looksUp_readItems location).eq_of_get? (h _ (by decide))
  additional := (looksUp_readAdditional location).eq_of_get? (h _ (by decide))
  allOf := (looksUp_readSchemaList "allOf" location).eq_of_get? (h _ (by decide))
  anyOf := (looksUp_readSchemaList "anyOf" location).eq_of_get? (h _ (by decide))
  definitions := (looksUp_readDefinitions "definitions" location).eq_of_get? (h _ (by decide))
  furtherDefinitions := (looksUp_readDefinitions "$defs" location).eq_of_get? (h _ (by decide))

theorem SameParts.replace {key : String} {value other : Json}
    (h : SameParts location [(key, value)] [(key, other)]) (before after : Entries Json) :
    SameParts location (before ++ (key, value) :: after) (before ++ (key, other) :: after) where
  plain keyword hkeyword :=
    (looksUp_get? keyword).eq_of_replaced (h.plain keyword hkeyword) before after
  properties := (looksUp_readProperties location).eq_of_replaced h.properties before after
  items := (looksUp_readItems location).eq_of_replaced h.items before after
  additional := (looksUp_readAdditional location).eq_of_replaced h.additional before after
  allOf := (looksUp_readSchemaList "allOf" location).eq_of_replaced h.allOf before after
  anyOf := (looksUp_readSchemaList "anyOf" location).eq_of_replaced h.anyOf before after
  definitions :=
    (looksUp_readDefinitions "definitions" location).eq_of_replaced h.definitions before after
  furtherDefinitions :=
    (looksUp_readDefinitions "$defs" location).eq_of_replaced h.furtherDefinitions before after

end

/-! ## Edited values -/

/-- The two values are read alike, wherever they stand. -/
def SameRead (value other : Json) : Prop :=
  ∀ location, readAt location value = readAt location other

section

variable {location keyword : String} {value other : Json}

theorem readList_replaced (h : SameRead value other) (location : String) (index : Nat)
    (front back : List Json) :
    readList location index (front ++ value :: back) = readList location index (front ++ other :: back) := by
  induction front generalizing index with
  | nil => rw [List.nil_append, List.nil_append, readList, readList, h]
  | cons first more ih => rw [List.cons_append, List.cons_append, readList, readList, ih]

theorem readEntries_replaced (h : SameRead value other) (location name : String)
    (front back : Entries Json) :
    readEntries location (front ++ (name, value) :: back)
      = readEntries location (front ++ (name, other) :: back) := by
  induction front with
  | nil => rw [List.nil_append, List.nil_append, readEntries, readEntries, h]
  | cons first more ih => rw [List.cons_append, List.cons_append, readEntries, readEntries, ih]

/-- Alone under its keyword, a schema is read with nothing else. -/
theorem sameParts_single {members others : Entries Json}
    (hkeyword : keyword ∈ ["items", "additionalProperties"])
    (h : SameRead (.obj members) (.obj others)) :
    SameParts location [(keyword, .obj members)] [(keyword, .obj others)] := by
  simp only [List.mem_cons, List.not_mem_nil, or_false] at hkeyword
  rcases hkeyword with rfl | rfl <;> constructor <;>
    simp [plainKeywords, Entries.get?_cons, readProperties, readItems, readAdditional, readSchemaList,
      readDefinitions, h _]

theorem sameParts_listed {values others : List Json} (hkeyword : keyword ∈ ["items", "allOf", "anyOf"])
    (h : ∀ location, readList location 0 values = readList location 0 others) :
    SameParts location [(keyword, .arr values)] [(keyword, .arr others)] := by
  simp only [List.mem_cons, List.not_mem_nil, or_false] at hkeyword
  rcases hkeyword with rfl | rfl | rfl <;> constructor <;>
    simp [plainKeywords, Entries.get?_cons, readProperties, readItems, readAdditional, readSchemaList,
      readDefinitions, h]

theorem sameParts_named {entries others : Entries Json}
    (hkeyword : keyword ∈ ["properties", "definitions", "$defs"])
    (h : ∀ location, readEntries location entries = readEntries location others) :
    SameParts location [(keyword, .obj entries)] [(keyword, .obj others)] := by
  simp only [List.mem_cons, List.not_mem_nil, or_false] at hkeyword
  rcases hkeyword with rfl | rfl | rfl <;> constructor <;>
    simp [plainKeywords, Entries.get?_cons, readProperties, readItems, readAdditional, readSchemaList,
      readDefinitions, h]

end

theorem get?_eq_of_added {keyword other : String} (h : keyword ≠ other) (before after : Entries Json)
    (value : Json) :
    Entries.get? (before ++ (other, value) :: after) keyword = Entries.get? (before ++ after) keyword := by
  rw [Entries.get?_append, Entries.get?_append, Entries.get?_cons, if_neg h]

/-- An edited value is read as before, wherever it stands. -/
theorem sameRead_of_edited {value other : Json} (h : Edited value other) : SameRead value other := by
  induction h with
  | reordered hdistinct hperm =>
    intro location
    apply SameParts.readAt_eq
    exact SameParts.of_get? fun keyword _ => (Entries.get?_eq_of_perm hdistinct hperm keyword).symm
  | added before after value hunread =>
    intro location
    apply SameParts.readAt_eq
    refine SameParts.of_get? fun keyword hread => (get?_eq_of_added ?_ before after value).symm
    exact fun heq => hunread (heq ▸ hread)
  | removed before after value hunread =>
    intro location
    apply SameParts.readAt_eq
    refine SameParts.of_get? fun keyword hread => get?_eq_of_added ?_ before after value
    exact fun heq => hunread (heq ▸ hread)
  | single before after hkeyword hedited ih =>
    intro location
    obtain ⟨members, others, rfl, rfl⟩ := hedited.exists_members
    apply SameParts.readAt_eq
    apply SameParts.replace
    exact sameParts_single hkeyword ih
  | listed before after front back hkeyword _ ih =>
    intro location
    apply SameParts.readAt_eq
    apply SameParts.replace
    exact sameParts_listed hkeyword fun location => readList_replaced ih location 0 front back
  | named before after front back name hkeyword _ ih =>
    intro location
    apply SameParts.readAt_eq
    apply SameParts.replace
    exact sameParts_named hkeyword fun location => readEntries_replaced ih location name front back

/-- Any number of edits leaves the outcome as it was. It is the same schema with the same locations, or the
same error. -/
theorem read_eq_of_edited {document edited : Json} (h : Relation.ReflTransGen Edited document edited) :
    read document = read edited := by
  induction h with
  | refl => rfl
  | tail _ hedit ih => exact ih.trans (sameRead_of_edited hedit "#")

/-- An order whose schemas say more than is read from them. -/
def annotatedOrder : Json :=
  .obj [("title", .str "Order"),
    ("properties", .obj [("lines", .obj [("items", .obj [("type", .str "string"), ("pattern", .str "x")]),
      ("type", .str "array")])]),
    ("type", .str "object")]

/-- The same order with nothing else in it. -/
def plainOrder : Json :=
  .obj [("type", .str "object"),
    ("properties", .obj [("lines", .obj [("items", .obj [("type", .str "string")]),
      ("type", .str "array")])])]

theorem read_annotatedOrder : read annotatedOrder = read plainOrder := by
  apply read_eq_of_edited
  refine .tail (.tail (.tail .refl (.removed [] _ (.str "Order") (by decide)))
    (.reordered (by simp [Entries.Distinct, Entries.keys]) (List.Perm.swap _ _ []))) ?_
  apply Edited.named [("type", .str "object")] [] [] [] "lines" (by decide)
  apply Edited.single [] [("type", .str "array")] (by decide)
  exact Edited.removed [("type", .str "string")] [] (.str "x") (by decide)

end Schema

end SchemaForge

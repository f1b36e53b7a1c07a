import SchemaForge.Proofs.Basic
import SchemaForge.Schema.Reference

/-! # Chains of definitions

A reference spells out a chain of definitions, each in the table of the one before it. Names of
tables may stand anywhere in it and mean nothing, and `#` takes a walk back to the root, so that
nothing in front of it matters.
-/

namespace SchemaForge.Reference

/-! ## Segments of joined references -/

/-- Segments without a slash are found again in the reference that is written of them. -/
theorem segments_intercalate {parts : List String} (hslash : ∀ part ∈ parts, '/' ∉ part.toList)
    (hsome : parts ≠ []) : segments ("/".intercalate parts) = parts := by
  have hsplit : (['/'].intercalate (parts.map String.toList)).splitOn '/'
      = parts.map String.toList :=
    List.splitOn_intercalate '/' (by simpa using hslash) (by simpa using hsome)
  have hwritten : ("/".intercalate parts).toList = ['/'].intercalate (parts.map String.toList) :=
    String.toList_intercalate
  rw [segments, hwritten, hsplit, List.map_map]
  exact (List.map_congr_left fun part _ => String.ofList_toList).trans (List.map_id parts)

/-- References joined by a slash have the segments of both. -/
theorem segments_append (front reference : String) :
    segments (front ++ "/" ++ reference) = segments front ++ segments reference := by
  have hwritten : (front ++ "/" ++ reference).toList
      = front.toList ++ '/' :: reference.toList := by
    rw [String.toList_append, String.toList_append, List.append_assoc]
    rfl
  rw [segments, hwritten, List.splitOn_append_cons_self, List.map_append]
  rfl

/-! ## Walks along segments -/

/-- Names of tables mean nothing in a walk. -/
theorem walk_filter (root current : Schema) (parts : List String) :
    walk root current (parts.filter (· ∉ tableNames)) = walk root current parts := by
  induction parts generalizing current with
  | nil => rfl
  | cons part rest ih =>
    by_cases htable : part ∈ tableNames
    · have hhash : part ≠ "#" := by
        rintro rfl
        exact absurd htable (by decide)
      rw [List.filter_cons_of_neg (by simpa using htable), walk, if_neg hhash, if_pos htable]
      exact ih current
    · rw [List.filter_cons_of_pos (by simpa using htable), walk, walk]
      by_cases hhash : part = "#"
      · rw [if_pos hhash, if_pos hhash]
        exact ih root
      · rw [if_neg hhash, if_neg htable, if_neg hhash, if_neg htable]
        cases Entries.get? current.definitions part with
        | none => rfl
        | some definition => exact ih definition

/-- A walk goes on from where its first part ends. -/
theorem walk_append_of_eq_ok {root current target : Schema} {first : List String}
    (h : walk root current first = .ok target) (rest : List String) :
    walk root current (first ++ rest) = walk root target rest := by
  induction first generalizing current with
  | nil =>
    rw [walk, Except.ok.injEq] at h
    rw [h, List.nil_append]
  | cons segment more ih =>
    rw [List.cons_append, walk]
    rw [walk] at h
    by_cases hhash : segment = "#"
    · rw [if_pos hhash] at h ⊢
      exact ih h
    · rw [if_neg hhash] at h ⊢
      by_cases htable : segment ∈ tableNames
      · rw [if_pos htable] at h ⊢
        exact ih h
      · rw [if_neg htable] at h ⊢
        cases hget : Entries.get? current.definitions segment with
        | none =>
          rw [hget] at h
          cases h
        | some definition =>
          rw [hget] at h
          exact ih h

theorem walk_hash (root current : Schema) (rest : List String) :
    walk root current ("#" :: rest) = walk root root rest := by
  rw [walk, if_pos rfl]

/-! ## Chains of keys -/

/-- The key is one segment of a reference and has no meaning of its own there. -/
structure Plain (key : String) : Prop where
  slash : '/' ∉ key.toList
  hash : key ≠ "#"
  table : key ∉ tableNames

/-- Each key leads to a definition of the schema that the keys before it lead to, and all of them
to the last schema. -/
inductive Nested : Schema → List String → Schema → Prop
  | here {schema : Schema} : Nested schema [] schema
  | within {schema definition target : Schema} {key : String} {rest : List String}
      (hget : Entries.get? schema.definitions key = some definition)
      (h : Nested definition rest target) : Nested schema (key :: rest) target

/-- The key is the first of the keys that is not in the definitions of the schema that the keys
before it lead to. -/
inductive FirstMissing : Schema → List String → String → Prop
  | here {schema : Schema} {key : String} {rest : List String}
      (hget : Entries.get? schema.definitions key = none) : FirstMissing schema (key :: rest) key
  | within {schema definition : Schema} {key missing : String} {rest : List String}
      (hget : Entries.get? schema.definitions key = some definition)
      (h : FirstMissing definition rest missing) : FirstMissing schema (key :: rest) missing

/-- A plain key takes a walk to the definition under it. -/
theorem walk_plain {key : String} (h : Plain key) (root current : Schema) (rest : List String) :
    walk root current (key :: rest) = match Entries.get? current.definitions key with
      | some definition => walk root definition rest
      | none => .error key :=
  (if_neg h.hash).trans (if_neg h.table)

section Keys

variable {keys : List String}

/-- A walk along plain keys ends at the schema nested there. -/
theorem walk_eq_ok_iff (hplain : ∀ key ∈ keys, Plain key) {root current target : Schema} :
    walk root current keys = .ok target ↔ Nested current keys target := by
  induction keys generalizing current with
  | nil =>
    rw [walk, Except.ok.injEq]
    constructor
    · rintro rfl
      exact .here
    · rintro ⟨⟩
      rfl
  | cons key rest ih =>
    rw [List.forall_mem_cons] at hplain
    rw [walk_plain hplain.1]
    constructor
    · intro h
      cases hget : Entries.get? current.definitions key with
      | none =>
        rw [hget] at h
        cases h
      | some definition =>
        rw [hget] at h
        exact .within hget ((ih hplain.2).mp h)
    · rintro (_ | ⟨hget, h⟩)
      rw [hget]
      exact (ih hplain.2).mpr h

/-- A walk along plain keys fails at the first one that is missing. -/
theorem walk_eq_error_iff (hplain : ∀ key ∈ keys, Plain key) {root current : Schema}
    {missing : String} :
    walk root current keys = .error missing ↔ FirstMissing current keys missing := by
  induction keys generalizing current with
  | nil =>
    constructor <;> intro h <;> cases h
  | cons key rest ih =>
    rw [List.forall_mem_cons] at hplain
    rw [walk_plain hplain.1]
    constructor
    · intro h
      cases hget : Entries.get? current.definitions key with
      | none =>
        rw [hget, Except.error.injEq] at h
        subst h
        exact .here hget
      | some definition =>
        rw [hget] at h
        exact .within hget ((ih hplain.2).mp h)
    · rintro (hget | ⟨hget, h⟩)
      · rw [hget]
      · rw [hget]
        exact (ih hplain.2).mpr h

end Keys

/-! ## References that spell out a chain -/

/-- The segments are `#` and then the keys in their order, with names of tables anywhere. -/
def SpellsOut (parts keys : List String) : Prop :=
  parts.filter (· ∉ tableNames) = "#" :: keys

instance (parts keys : List String) : Decidable (SpellsOut parts keys) :=
  inferInstanceAs (Decidable (_ = _))

section SpelledOut

variable {parts keys : List String}

theorem SpellsOut.ne_nil (h : SpellsOut parts keys) : parts ≠ [] := by
  rintro rfl
  cases h

/-- The segments of a chain of plain keys have no slash. -/
theorem SpellsOut.slash (h : SpellsOut parts keys) (hplain : ∀ key ∈ keys, Plain key) :
    ∀ part ∈ parts, '/' ∉ part.toList := by
  have htables : ∀ name ∈ tableNames, '/' ∉ name.toList := by decide
  intro part hpart
  by_cases htable : part ∈ tableNames
  · exact htables part htable
  · have hspelled : part ∈ "#" :: keys := by
      rw [← h]
      exact List.mem_filter.mpr ⟨hpart, by simpa using htable⟩
    rcases List.mem_cons.mp hspelled with rfl | hkey
    · decide
    · exact (hplain part hkey).slash

/-- A walk along the segments of a chain is a walk along its keys from the root, wherever it
starts. -/
theorem SpellsOut.walk_eq (h : SpellsOut parts keys) (root current : Schema) :
    walk root current parts = walk root root keys := by
  rw [← walk_filter, h, walk_hash]

end SpelledOut

/-- Resolving a reference fails where the walk along its segments does. -/
theorem resolve_eq_error_iff {root : Schema} {reference : String} {error : Error} :
    resolve root reference = .error error ↔
      ∃ segment, walk root root (segments reference) = .error segment ∧
        error = .unresolvedReference reference segment := by
  rw [resolve]
  cases walk root root (segments reference) with
  | error segment => simp [Except.mapError, eq_comm]
  | ok target => simp [Except.mapError]

/-- A reference that spells out a chain of plain keys resolves to the schema nested there and fails
at the first key that is missing, also behind any reference that resolves. -/
theorem resolve_spelledOut {root : Schema} {parts keys : List String}
    (hplain : ∀ key ∈ keys, Plain key) (hspelled : SpellsOut parts keys) :
    (∀ target, resolve root ("/".intercalate parts) = .ok target ↔ Nested root keys target) ∧
    (∀ error, resolve root ("/".intercalate parts) = .error error ↔
      ∃ missing, FirstMissing root keys missing ∧
        error = .unresolvedReference ("/".intercalate parts) missing) ∧
    ∀ front passed, resolve root front = .ok passed →
      (∀ target, resolve root (front ++ "/" ++ "/".intercalate parts) = .ok target ↔
        resolve root ("/".intercalate parts) = .ok target) ∧
      ∀ error, resolve root (front ++ "/" ++ "/".intercalate parts) = .error error ↔
        ∃ missing, FirstMissing root keys missing ∧
          error = .unresolvedReference (front ++ "/" ++ "/".intercalate parts) missing := by
  have hsegments := segments_intercalate (hspelled.slash hplain) hspelled.ne_nil
  have hok : ∀ target, resolve root ("/".intercalate parts) = .ok target ↔
      Nested root keys target := by
    intro target
    rw [resolve, mapError_eq_ok, hsegments, hspelled.walk_eq, walk_eq_ok_iff hplain]
  refine ⟨hok, fun error => ?_, fun front passed hfront => ?_⟩
  · simp only [resolve_eq_error_iff, hsegments, hspelled.walk_eq, walk_eq_error_iff hplain]
  · -- the segments in front end somewhere, and `#` goes on from the root
    have hwalk : walk root root (segments (front ++ "/" ++ "/".intercalate parts))
        = walk root root keys := by
      rw [resolve, mapError_eq_ok] at hfront
      rw [segments_append, walk_append_of_eq_ok hfront, hsegments, hspelled.walk_eq]
    refine ⟨fun target => ?_, fun error => ?_⟩
    · rw [hok, resolve, mapError_eq_ok, hwalk, walk_eq_ok_iff hplain]
    · simp only [resolve_eq_error_iff, hwalk, walk_eq_error_iff hplain]

/-- A definition in the table of another one. -/
def innerDefinition : Schema where
  types := [.integer]
  location := "#/definitions/namespace/definitions/inner"

/-- The definition around it. -/
def namespaceDefinition : Schema where
  definitions := [("inner", innerDefinition)]
  location := "#/definitions/namespace"

/-- The root of both. -/
def nestedRoot : Schema where
  definitions := [("namespace", namespaceDefinition)]

theorem resolve_spelledOut_nestedRoot :
    resolve nestedRoot "$defs/#/definitions/namespace/$defs/definitions/inner"
      = .ok innerDefinition ∧
    resolve nestedRoot "#/namespace/#/namespace/inner" = .ok innerDefinition ∧
    resolve nestedRoot "#/namespace/#/namespace/outer/inner"
      = .error (.unresolvedReference "#/namespace/#/namespace/outer/inner" "outer") := by
  have hnamespace : Plain "namespace" := ⟨by decide, by decide, by decide⟩
  have hinner : Plain "inner" := ⟨by decide, by decide, by decide⟩
  have houter : Plain "outer" := ⟨by decide, by decide, by decide⟩
  have hchain : ∀ key ∈ ["namespace", "inner"], Plain key := by
    simp only [List.forall_mem_cons]
    exact ⟨hnamespace, hinner, by simp⟩
  have hlonger : ∀ key ∈ ["namespace", "outer", "inner"], Plain key := by
    simp only [List.forall_mem_cons]
    exact ⟨hnamespace, houter, hinner, by simp⟩
  have hnested : Nested nestedRoot ["namespace", "inner"] innerDefinition :=
    .within rfl (.within rfl .here)
  have hmissing : FirstMissing nestedRoot ["namespace", "outer", "inner"] "outer" :=
    .within rfl (.here rfl)
  have htables : SpellsOut ["$defs", "#", "definitions", "namespace", "$defs", "definitions",
    "inner"] ["namespace", "inner"] := by decide
  have hshort : SpellsOut ["#", "namespace", "inner"] ["namespace", "inner"] := by decide
  have hlong : SpellsOut ["#", "namespace", "outer", "inner"] ["namespace", "outer", "inner"] := by
    decide
  have hfront : resolve nestedRoot "#/namespace" = .ok namespaceDefinition := by cbv
  obtain ⟨hfound, -, -⟩ := resolve_spelledOut hchain htables
  obtain ⟨hplainly, -, hbehind⟩ := resolve_spelledOut hchain hshort
  obtain ⟨-, -, hstopped⟩ := resolve_spelledOut hlonger hlong
  exact ⟨(hfound _).mpr hnested,
    ((hbehind _ _ hfront).1 _).mpr ((hplainly _).mpr hnested),
    ((hstopped _ _ hfront).2 _).mpr ⟨_, hmissing, rfl⟩⟩

end SchemaForge.Reference

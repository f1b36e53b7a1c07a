import SchemaForge.Proofs.AliasLoops
import SchemaForge.Proofs.ComparedRuns
import SchemaForge.Proofs.DistinctKeys
import SchemaForge.Proofs.OneOrManyUse
import SchemaForge.Proofs.ReferenceTargets

/-! # The order of definitions

Definitions are found by their names, and where schemas are compared with each other their
definitions are compared by name as well. So the order in which a document lists its definitions
decides nothing but the order of the declarations, and which references are boxed to break cycles.
-/

namespace SchemaForge

open Rust

namespace Schema

/-- The same schema with its definitions in another order, where each of them is still found. -/
inductive Reordered (schema : Schema) : Schema → Prop
  | mk {definitions : Entries Schema} (perm : schema.definitions.Perm definitions)
      (lookup : ∀ key, Entries.get? definitions key = Entries.get? schema.definitions key) :
      Reordered schema { schema with definitions }

theorem Reordered.refl (schema : Schema) : Reordered schema schema := by
  cases schema
  exact .mk (List.Perm.refl _) fun _ => rfl

/-- An order says nothing about the schemas under the other keywords. -/
theorem Reordered.alike {first second : Schema} (h : Reordered first second) :
    Alike Reordered first second := by
  cases h with
  | mk =>
    have hsame := Alike.refl Reordered.refl first
    exact ⟨rfl, rfl, hsame.properties, rfl, hsame.items, hsame.additional, hsame.allOf,
      hsame.anyOf, rfl, rfl⟩

/-- Definitions are kept from the first schema of a merge. -/
theorem Reordered.merge {first second other another : Schema} (h : Reordered first second)
    (hother : Reordered other another) : Reordered (first.merge other) (second.merge another) := by
  cases h with
  | mk perm lookup =>
    cases hother with
    | mk =>
      rw [merge_eq, merge_eq]
      exact .mk perm lookup

/-- Schemas are compared regardless of the order of their definitions. -/
theorem Reordered.same_eq {first second other another : Schema} (h : Reordered first second)
    (hother : Reordered other another) : same second another = same first other := by
  cases h with
  | @mk definitions perm lookup =>
    cases hother with
    | @mk further permOther lookupOther =>
      have hentries : sameEntries definitions further
          = sameEntries first.definitions other.definitions := by
        simp only [sameEntries_eq_all, lookupOther]
        exact perm.symm.all_eq
      cases first
      rw [same, same]
      simp only [hentries, perm.length_eq, permOther.length_eq]

/-! ## References and the one-or-many pattern -/

section

variable {root other : Schema} (hroot : Reordered root other)

include hroot

theorem Reordered.agree_walk {current another : Schema} (h : Reordered current another)
    (segments : List String) :
    Agree Reordered (Reference.walk root current segments)
      (Reference.walk other another segments) := by
  induction segments generalizing current another with
  | nil => exact .ok h
  | cons segment rest ih =>
    rw [Reference.walk, Reference.walk]
    split
    · exact ih hroot
    · split
      · exact ih h
      · cases h with
        | mk perm lookup =>
          rw [lookup]
          cases Entries.get? current.definitions segment with
          | none => exact .error _ _
          | some definition => exact ih (.refl definition)

theorem Reordered.agree_target (reference : String) :
    Agree Reordered (Reference.resolve root reference) (Reference.resolve other reference) :=
  (hroot.agree_walk hroot (Reference.segments reference)).mapError _ _

theorem Reordered.agree_resolve {first second : Schema} (h : Reordered first second) :
    Agree Reordered (resolve root first) (resolve other second) :=
  Comparison.agree_resolve Reordered.alike hroot.agree_target Reordered.merge h

/-- The pattern is found or not found whatever the order, as is a failure on the way. -/
theorem Reordered.agree_isOneOrMany (single several : Schema) :
    Agree (· = ·) (Document.isOneOrMany root single several)
      (Document.isOneOrMany other single several) :=
  Document.agree_isOneOrMany Reordered.alike (fun h h' => (h.same_eq h').symm) hroot.agree_resolve
    (.refl single) (.refl several)

end

end Schema

/-! ## Aliases -/

namespace Rust

/-- Where names are distinct, every alias is found by its name. -/
theorem alias?_eq_some_iff {declarations : List Declaration}
    (h : (declarations.map Declaration.name).Nodup) {name : String} {synonym : TypeAlias} :
    alias? declarations name = some synonym
      ↔ .typeAlias synonym ∈ declarations ∧ synonym.name = name := by
  have hmem : ∀ other, other ∈ aliases declarations ↔ .typeAlias other ∈ declarations := by
    intro other
    rw [aliases, List.mem_filterMap]
    constructor
    · rintro ⟨declaration, hdeclaration, hother⟩
      cases declaration <;> cases hother
      exact hdeclaration
    · exact fun hother => ⟨_, hother, rfl⟩
  rw [alias?]
  constructor
  · intro hfound
    exact ⟨(hmem synonym).mp (List.mem_of_find?_eq_some hfound), by
      simpa using List.find?_some hfound⟩
  · rintro ⟨hdeclared, rfl⟩
    obtain ⟨found, hfound⟩ : ∃ found,
        (aliases declarations).find? (fun other => other.name = synonym.name) = some found := by
      rw [← Option.isSome_iff_exists, List.find?_isSome]
      exact ⟨synonym, (hmem synonym).mpr hdeclared, by simp⟩
    have hname : found.name = synonym.name := by simpa using List.find?_some hfound
    have hsame : Declaration.typeAlias found = .typeAlias synonym :=
      List.inj_on_of_nodup_map h ((hmem found).mp (List.mem_of_find?_eq_some hfound)) hdeclared
        hname
    cases hsame
    exact hfound

/-- Whether aliases expand into themselves does not depend on the order of the declarations. -/
theorem checkAliases_eq_ok_iff_of_perm {declarations others : List Declaration}
    (hnames : (declarations.map Declaration.name).Nodup) (hperm : declarations.Perm others) :
    checkAliases declarations = .ok () ↔ checkAliases others = .ok () := by
  have hothers : (others.map Declaration.name).Nodup :=
    (hperm.map Declaration.name).nodup_iff.mp hnames
  have halias : alias? others = alias? declarations := by
    funext name
    apply Option.ext
    intro synonym
    rw [alias?_eq_some_iff hothers, alias?_eq_some_iff hnames, hperm.mem_iff]
  have hexpands : Expands others = Expands declarations := by
    funext name other
    rw [Expands, Expands, halias]
  rw [checkAliases_eq_ok_iff, checkAliases_eq_ok_iff, hexpands]

end Rust

namespace Document

/-- A document with other definitions, or the same ones in another order. -/
def withDefinitions (document : Document) (definitions : Entries Schema) : Document :=
  { document with root := { document.root with definitions } }

/-- A function tells the declarations of a document when it tells that of each definition by its
key and that of the root by its name. -/
theorem expandAll_eq_ok_map_iff {document : Document} {declare : String → Declaration} :
    (expandAll document).outcome = .ok (document.sources.keys.map declare) ↔
      (∀ definition ∈ document.root.definitions,
          DefinedAs document definition (declare definition.1)) ∧
        ∀ name ∈ document.rootName.toList,
          (expandSchema document name document.root).outcome = .ok (declare name) := by
  have hsources : document.sources.keys.map declare
      = document.root.definitions.map (fun definition => declare definition.1)
        ++ document.rootName.toList.map declare := by
    simp [sources, Entries.keys, Function.comp_def]
  rw [expandAll_eq_ok_iff, hsources]
  constructor
  · rintro ⟨defined, roots, hdefined, hroots, happend⟩
    have hlength : (document.root.definitions.map fun definition => declare definition.1).length
        = defined.length := by rw [List.length_map, hdefined.length_eq]
    obtain ⟨rfl, rfl⟩ := List.append_inj happend hlength
    rw [List.forall₂_map_right_iff, List.forall₂_same] at hdefined hroots
    exact ⟨hdefined, hroots⟩
  · rintro ⟨hdefined, hroots⟩
    refine ⟨_, _, ?_, ?_, rfl⟩
    · exact List.forall₂_map_right_iff.mpr (List.forall₂_same.mpr hdefined)
    · exact List.forall₂_map_right_iff.mpr (List.forall₂_same.mpr hroots)

theorem map_typeName_sources (document : Document) :
    (document.sources.map fun source => typeName source.1)
      = document.sources.keys.map typeName := by
  rw [Entries.keys, List.map_map]
  rfl

section

variable {document : Document} {definitions : Entries Schema}
  (hperm : document.root.definitions.Perm definitions)
  (hnames : (document.sources.map fun source => typeName source.1).Nodup)

include hnames in
theorem nodup_keys_sources : document.sources.keys.Nodup := by
  rw [map_typeName_sources] at hnames
  exact hnames.of_map typeName

include hnames in
/-- The declarations of a document are told by the names of its schemas. -/
theorem exists_declare {declarations : List Declaration}
    (h : (expandAll document).outcome = .ok declarations) :
    ∃ declare : String → Declaration, declarations = document.sources.keys.map declare := by
  have : Inhabited Declaration := ⟨.enum { name := "" }⟩
  apply exists_map_eq (nodup_keys_sources hnames)
  rw [Entries.keys, List.length_map]
  exact (forall₂_declarationOf_of_expandAll h).length_eq

include hperm

theorem perm_keys_sources :
    document.sources.keys.Perm (document.withDefinitions definitions).sources.keys := by
  rw [Entries.keys, Entries.keys, sources, sources, List.map_append, List.map_append,
    List.map_map, List.map_map]
  exact (hperm.map Prod.fst).append_right _

include hnames

theorem reordered_root :
    Schema.Reordered document.root (document.withDefinitions definitions).root := by
  have hkeys := nodup_keys_sources hnames
  rw [Entries.keys, sources, List.map_append] at hkeys
  exact .mk hperm (Entries.get?_eq_of_perm hkeys.of_append_left hperm)

theorem comparison_withDefinitions :
    Comparison document (document.withDefinitions definitions) id Schema.Reordered where
  rootName := rfl
  alike := Schema.Reordered.alike
  description h := by
    cases h
    rfl
  target := (reordered_root hperm hnames).agree_target
  merge := Schema.Reordered.merge
  pair h hfirst hsecond := by
    cases h
    cases hfirst.symm.trans hsecond
    exact (reordered_root hperm hnames).agree_isOneOrMany _ _

/-- A named schema becomes the same declaration whatever the order of the definitions. -/
theorem expandSchema_withDefinitions {name : String} {first second : Schema}
    (h : Schema.Reordered first second) {declaration : Declaration}
    (hdeclaration : (expandSchema document name first).outcome = .ok declaration) :
    (expandSchema (document.withDefinitions definitions) name second).outcome
      = .ok declaration := by
  have hagree := (comparison_withDefinitions hperm hnames).agree_expandSchema name h
  obtain ⟨other, hother, hsame⟩ := hagree.exists_ok hdeclaration
  rw [Declaration.redescribe_id, Declaration.redescribe_id] at hsame
  rw [hother, hsame]

/-- The declarations of a document are those of the document in another order, in that order. -/
theorem expandAll_withDefinitions {declare : String → Declaration}
    (h : (expandAll document).outcome = .ok (document.sources.keys.map declare)) :
    (expandAll (document.withDefinitions definitions)).outcome
      = .ok ((document.withDefinitions definitions).sources.keys.map declare) := by
  obtain ⟨hdefined, hroots⟩ := expandAll_eq_ok_map_iff.mp h
  refine expandAll_eq_ok_map_iff.mpr ⟨fun definition hdefinition => ?_, fun name hname => ?_⟩
  · obtain ⟨made, hmade, hdescribed⟩ := hdefined definition (hperm.mem_iff.mpr hdefinition)
    exact ⟨made, expandSchema_withDefinitions hperm hnames (.refl _) hmade, hdescribed⟩
  · exact expandSchema_withDefinitions hperm hnames (reordered_root hperm hnames)
      (hroots name hname)

/-- Aliases that are in order stay so, whatever the order of the definitions. -/
theorem checkAliases_withDefinitions {declare : String → Declaration}
    (h : (expandAll document).outcome = .ok (document.sources.keys.map declare)) :
    checkAliases (document.sources.keys.map declare) = .ok ()
      ↔ checkAliases ((document.withDefinitions definitions).sources.keys.map declare)
        = .ok () := by
  refine checkAliases_eq_ok_iff_of_perm ?_ ((perm_keys_sources hperm).map declare)
  have hdeclared : List.Forall₂ (fun declaration source => declaration.name = typeName source.1)
      (document.sources.keys.map declare) document.sources :=
    (forall₂_declarationOf_of_expandAll h).flip.imp fun _ _ hof => hof.name
  have hmap : (document.sources.keys.map declare).map Declaration.name
      = document.sources.map fun source => typeName source.1 := by
    rw [← List.forall₂_eq_eq_eq, List.forall₂_map_left_iff, List.forall₂_map_right_iff]
    exact hdeclared
  rwa [hmap]

/-- What a document declares, the document in another order declares as well. -/
theorem exists_expand_withDefinitions {breaking : Bool} {program : Program}
    (h : (document.expand breaking).outcome = .ok program) :
    ∃ declare : String → Declaration,
      (expandAll document).outcome = .ok (document.sources.keys.map declare) ∧
      (expandAll (document.withDefinitions definitions)).outcome
        = .ok ((document.withDefinitions definitions).sources.keys.map declare) ∧
      ∃ other, ((document.withDefinitions definitions).expand breaking).outcome = .ok other := by
  obtain ⟨declarations, hall, hcheck, -⟩ := expand_eq_ok h
  obtain ⟨declare, rfl⟩ := exists_declare hnames hall
  have hother := expandAll_withDefinitions hperm hnames hall
  rw [checkAliases_withDefinitions hperm hnames hall] at hcheck
  exact ⟨declare, hall, hother, _, expand_eq_ok_iff.mpr ⟨_, hother, hcheck, rfl⟩⟩

end

/-- The declaration is the one of the key, apart from boxes around names that were held inline. -/
def UpToBoxes (declare : String → Declaration) (key : String) (declaration : Declaration) : Prop :=
  (declare key).BoxedVersion declaration ∧ declaration.frame = (declare key).frame

theorem forall₂_upToBoxes_boxCycles (declare : String → Declaration) (keys : List String) :
    List.Forall₂ (UpToBoxes declare) keys (boxCycles (keys.map declare)) := by
  refine forall₂_boxFirst ?_ ?_ []
  · rintro key declaration ⟨hversion, hframe⟩
    exact ⟨hversion.boxAlong _ _, (declaration.frame_mapSlots _).trans hframe⟩
  · exact List.forall₂_map_right_iff.mpr (List.forall₂_same.mpr fun key _ => ⟨.refl _, rfl⟩)

/-- What a program declares when the declarations of its document are told by their keys. -/
theorem declarations_of_expand {document : Document} {breaking : Bool} {program : Program}
    {declare : String → Declaration}
    (hall : (expandAll document).outcome = .ok (document.sources.keys.map declare))
    (h : (document.expand breaking).outcome = .ok program) :
    (breaking = false → program.declarations = document.sources.keys.map declare) ∧
      List.Forall₂ (UpToBoxes declare) document.sources.keys program.declarations ∧
      program.needsOneOrMany = (document.sources.keys.map declare).any
        Declaration.usesOneOrMany := by
  have hneeds := needsOneOrMany_of_expand h
  obtain ⟨declarations, hmade, -, hprogram⟩ := expand_eq_ok h
  obtain rfl := Except.ok.inj (hmade.symm.trans hall)
  rw [hneeds, hprogram]
  cases breaking with
  | false =>
    refine ⟨fun _ => rfl, ?_, rfl⟩
    exact List.forall₂_map_right_iff.mpr (List.forall₂_same.mpr fun key _ => ⟨.refl _, rfl⟩)
  | true =>
    refine ⟨fun hbreaking => absurd hbreaking (by decide), ?_, any_usesOneOrMany_boxFirst _ _ _⟩
    exact forall₂_upToBoxes_boxCycles declare _

/-- Let the names in a document become different type names. Then the order of its definitions
makes no difference to whether it can be expanded and whether it needs the one-or-many helper, and
each named schema has the same declaration in either order, the declarations standing in the order
of the definitions and the root last. Where cycles are broken they are the same apart from boxes. -/
theorem expand_withDefinitions {document : Document} {definitions : Entries Schema}
    (breaking : Bool) (hperm : document.root.definitions.Perm definitions)
    (hnames : (document.sources.map fun source => typeName source.1).Nodup) :
    ((∃ program, (document.expand breaking).outcome = .ok program) ↔
        ∃ program, ((document.withDefinitions definitions).expand breaking).outcome
          = .ok program) ∧
      ∀ first second, (document.expand breaking).outcome = .ok first →
        ((document.withDefinitions definitions).expand breaking).outcome = .ok second →
          first.needsOneOrMany = second.needsOneOrMany ∧
          ∃ declare : String → Declaration,
            (breaking = false →
              first.declarations = document.sources.keys.map declare ∧
              second.declarations
                = (document.withDefinitions definitions).sources.keys.map declare) ∧
            List.Forall₂ (UpToBoxes declare) document.sources.keys first.declarations ∧
            List.Forall₂ (UpToBoxes declare)
              (document.withDefinitions definitions).sources.keys second.declarations := by
  refine ⟨⟨?_, ?_⟩, ?_⟩
  · rintro ⟨program, h⟩
    obtain ⟨-, -, -, hother⟩ := exists_expand_withDefinitions hperm hnames h
    exact hother
  · rintro ⟨program, h⟩
    -- the first document is the second one with its definitions put back in order
    have hback : (document.withDefinitions definitions).withDefinitions document.root.definitions
        = document := by
      obtain ⟨⟨⟩, _⟩ := document
      rfl
    have hmore : ((document.withDefinitions definitions).sources.map
        fun source => typeName source.1).Nodup := by
      rw [map_typeName_sources] at hnames ⊢
      exact ((perm_keys_sources hperm).map typeName).nodup_iff.mp hnames
    obtain ⟨-, -, -, hother⟩ := exists_expand_withDefinitions hperm.symm hmore h
    rwa [hback] at hother
  · intro first second hfirst hsecond
    obtain ⟨declare, hall, hother, -⟩ := exists_expand_withDefinitions hperm hnames hfirst
    obtain ⟨hfirstAll, hfirstBoxes, hfirstNeeds⟩ := declarations_of_expand hall hfirst
    obtain ⟨hsecondAll, hsecondBoxes, hsecondNeeds⟩ := declarations_of_expand hother hsecond
    refine ⟨?_, declare, fun hbreaking => ⟨hfirstAll hbreaking, hsecondAll hbreaking⟩,
      hfirstBoxes, hsecondBoxes⟩
    rw [hfirstNeeds, hsecondNeeds]
    exact ((perm_keys_sources hperm).map declare).any_eq

/-- Hens that come out of eggs that come out of hens. -/
def henhouse : Document where
  root := {
    properties := [
      ("hens", { types := [.array], items := [{ reference := some "#/definitions/hen" }] })]
    definitions := [
      ("hen", { properties := [("egg", { reference := some "#/definitions/egg" })] }),
      ("egg", { properties := [("hen", { reference := some "#/definitions/hen" })] })] }
  rootName := some "henhouse"

/-- The declaration of a struct with one field that may be left out. -/
def henhouseStruct (name sourceName field : String) (type : Ty) : Declaration :=
  .struct {
    name
    sourceName
    fields := [{ name := field, sourceName := field, type := .optional type }]
    isDefault := true
    rename := some sourceName }

/-- The program for it, in which the hen of an egg is boxed. -/
def henFirst : Program where
  rootName := some "henhouse"
  declarations := [
    henhouseStruct "Hen" "hen" "egg" (.named "Egg"),
    henhouseStruct "Egg" "egg" "hen" (.boxed (.named "Hen")),
    henhouseStruct "Henhouse" "henhouse" "hens" (.array (.named "Hen"))]
  needsOneOrMany := false

/-- The program for the other order, in which the egg of a hen is boxed. -/
def eggFirst : Program where
  rootName := some "henhouse"
  declarations := [
    henhouseStruct "Egg" "egg" "hen" (.named "Hen"),
    henhouseStruct "Hen" "hen" "egg" (.boxed (.named "Egg")),
    henhouseStruct "Henhouse" "henhouse" "hens" (.array (.named "Hen"))]
  needsOneOrMany := false

theorem expand_withDefinitions_henhouse :
    let definitions := henhouse.root.definitions.reverse
    henhouse.root.definitions.Perm definitions ∧
      (henhouse.sources.map fun source => typeName source.1).Nodup ∧
      (henhouse.expand true).outcome = .ok henFirst ∧
      ((henhouse.withDefinitions definitions).expand true).outcome = .ok eggFirst ∧
      ∃ declare : String → Declaration,
        List.Forall₂ (UpToBoxes declare) ["hen", "egg", "henhouse"] henFirst.declarations ∧
        List.Forall₂ (UpToBoxes declare) ["egg", "hen", "henhouse"] eggFirst.declarations := by
  intro definitions
  have hperm : henhouse.root.definitions.Perm definitions := (List.reverse_perm _).symm
  have hnames : (henhouse.sources.map fun source => typeName source.1).Nodup := by
    decide +kernel
  have hfirst : (henhouse.expand true).outcome = .ok henFirst := by cbv
  have hsecond : ((henhouse.withDefinitions definitions).expand true).outcome = .ok eggFirst := by
    cbv
  obtain ⟨-, declare, -, hboxes, hmore⟩ :=
    (expand_withDefinitions true hperm hnames).2 henFirst eggFirst hfirst hsecond
  exact ⟨hperm, hnames, hfirst, hsecond, declare, hboxes, hmore⟩

end Document

end SchemaForge

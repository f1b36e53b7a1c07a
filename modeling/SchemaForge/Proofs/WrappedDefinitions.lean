import SchemaForge.Proofs.BoxedReferences
import SchemaForge.Proofs.DefinitionOrder
import SchemaForge.Proofs.OneOrManyPattern
import SchemaForge.Proofs.OnlyComponents
import SchemaForge.Proofs.RepeatedComponents
import SchemaForge.Proofs.ReplacedDefinitions

/-! # Wrapped definitions

A definition that is made the only component of a schema around it resolves to the same schema, so a
struct that it becomes has the same fields. But whether a schema without properties becomes an enum,
and which type an alias is for, is read off the schema as it is written, and the schema around has
neither values nor a type. So a wrapped definition keeps its declaration only if this is a struct or
an alias of any value.
-/

namespace SchemaForge

open Rust

namespace Rust

/-- The declaration is a struct or an alias of any value. -/
inductive Declaration.Steady : Declaration → Prop
  | struct (declared : Struct) : Steady (.struct declared)
  | anyValue {declared : TypeAlias} (h : declared.target = .any) : Steady (.typeAlias declared)

@[simp] theorem Declaration.describe_describe (first second : Option String)
    (declaration : Declaration) :
    (declaration.describe first).describe second = declaration.describe second := by
  cases declaration <;> rfl

theorem Declaration.steady_describe_iff (description : Option String) (declaration : Declaration) :
    (declaration.describe description).Steady ↔ declaration.Steady := by
  cases declaration with
  | struct declared => exact ⟨fun _ => .struct _, fun _ => .struct _⟩
  | enum declared => exact ⟨nofun, nofun⟩
  | typeAlias declared =>
    constructor <;>
    · intro hsteady
      cases hsteady with
      | anyValue htarget => exact .anyValue htarget

theorem boxAlong_eq_any_iff (edges : List Edge) (holder : String) (type : Ty) :
    boxAlong edges holder type = .any ↔ type = .any := by
  rcases boxAlong_cases edges holder type with ⟨heq, -⟩ | ⟨target, -, ⟨rfl, heq⟩ | ⟨rfl, heq⟩⟩ <;>
    simp [heq]

theorem Declaration.steady_boxed_iff (edges : List Edge) (holder : String)
    (declaration : Declaration) :
    (declaration.mapSlots (boxAlong edges holder)).Steady ↔ declaration.Steady := by
  cases declaration with
  | struct declared => exact ⟨fun _ => .struct _, fun _ => .struct _⟩
  | enum declared => exact ⟨nofun, nofun⟩
  | typeAlias declared =>
    constructor <;> intro hsteady
    · cases hsteady with
      | anyValue htarget => exact .anyValue ((boxAlong_eq_any_iff _ _ _).mp htarget)
    · cases hsteady with
      | anyValue htarget => exact .anyValue ((boxAlong_eq_any_iff _ _ _).mpr htarget)

/-- Boxing makes nothing steady that was not, and leaves steady what was. -/
theorem forall₂_steady_boxCycles (declarations : List Declaration) :
    List.Forall₂ (fun before after => after.Steady ↔ before.Steady) declarations
      (boxCycles declarations) := by
  refine forall₂_boxFirst (fun before after h => ?_) (List.forall₂_same.mpr fun _ _ => .rfl) []
  exact (after.steady_boxed_iff _ _).trans h

/-- The descriptions of declarations do not decide what is boxed. -/
theorem boxCycles_describe (description : Option String) (declarations : List Declaration) :
    boxCycles (declarations.map (Declaration.describe description))
      = (boxCycles declarations).map (Declaration.describe description) := by
  refine boxCycles_map (Declaration.name_describe description) ?_ ?_ declarations
  · rintro (declared | declared | declared) <;> rfl
  · rintro along (declared | declared | declared) <;> rfl

end Rust

namespace Document

open Schema

/-- The document with another schema in the place of the definition of that name. -/
def redefine (document : Document) (name : String) (schema : Schema) : Document :=
  document.withDefinitions (Entries.put document.root.definitions name schema)

/-! ## Declarations -/

/-- Schemas of the two documents are looked at alike. -/
theorem simulation_of_rewrapped {first second : Document}
    (hroots : Rewrapped first.root second.root) (hname : first.rootName = second.rootName) :
    Simulation first second id (Kin first.root second.root) where
  rootName := hname
  alike := Kin.alike_kin
  description := Kin.description
  resolve h := h.follows_resolve hroots
  pair h hfirst hsecond :=
    follows_isOneOrMany Kin.alike_kin (fun h h' => h.same_eq hroots h')
      (fun h => h.follows_resolve hroots) (h.alike_kin.pair hfirst hsecond).1
      (h.alike_kin.pair hfirst hsecond).2

section

variable {first second : Document} (hroots : Rewrapped first.root second.root)
  (hname : first.rootName = second.rootName)

include hroots hname

/-- What a schema becomes, its partner becomes as well. -/
theorem expandSchema_of_kin {a b : Schema} (h : Kin first.root second.root a b) {name : String}
    {declaration : Declaration} (hmade : (expandSchema first name a).outcome = .ok declaration) :
    (expandSchema second name b).outcome = .ok declaration := by
  have hfollows := (simulation_of_rewrapped hroots hname).follows_expandSchema name h
  obtain ⟨other, hother, hsame⟩ := hfollows declaration hmade
  rw [Declaration.redescribe_id, Declaration.redescribe_id] at hsame
  rw [hother, hsame]

/-- A wrapper becomes a struct or an alias of any value, and where its body becomes such a
declaration it is the same one. -/
theorem steady_of_wraps {wrapper body : Schema} (h : Wraps second.root wrapper body) {name : String}
    {rewrapped declared : Declaration}
    (hrewrapped : (expandSchema first name wrapper).outcome = .ok rewrapped)
    (hdeclared : (expandSchema second name body).outcome = .ok declared) :
    rewrapped.Steady ∧ (declared.Steady → rewrapped = declared) := by
  obtain ⟨resolved, fields, hresolve, hfields, hmade⟩ := expandSchema_cases hrewrapped
  obtain ⟨other, more, hother, hmore, hplain⟩ := expandSchema_cases hdeclared
  obtain ⟨result, hresult, hkin⟩ := h.follows_resolve hroots resolved hresolve
  cases hother.symm.trans hresult
  -- the fields are those of the resolved schemas, so they are the same
  have hsimulation := simulation_of_rewrapped hroots hname
  have hpaired := (hsimulation.alike hkin).properties
  obtain ⟨paired, hfound, hsame⟩ :=
    hsimulation.follows_expandFields hpaired (typeName name) resolved.required [] fields hfields
  rw [(hsimulation.alike hkin).required, hmore] at hfound
  cases hfound
  have hid : Field.redescribe id = id := rfl
  simp only [hid, List.map_id_fun, id_eq] at hsame
  subst hsame
  obtain ⟨moved, location, -, rfl⟩ := h.component
  rcases hmade with ⟨hsome, rfl⟩ | ⟨-, hvalues, -⟩ | ⟨rfl, -, inferred, hinferred, rfl⟩
  · rcases hplain with ⟨-, rfl⟩ | ⟨hnone, -⟩ | ⟨hnone, -⟩
    · exact ⟨.struct _, fun _ => rfl⟩
    · exact absurd hnone hsome
    · exact absurd hnone hsome
  · exact absurd rfl hvalues
  · -- the wrapper has neither alternatives nor a type
    have hany : inferred = ⟨.any, false⟩ := by
      rw [infer_of_noPair rfl fun _ _ => (List.cons_ne_nil _ _).symm] at hinferred
      exact (Except.ok.inj hinferred).symm
    subst hany
    refine ⟨.anyValue rfl, fun hsteady => ?_⟩
    rcases hplain with ⟨hsome, -⟩ | ⟨-, -, variants, -, rfl⟩ | ⟨-, -, inferred, -, rfl⟩
    · exact absurd rfl hsome
    · cases hsteady
    · cases hsteady with
      | anyValue htarget => rw [← htarget]

end

/-- The declarations before a definition, its own one, those after it and that of the root. -/
theorem exists_split_of_expandAll {document : Document} {before after : Entries Schema}
    {name : String} {schema : Schema}
    (hdefinitions : document.root.definitions = before ++ (name, schema) :: after)
    {declarations : List Declaration} (h : (expandAll document).outcome = .ok declarations) :
    ∃ earlier declared later roots,
      List.Forall₂ (DefinedAs document) before earlier ∧
      (expandSchema document name schema).outcome = .ok declared ∧
      List.Forall₂ (DefinedAs document) after later ∧
      List.Forall₂ (fun name declaration =>
        (expandSchema document name document.root).outcome = .ok declaration)
        document.rootName.toList roots ∧
      declarations = earlier ++ declared.describe schema.description :: (later ++ roots) := by
  obtain ⟨defined, roots, hdefined, hroots, rfl⟩ := expandAll_eq_ok_iff.mp h
  rw [hdefinitions] at hdefined
  obtain ⟨earlier, rest, rfl, hearlier, hrest⟩ := exists_of_forall₂_append hdefined
  obtain ⟨_, later, ⟨declared, hdeclared, rfl⟩, hlater, rfl⟩ := List.forall₂_cons_left_iff.mp hrest
  exact ⟨earlier, declared, later, roots, hearlier, hdeclared, hlater, hroots, by simp⟩

/-! ## Programs -/

section

variable {document : Document} {name : String} {wrapper body : Schema}
  (hbody : Entries.get? document.root.definitions name = some body)
  (hkeyed : document.root.Keyed) (hlone : document.root.LoneTable)
  (hwraps : Wraps document.root wrapper body)

include hkeyed hlone in
theorem below_self_of_holds {held : Schema} (hheld : document.root.Holds held) :
    Below document.root held held :=
  .refl (hlone.throughout hkeyed hheld)

include hbody hkeyed hlone hwraps

theorem rewrapped_redefine : Rewrapped (document.redefine name wrapper).root document.root := by
  have hself : Alike Eq document.root document.root := .refl (fun _ => rfl) _
  have hlike : Alike (Below document.root) document.root document.root := by
    refine hself.imp fun held hheld other heq => ?_
    subst heq
    exact below_self_of_holds hkeyed hlone hheld
  refine ⟨⟨rfl, rfl, hlike.properties, rfl, hlike.items, hlike.additional, hlike.allOf, hlike.anyOf,
    rfl, rfl⟩, rfl, ?_, hkeyed⟩
  obtain ⟨before, after, hdefinitions, hput⟩ := Entries.exists_put hbody
  have hothers : ∀ definition ∈ before ++ after,
      Rewritten document.root definition.2 definition.2 := by
    intro definition hmem
    have hheld : definition ∈ document.root.definitions := by
      rw [hdefinitions]
      rcases List.mem_append.mp hmem with hbefore | hafter
      · exact List.mem_append_left _ hbefore
      · exact List.mem_append_right _ (List.mem_cons_of_mem _ hafter)
    exact .below (below_self_of_holds hkeyed hlone (.definition hheld))
  simp only [List.forall_mem_append] at hothers
  have hroot : (document.redefine name wrapper).root.definitions
      = before ++ (name, wrapper) :: after := hput wrapper
  rw [hroot, hdefinitions]
  exact List.rel_append (List.forall₂_same.mpr fun _ hmem => ⟨rfl, hothers.1 _ hmem⟩)
    (.cons ⟨rfl, .wraps hwraps⟩ (List.forall₂_same.mpr fun _ hmem => ⟨rfl, hothers.2 _ hmem⟩))

/-- Definitions that stay become the same declarations. -/
theorem eq_of_definedAs {definitions : Entries Schema}
    (hmem : ∀ definition ∈ definitions, definition ∈ document.root.definitions)
    {declarations others : List Declaration}
    (h : List.Forall₂ (DefinedAs document) definitions declarations)
    (hothers : List.Forall₂ (DefinedAs (document.redefine name wrapper)) definitions others) :
    others = declarations := by
  have hsame : List.Forall₂ (DefinedAs document) definitions others := by
    refine forall₂_of_zip hothers ?_
    rintro definition _ hzip ⟨made, hmade, rfl⟩
    have hheld : document.root.Holds definition.2 :=
      .definition (hmem _ (List.of_mem_zip hzip).1)
    exact ⟨made, expandSchema_of_kin (rewrapped_redefine hbody hkeyed hlone hwraps) rfl
      (.below (below_self_of_holds hkeyed hlone hheld)) hmade, rfl⟩
  exact Except.ok.inj ((expandDefinitions_eq_ok_iff.mpr hsame).symm.trans
    (expandDefinitions_eq_ok_iff.mpr h))

/-- The definition of the name stands at one place in both documents, where the wrapper becomes a
struct or an alias of any value. If that is what the body becomes, all declarations are the same apart
from descriptions. -/
theorem exists_declared_of_redefine {declarations others : List Declaration}
    (h : (expandAll document).outcome = .ok declarations)
    (hothers : (expandAll (document.redefine name wrapper)).outcome = .ok others) :
    ∃ (index : Nat) (declared rewrapped : Declaration),
      (Entries.keys document.root.definitions)[index]? = some name ∧
      declarations[index]? = some declared ∧ others[index]? = some rewrapped ∧ rewrapped.Steady ∧
      (declared.Steady → others.map (Declaration.describe none)
        = declarations.map (Declaration.describe none)) := by
  have hroots := rewrapped_redefine hbody hkeyed hlone hwraps
  obtain ⟨before, after, hdefinitions, hput⟩ := Entries.exists_put hbody
  obtain ⟨earlier, declared, later, roots, hearlier, hdeclared, hlater, hmade, rfl⟩ :=
    exists_split_of_expandAll hdefinitions h
  obtain ⟨first, rewrapped, last, more, hfirst, hrewrapped, hlast, hremade, rfl⟩ :=
    exists_split_of_expandAll (hput wrapper) hothers
  -- all but the one declaration are the same in both documents
  have hbefore : first = earlier := by
    refine eq_of_definedAs hbody hkeyed hlone hwraps (fun _ hmem => ?_) hearlier hfirst
    rw [hdefinitions]
    exact List.mem_append_left _ hmem
  have hafter : last = later := by
    refine eq_of_definedAs hbody hkeyed hlone hwraps (fun _ hmem => ?_) hlater hlast
    rw [hdefinitions]
    exact List.mem_append_right _ (List.mem_cons_of_mem _ hmem)
  have hend : more = roots := by
    have hsame := hremade.imp fun _ _ => expandSchema_of_kin hroots rfl hroots.kin
    exact Except.ok.inj ((mapM_eq_ok.mpr hsame).symm.trans (mapM_eq_ok.mpr hmade))
  subst hbefore hafter hend
  obtain ⟨hsteady, hsame⟩ := steady_of_wraps hroots rfl hwraps hrewrapped hdeclared
  refine ⟨before.length, declared.describe body.description,
    rewrapped.describe wrapper.description, ?_, ?_, ?_,
    (Declaration.steady_describe_iff _ _).mpr hsteady, fun hkept => ?_⟩
  · simp [hdefinitions, Entries.keys]
  · simp [hearlier.length_eq]
  · simp [hearlier.length_eq]
  · obtain rfl := hsame ((Declaration.steady_describe_iff _ _).mp hkept)
    simp

/-- In the programs of the two documents, the definition keeps its declaration apart from the
description just when this is a struct or an alias of any value. -/
theorem exists_declared_of_expand_redefine {breaking : Bool} {program another : Program}
    (h : (document.expand breaking).outcome = .ok program)
    (hanother : ((document.redefine name wrapper).expand breaking).outcome = .ok another) :
    ∃ (index : Nat) (declared rewrapped : Declaration),
      (Entries.keys document.root.definitions)[index]? = some name ∧
      program.declarations[index]? = some declared ∧
      another.declarations[index]? = some rewrapped ∧
      (rewrapped.describe none = declared.describe none ↔ declared.Steady) := by
  obtain ⟨declarations, hall, -, hdeclarations⟩ := expand_eq_ok h
  obtain ⟨others, hothers, -, hotherDeclarations⟩ := expand_eq_ok hanother
  obtain ⟨index, plain, rewritten, hindex, hplain, hrewritten, hsteady, hsame⟩ :=
    exists_declared_of_redefine hbody hkeyed hlone hwraps hall hothers
  have hfinish : ∀ declarations : List Declaration,
      List.Forall₂ (fun before after => after.Steady ↔ before.Steady) declarations
        (if breaking then boxCycles declarations else declarations) := by
    intro declarations
    cases breaking with
    | false => exact List.forall₂_same.mpr fun _ _ => .rfl
    | true => exact forall₂_steady_boxCycles declarations
  obtain ⟨declared, hdeclared, hdeclaredSteady⟩ :=
    exists_getElem?_of_forall₂ (hfinish declarations) hplain
  obtain ⟨rewrapped, hrewrapped, hrewrappedSteady⟩ :=
    exists_getElem?_of_forall₂ (hfinish others) hrewritten
  rw [← hdeclarations] at hdeclared
  rw [← hotherDeclarations] at hrewrapped
  refine ⟨index, declared, rewrapped, hindex, hdeclared, hrewrapped, fun heq => ?_, fun hkept => ?_⟩
  · rw [← Declaration.steady_describe_iff none, ← heq, Declaration.steady_describe_iff]
    exact hrewrappedSteady.mpr hsteady
  · have hmap := hsame (hdeclaredSteady.mp hkept)
    have hprograms : another.declarations.map (Declaration.describe none)
        = program.declarations.map (Declaration.describe none) := by
      rw [hdeclarations, hotherDeclarations]
      cases breaking with
      | false => exact hmap
      | true =>
        rw [if_pos rfl, if_pos rfl, ← boxCycles_describe, ← boxCycles_describe, hmap]
    have hat := congrArg (·[index]?) hprograms
    simpa [hdeclared, hrewrapped] using hat

end

end Document

/-! ## Documents -/

namespace Schema

open Json

/-- The schema that has another one as its only component. -/
def onlyComponent (body : Json) : Json := .obj [("allOf", .arr [body])]

/-- Read wherever it stands, a schema around a body wraps what the body is read as. -/
theorem exists_wraps_onlyComponent {root schema : Schema} {body : Json} (hbody : ReadOf body schema)
    (hplain : Unreferring body) (hown : Throughout (OwnTable root) schema) (location : String) :
    ∃ wrapper, readAt location (onlyComponent body) = .ok wrapper ∧ Wraps root wrapper schema := by
  obtain ⟨place, hread⟩ := hbody
  obtain ⟨moved, hmoved, hrelocated⟩ :=
    (agree_relocated_readAt body place (location ++ "/allOf/0")).exists_ok hread
  refine ⟨{ allOf := [moved], location }, ?_, reference_of_readOf ⟨place, hread⟩ hplain, moved,
    location, ⟨hrelocated.symm, hown⟩, rfl⟩
  have hplace : location ++ "/" ++ "allOf" ++ "/" ++ toString 0 = location ++ "/allOf/0" := by
    rw [String.append_assoc, String.append_assoc, String.append_assoc]
    rfl
  have hallOf : readSchemaList "allOf" location [("allOf", .arr [body])] = .ok [moved] := by
    rw [readSchemaList_eq]
    simp only [Entries.get?_cons, if_true, Option.elim_some, readList, hplace, hmoved]
    rfl
  rw [onlyComponent, readAt_obj, hallOf]
  rfl

end Schema

namespace Document

open Schema Json

/-- Let the body of a definition, which has no reference of its own, be made the only component of
another schema in its place, and let no table of definitions below the root have the keys of the
root's table. Where both documents can be expanded, the definition stands at the same place of both
programs. It keeps its declaration apart from the description just when this is a struct or an alias
of any value. -/
theorem declared_onlyComponent_iff (rootName : Option String) (breaking : Bool)
    {members : Entries Json} {table name : String} {body : Json} {root other : Schema}
    {program another : Program} (hkeys : (Json.obj members).hasDistinctKeys = true)
    (htable : table ∈ Reference.tableNames) (hbody : definedIn members table name = some body)
    (hlast : table = "definitions" → definedIn members "$defs" name = none)
    (hplain : Unreferring body) (hread : Schema.read (.obj members) = .ok root)
    (hlone : root.LoneTable)
    (hother : Schema.read (.obj (putDefinition members table name (onlyComponent body))) = .ok other)
    (hprogram : (expand ⟨root, rootName⟩ breaking).outcome = .ok program)
    (hanother : (expand ⟨other, rootName⟩ breaking).outcome = .ok another) :
    ∃ (index : Nat) (declared rewrapped : Declaration),
      (Entries.keys root.definitions)[index]? = some name ∧
      program.declarations[index]? = some declared ∧
      another.declarations[index]? = some rewrapped ∧
      (rewrapped.describe none = declared.describe none ↔ declared.Steady) := by
  have hkeyed : root.Keyed := keyed_of_readOf hkeys ⟨"#", hread⟩
  obtain ⟨schema, hschema, hreadOf, hput⟩ :=
    exists_definition_of_readAt hkeys htable hbody hlast hread
  have hown : Throughout (OwnTable root) schema :=
    hlone.throughout hkeyed (.definition (Entries.mem_of_get?_eq_some hschema))
  obtain ⟨wrapper, hwrapper, hwraps⟩ :=
    exists_wraps_onlyComponent hreadOf hplain hown ("#" ++ "/" ++ table ++ "/" ++ name)
  obtain rfl := Except.ok.inj (hother.symm.trans (hput _ _ hwrapper))
  exact @exists_declared_of_expand_redefine ⟨root, rootName⟩ name wrapper schema hschema hkeyed hlone
    hwraps breaking program another hprogram hanother

/-- The schema of a point on a line. -/
def linePoint : Json := .obj [("properties", .obj [("x", .obj [("type", .str "integer")])])]

/-- A document that defines such points. -/
def linePoints : Entries Json := [("definitions", .obj [("point", linePoint)])]

/-- What is read from it. -/
def linePointsRoot : Schema where
  definitions := [("point", {
    properties := [("x", {
      types := [.integer]
      location := "#/definitions/point/properties/x" })]
    location := "#/definitions/point" })]

theorem loneTable_linePointsRoot : linePointsRoot.LoneTable := by
  intro held hheld
  cases hheld with
  | definition hmem =>
    cases List.mem_singleton.mp hmem
    refine .intro (by decide) fun hpoint => ?_
    cases hpoint with
    | property hmem =>
      cases List.mem_singleton.mp hmem
      exact .intro (by decide) fun hnone => by cases hnone <;> contradiction
    | _ => contradiction
  | _ => contradiction

theorem declared_onlyComponent_linePoint :
    ∃ other program another, Schema.read (.obj linePoints) = .ok linePointsRoot ∧
      Schema.read (.obj (putDefinition linePoints "definitions" "point" (onlyComponent linePoint)))
        = .ok other ∧
      (expand ⟨linePointsRoot, none⟩ true).outcome = .ok program ∧
      (expand ⟨other, none⟩ true).outcome = .ok another ∧
      ∃ declared rewrapped : Declaration, program.declarations = [declared] ∧
        another.declarations = [rewrapped] ∧ rewrapped.describe none = declared.describe none := by
  have hread : Schema.read (.obj linePoints) = .ok linePointsRoot := by cbv
  obtain ⟨other, program, another, declared, rewrapped, hother, hprogram, hanother, hdeclared,
      hrewrapped⟩ : ∃ other program another declared rewrapped,
      Schema.read (.obj (putDefinition linePoints "definitions" "point" (onlyComponent linePoint)))
        = .ok other ∧
      (expand ⟨linePointsRoot, none⟩ true).outcome = .ok program ∧
      (expand ⟨other, none⟩ true).outcome = .ok another ∧
      program.declarations = [.struct declared] ∧ another.declarations = [rewrapped] :=
    ⟨_, _, _, _, _, by cbv, by cbv, by cbv, rfl, rfl⟩
  have hplain : Unreferring linePoint := by
    rintro _ ⟨⟩
    rfl
  obtain ⟨index, first, second, hindex, hfirst, hsecond, hiff⟩ :=
    declared_onlyComponent_iff none true (by decide) (by decide) rfl (fun _ => rfl) hplain hread
      loneTable_linePointsRoot hother hprogram hanother
  refine ⟨other, program, another, hread, hother, hprogram, hanother, .struct declared, rewrapped,
    hdeclared, hrewrapped, ?_⟩
  obtain ⟨rfl, rfl⟩ : index = 0 ∧ .struct declared = first := by
    simpa [hdeclared, List.getElem?_singleton] using hfirst
  obtain rfl : rewrapped = second := by simpa [hrewrapped] using hsecond
  exact hiff.mpr (.struct declared)

/-- A text becomes an alias of texts, but as the only component of another schema one of any value. -/
theorem not_declared_onlyComponent_text :
    let text : Json := .obj [("type", .str "string")]
    let members : Entries Json := [("definitions", .obj [("a", text)])]
    let wrapped := putDefinition members "definitions" "a" (onlyComponent text)
    ∃ root other program another, Schema.read (.obj members) = .ok root ∧
      Schema.read (.obj wrapped) = .ok other ∧
      (expand ⟨root, none⟩ true).outcome = .ok program ∧
      (expand ⟨other, none⟩ true).outcome = .ok another ∧
      program.declarations.map (Declaration.describe none)
        ≠ another.declarations.map (Declaration.describe none) := by
  refine ⟨_, _, _, _, by cbv, by cbv, by cbv, by cbv, ?_⟩
  decide

/-- A document whose root is compared with itself, apart from a table that is written out again. -/
def sharedTable (body : Json) : Json :=
  let itself : Json := .obj [("$ref", .str "#")]
  let again : Json := .obj [("definitions", .obj [("foo", .obj [("allOf", .arr [itself])])])]
  .obj [
    ("definitions", .obj [("foo", body)]),
    ("properties", .obj [("p", .obj [("anyOf", .arr [itself, .obj [
      ("type", .str "array"),
      ("items", .obj [("allOf", .arr [again, itself])])]])])])]

/-- Where the table of the root is written out below it, even a struct need not stay as it is. -/
theorem not_declared_onlyComponent_sharedTable :
    let body : Json := .obj [("allOf", .arr [.obj [("$ref", .str "#")]])]
    ∃ root other program another, Schema.read (sharedTable body) = .ok root ∧
      Schema.read (sharedTable (onlyComponent body)) = .ok other ∧
      (expand ⟨root, some "root"⟩ true).outcome = .ok program ∧
      (expand ⟨other, some "root"⟩ true).outcome = .ok another ∧
      (∀ declaration ∈ program.declarations, declaration.Steady) ∧
      program.declarations.map (Declaration.describe none)
        ≠ another.declarations.map (Declaration.describe none) := by
  refine ⟨_, _, _, _, by cbv, by cbv, by cbv, by cbv, ?_, ?_⟩
  · simp [Declaration.Steady.struct]
  · decide

end Document

end SchemaForge

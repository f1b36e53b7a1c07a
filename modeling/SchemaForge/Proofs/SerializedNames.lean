import SchemaForge.Proofs.CommentLines
import SchemaForge.Proofs.Literals
import SchemaForge.Proofs.MemberNames
import SchemaForge.Proofs.SourceLines

/-! # Serialized names in source text

Which attribute stands in front of each field and each variant that is written. A member whose
identifier is not its serialized name has the attribute that tells this name right in front of it,
unless the name is empty: an empty name is taken for none.
-/

namespace SchemaForge

namespace Rust

/-- A line in front of a member that tells no serialized name: a comment, or the attribute of a
default value. -/
inductive FrontLine (line : String) : Prop
  | comment (h : CommentLine Style.indent line)
  | default (h : line = Style.indent ++ "#[serde(default)]")

/-- The attribute that tells a serialized name, in a literal that is read as that name. -/
def TellsName (name line : String) : Prop :=
  ∃ literal, line = Style.indent ++ "#[serde(rename = " ++ literal ++ ")]" ∧
    Literal.read? literal.toList = some (name.toList, [])

/-- The line that a member itself is written in: its identifier, and what cannot belong to it. -/
def DeclaresMember (opening identifier line : String) : Prop :=
  ∃ after, line = Style.indent ++ opening ++ identifier ++ after ∧
    ∃ c, after.toList.head? = some c ∧ isIdentifierChar c = false

/-- The lines of a member with a serialized name. Which names are told is for the relation between
the identifier and the name to say. -/
inductive MemberLines (told : String → String → Prop) (opening name : String) :
    List String → Prop
  | renamed {front : List String} {identifier rename line : String}
      (hfront : ∀ other ∈ front, FrontLine other) (hlegal : Legal identifier)
      (htold : told identifier name) (hrename : TellsName name rename)
      (hline : DeclaresMember opening identifier line) :
      MemberLines told opening name (front ++ [rename, line])
  | own {front : List String} {identifier line : String}
      (hfront : ∀ other ∈ front, FrontLine other) (hlegal : Legal identifier)
      (htold : ¬ told identifier name) (hline : DeclaresMember opening identifier line) :
      MemberLines told opening name (front ++ [line])

/-- A line that does not start the declaration it stands in front of. -/
def BeforeHead (line : String) : Prop := ¬ "pub ".toList <+: line.toList

/-- The lines of the declaration of a named schema. The members of a struct are serialized under
the keys of the resolved properties, those of an enum under the enumerated texts. -/
inductive MembersWritten (told : String → String → Prop) (root : Schema)
    (source : String × Schema) : List String → Prop
  | struct {resolved : Schema} {front : List String} {members : List (List String)}
      (hfront : ∀ line ∈ front, BeforeHead line)
      (hresolve : Schema.resolve root source.2 = .ok resolved)
      (hmembers : List.Forall₂ (MemberLines told "pub ") (Entries.keys resolved.properties)
        members) :
      MembersWritten told root source (front ++ ["pub struct " ++ typeName source.1 ++ " \x7b"]
        ++ members.flatten ++ ["\x7d"])
  | enum {texts : List String} {front : List String} {members : List (List String)}
      (hfront : ∀ line ∈ front, BeforeHead line)
      (htexts : Document.enumerated source.2 = texts.map Json.str)
      (hmembers : List.Forall₂ (MemberLines told "") texts members) :
      MembersWritten told root source (front ++ ["pub enum " ++ typeName source.1 ++ " \x7b"]
        ++ members.flatten ++ ["\x7d"])
  | typeAlias {front : List String} {target : String}
      (hfront : ∀ line ∈ front, BeforeHead line) :
      MembersWritten told root source
        (front ++ ["pub type " ++ typeName source.1 ++ " = " ++ target ++ ";"])

/-- A name that is told for every identifier is told. -/
theorem MemberLines.exists_tellsName {told : String → String → Prop} {opening name : String}
    {lines : List String} (h : MemberLines told opening name lines)
    (htold : ∀ identifier, Legal identifier → told identifier name) :
    ∃ line ∈ lines, TellsName name line := by
  cases h with
  | @renamed front _ rename line _ _ _ htells _ =>
    exact ⟨rename, List.mem_append_right front List.mem_cons_self, htells⟩
  | own _ hlegal hnot => exact absurd (htold _ hlegal) hnot

/-- A struct that is written tells each key that is told for every identifier. -/
theorem MembersWritten.exists_tellsName {told : String → String → Prop} {root resolved : Schema}
    {source : String × Schema} {lines : List String} (h : MembersWritten told root source lines)
    (hstruct : ∀ line ∈ lines, ¬ "pub enum ".toList <+: line.toList ∧
      ¬ "pub type ".toList <+: line.toList)
    (hresolve : Schema.resolve root source.2 = .ok resolved) {name : String}
    (hname : name ∈ Entries.keys resolved.properties)
    (htold : ∀ identifier, Legal identifier → told identifier name) :
    ∃ line ∈ lines, TellsName name line := by
  cases h with
  | struct _ hother hmembers =>
    obtain rfl := Except.ok.inj (hresolve.symm.trans hother)
    obtain ⟨member, hmember, hlines⟩ := exists_mem_right_of_forall₂ hmembers hname
    obtain ⟨line, hline, htells⟩ := hlines.exists_tellsName htold
    refine ⟨line, List.mem_append_left _ (List.mem_append_right _ ?_), htells⟩
    exact List.mem_flatten.mpr ⟨member, hmember, hline⟩
  | enum =>
    -- the lines are those of a struct, so no head of another kind is among them
    have hhead := (hstruct ("pub enum " ++ typeName source.1 ++ " \x7b") (by simp)).1
    rw [String.append_assoc, String.toList_append] at hhead
    exact absurd (List.prefix_append _ _) hhead
  | @typeAlias front target =>
    have hhead := (hstruct ("pub type " ++ typeName source.1 ++ " = " ++ target ++ ";")
      (List.mem_append_right front (List.mem_singleton_self _))).2
    rw [String.append_assoc, String.append_assoc, String.append_assoc, String.toList_append]
      at hhead
    exact absurd (List.prefix_append _ _) hhead

/-- The serialized names that are told: those that are not the identifier, unless they are
empty. -/
def ToldUnlessEmpty (identifier name : String) : Prop := identifier ≠ name ∧ name ≠ ""

/-! ## The lines of members -/

/-- A legal member that carries a name just where it is not that name itself. -/
theorem memberLines_of_legal {member : Identifier} {front : List String} {opening after : String}
    (hfront : ∀ other ∈ front, FrontLine other) (hlegal : Legal member.name)
    (hrename : member.rename = none ↔ member.name = member.serializedName)
    (hafter : ∃ c, after.toList.head? = some c ∧ isIdentifierChar c = false) :
    MemberLines ToldUnlessEmpty opening member.serializedName
      (front ++ Style.renameLines Style.indent member.rename
        ++ [Style.indent ++ opening ++ member.name ++ after]) := by
  have hline : DeclaresMember opening member.name
      (Style.indent ++ opening ++ member.name ++ after) := ⟨after, rfl, hafter⟩
  rcases Style.renameLines_cases Style.indent member.rename with ⟨hlines, hcarried⟩ |
    ⟨name, hcarried, hsome, hlines⟩
  · -- no attribute: the member carries no name, or the empty one
    rw [hlines, List.append_nil]
    refine .own hfront hlegal ?_ hline
    rintro ⟨hother, hsome⟩
    rcases hcarried with hnone | hempty
    · exact hother (hrename.mp hnone)
    · exact hsome (by rw [Identifier.serializedName, hempty, Option.getD_some])
  · have hname : member.serializedName = name := by
      rw [Identifier.serializedName, hcarried, Option.getD_some]
    rw [hlines, List.append_assoc, hname]
    refine .renamed hfront hlegal ⟨?_, hsome⟩ ⟨_, rfl, ?_⟩ hline
    · intro hsame
      have hnone := hrename.mpr (hsame.trans hname.symm)
      rw [hcarried] at hnone
      cases hnone
    · rw [String.toList_ofList]
      simpa using Literal.read?_encode_append name.toList []

theorem memberLines_of_fieldLines {style : Style} {field : Field} {lines : List String}
    (hlegal : Legal field.name)
    (hrename : field.rename = none ↔ field.name = field.identifier.serializedName)
    (h : style.fieldLines field = .ok lines) :
    MemberLines ToldUnlessEmpty "pub " field.identifier.serializedName lines := by
  obtain ⟨doc, hdoc, rfl⟩ := Style.fieldLines_eq_ok h
  have hfront : ∀ other ∈ doc ++ (if field.hasDefault
      then [Style.indent ++ "#[serde(default)]"] else []), FrontLine other := by
    intro other hother
    rcases List.mem_append.mp hother with hcomment | hdefault
    · exact .comment (commentLine_of_docLines hdoc other hcomment)
    · split at hdefault
      · exact .default (List.mem_singleton.mp hdefault)
      · exact absurd hdefault List.not_mem_nil
  have hlast : Style.indent ++ "pub " ++ field.name ++ ": " ++ style.typeText field.type ++ ","
      = Style.indent ++ "pub " ++ field.identifier.name
        ++ (": " ++ style.typeText field.type ++ ",") := by
    simp only [String.append_assoc]
    rfl
  rw [hlast]
  refine memberLines_of_legal hfront hlegal hrename ⟨':', ?_, by decide⟩
  rw [String.toList_append, String.toList_append]
  rfl

theorem memberLines_variantLines {variant : Variant} (hlegal : Legal variant.name)
    (hrename : variant.rename = none ↔ variant.name = variant.identifier.serializedName) :
    MemberLines ToldUnlessEmpty "" variant.identifier.serializedName
      (Style.variantLines variant) := by
  have hlast : Style.indent ++ variant.name ++ ","
      = Style.indent ++ "" ++ variant.identifier.name ++ "," := by
    rw [String.append_empty]
    rfl
  rw [Style.variantLines, hlast, ← List.nil_append (Style.renameLines _ _)]
  exact memberLines_of_legal (fun other hother => absurd hother List.not_mem_nil) hlegal hrename
    ⟨',', rfl, by decide⟩

/-! ## The lines of declarations -/

theorem beforeHead_of_head? {line : String} {c : Char} (h : line.toList.head? = some c)
    (hc : c ≠ 'p') : BeforeHead line := by
  rintro ⟨rest, hrest⟩
  rw [← hrest] at h
  exact hc (Option.some.inj h).symm

theorem beforeHead_of_commentLine {line : String} (h : CommentLine "" line) :
    BeforeHead line := by
  obtain ⟨rest, hrest, -⟩ := h
  exact beforeHead_of_head? (c := '/') (by rw [hrest]; rfl) (by decide)

theorem beforeHead_of_deriveLine {style : Style} {further : List String} {line : String}
    (h : style.deriveLine further = .ok line) : BeforeHead line := by
  obtain ⟨derives, -, h⟩ := bind_eq_ok.mp h
  cases h
  refine beforeHead_of_head? (c := '#') ?_ (by decide)
  rw [String.toList_append, String.toList_append]
  rfl

theorem beforeHead_of_renameLines {rename : Option String} {line : String}
    (h : line ∈ Style.renameLines "" rename) : BeforeHead line := by
  rcases Style.renameLines_cases "" rename with ⟨hnil, -⟩ | ⟨name, -, -, hlines⟩
  · rw [hnil] at h
    exact absurd h List.not_mem_nil
  · rw [hlines, List.mem_singleton] at h
    refine beforeHead_of_head? (c := '#') ?_ (by decide)
    rw [h, String.toList_append, String.toList_append, String.toList_append]
    rfl

theorem beforeHead_of_mem_front {style : Style} {further doc : List String} {derived : String}
    {description rename : Option String} (hderived : style.deriveLine further = .ok derived)
    (hdoc : style.docLines "" description = .ok doc) :
    ∀ line ∈ doc ++ [derived] ++ Style.renameLines "" rename, BeforeHead line := by
  intro line hline
  rcases List.mem_append.mp hline with hfront | hrename
  · rcases List.mem_append.mp hfront with hcomment | hlast
    · exact beforeHead_of_commentLine (commentLine_of_docLines hdoc line hcomment)
    · rw [List.mem_singleton.mp hlast]
      exact beforeHead_of_deriveLine hderived
  · exact beforeHead_of_renameLines hrename

/-- The members that are named for a schema are written with those names. -/
theorem membersWritten_of_declarationLines {style : Style} {root : Schema}
    {source : String × Schema} {declaration : Declaration} {lines : List String}
    (hname : declaration.name = typeName source.1)
    (hnamed : declaration.MembersNamed root source.2)
    (h : style.declarationLines declaration = .ok lines) :
    MembersWritten ToldUnlessEmpty root source lines := by
  cases declaration with
  | struct declared =>
    obtain ⟨resolved, hresolve, hfields⟩ := hnamed
    obtain ⟨written, derived, doc, hwritten, hderived, hdoc, rfl⟩ := Style.structLines_eq_ok h
    have hname : declared.name = typeName source.1 := hname
    rw [hname]
    refine .struct (beforeHead_of_mem_front hderived hdoc) hresolve ?_
    have hrules : ∀ field ∈ declared.fields, Legal field.name ∧
        (field.rename = none ↔ field.name = field.identifier.serializedName) := by
      intro field hfield
      have hmember := List.mem_map_of_mem (f := Field.identifier) hfield
      exact ⟨hfields.legal _ hmember, hfields.rename_eq_none_iff _ hmember⟩
    rw [← hfields.serializedNames, List.map_map, List.forall₂_map_left_iff]
    refine ((List.forall₂_and_left _ _).mpr ⟨hrules, mapM_eq_ok.mp hwritten⟩).imp ?_
    rintro field fieldLines ⟨⟨hlegal, hrename⟩, hlines⟩
    exact memberLines_of_fieldLines hlegal hrename hlines
  | enum declared =>
    obtain ⟨texts, htexts, hvariants⟩ := hnamed
    obtain ⟨derived, doc, hderived, hdoc, rfl⟩ := Style.enumLines_eq_ok h
    have hname : declared.name = typeName source.1 := hname
    rw [hname, List.flatMap_def]
    refine .enum (beforeHead_of_mem_front hderived hdoc) htexts ?_
    rw [← hvariants.serializedNames, List.map_map, List.forall₂_map_left_iff,
      List.forall₂_map_right_iff, List.forall₂_same]
    intro variant hvariant
    have hmember := List.mem_map_of_mem (f := Variant.identifier) hvariant
    exact memberLines_variantLines (hvariants.legal _ hmember)
      (hvariants.rename_eq_none_iff _ hmember)
  | typeAlias declared =>
    obtain ⟨doc, hdoc, rfl⟩ := Style.aliasLines_eq_ok h
    have hname : declared.name = typeName source.1 := hname
    rw [hname]
    exact .typeAlias fun line hline =>
      beforeHead_of_commentLine (commentLine_of_docLines hdoc line hline)

end Rust

namespace Request

open Rust

/-- In a source text of a request, every field and every variant stands with its serialized name:
the declarations of the named schemas follow the opening sections, in order. -/
def KeepsNames (told : String → String → Prop) (request : Request) (text : String) : Prop :=
  ∃ root program blocks, Schema.read request.document = .ok root ∧
    request.analyze.outcome = .ok program ∧
    program.declarations.mapM request.settings.style.declarationLines = .ok blocks ∧
    text = Style.sourceText (request.settings.style.opening program.needsOneOrMany ++ blocks) ∧
    List.Forall₂ (MembersWritten told root) (Document.sources ⟨root, request.rootName⟩) blocks

/-- Source text that no formatter changes tells every serialized name that is not the identifier
and not empty, and no other. -/
theorem keepsNames_of_generate {request : Request} {session : Formatter.Session}
    {formatter : FormatterSettings} {text : String}
    (hget : request.settings.formatter.get "enabled" = .ok formatter)
    (hoff : formatter.enabled.isOn = false)
    (h : (request.generate session).1.outcome = .ok text) :
    request.KeepsNames ToldUnlessEmpty text := by
  rw [outcome_generate hget hoff] at h
  obtain ⟨program, blocks, hanalyze, hblocks, htext⟩ := write_eq_ok.mp h
  obtain ⟨root, hroot, hexpand⟩ := analyze_eq_ok.mp hanalyze
  refine ⟨root, program, blocks, hroot, hanalyze, hblocks, htext, ?_⟩
  have hnamed : List.Forall₂ (fun source declaration =>
        declaration.name = typeName source.1 ∧ declaration.MembersNamed root source.2)
      (Document.sources ⟨root, request.rootName⟩) program.declarations := by
    refine Document.forall₂_of_expand ?_ ?_ ?_ hexpand
    · exact fun _ _ hschema => Document.membersNamed_of_expandSchema hschema
    · rintro source declaration description ⟨hname, hmembers⟩
      exact ⟨(Declaration.name_describe description _).trans hname, hmembers.describe description⟩
    · rintro edges source declaration ⟨hname, hmembers⟩
      exact ⟨(Declaration.name_mapSlots _ _).trans hname, hmembers.mapSlots _⟩
  refine forall₂_trans ?_ hnamed (mapM_eq_ok.mp hblocks)
  rintro source declaration lines ⟨hname, hmembers⟩ hlines
  exact membersWritten_of_declarationLines hname hmembers hlines

/-- A request for a struct with a keyword and with quotation marks among its keys, and for an enum
with a backslash, with nothing and with braces and slashes for its texts. -/
def tagsAndWays : Request where
  document := .obj [("definitions", .obj [
    ("tag", .obj [
      ("properties", .obj [
        ("type", .obj [
          ("type", .str "string"), ("description", .str "Its \"\x7bkind\"")]),
        ("say \"hi\"", .obj [("type", .str "string")]),
        ("note", .obj [("type", .str "string")])]),
      ("required", .arr [.str "type"])]),
    ("way", .obj [("enum", .arr [.str "in\\out", .str "", .str "\x7d//"])])])]

/-- The document that is read from it. -/
def tagsAndWaysDocument : Document where
  root := {
    definitions := [
      ("tag", {
        properties := [
          ("type", {
            types := [.string]
            description := some "Its \"\x7bkind\""
            location := "#/definitions/tag/properties/type" }),
          ("say \"hi\"", {
            types := [.string], location := "#/definitions/tag/properties/say \"hi\"" }),
          ("note", { types := [.string], location := "#/definitions/tag/properties/note" })]
        required := ["type"]
        location := "#/definitions/tag" }),
      ("way", {
        enumeration := some [.str "in\\out", .str "", .str "\x7d//"]
        location := "#/definitions/way" })]
    location := "#" }

/-- The program that is made of it. -/
def tagsAndWaysProgram : Program where
  rootName := none
  declarations := [
    .struct {
      name := "Tag"
      sourceName := "tag"
      fields := [
        { name := "type_", sourceName := "type", type := .primitive "String",
          rename := some "type", description := some "Its \"\x7bkind\"" },
        { name := "say_hi", sourceName := "say \"hi\"", type := .optional (.primitive "String"),
          rename := some "say \"hi\"" },
        { name := "note", sourceName := "note", type := .optional (.primitive "String") }]
      rename := some "tag" },
    .enum {
      name := "Way"
      sourceName := "way"
      variants := [⟨"InOut", some "in\\out"⟩, ⟨"Empty", some ""⟩, ⟨"Empty2", some "\x7d//"⟩]
      rename := some "way" }]
  needsOneOrMany := false

/-- The lines of its declarations. -/
def tagsAndWaysLines : List (List String) := [
  ["#[derive(Clone, PartialEq, Debug, Deserialize, Serialize)]",
    "#[serde(rename = \"tag\")]",
    "pub struct Tag \x7b",
    "    /// Its \"\x7bkind\"",
    "    #[serde(rename = \"type\")]",
    "    pub type_: String,",
    "    #[serde(rename = \"say \\\"hi\\\"\")]",
    "    pub say_hi: Option<String>,",
    "    pub note: Option<String>,",
    "\x7d"],
  ["#[derive(Clone, PartialEq, Debug, Deserialize, Serialize)]",
    "#[serde(rename = \"way\")]",
    "pub enum Way \x7b",
    "    #[serde(rename = \"in\\\\out\")]",
    "    InOut,",
    "    Empty,",
    "    #[serde(rename = \"\x7d//\")]",
    "    Empty2,",
    "\x7d"]]

/-- The source text for it. -/
def tagsAndWaysText : String :=
  Style.sourceText ([Style.announcement, Style.serdeImport] ++ tagsAndWaysLines)

theorem analyze_tagsAndWays : tagsAndWays.analyze.outcome = .ok tagsAndWaysProgram := by
  have hread : Schema.read tagsAndWays.document = .ok tagsAndWaysDocument.root := by cbv
  have hexpand : (tagsAndWaysDocument.expand true).outcome = .ok tagsAndWaysProgram := by cbv
  exact analyze_eq_ok.mpr ⟨_, hread, hexpand⟩

theorem generate_tagsAndWays : (tagsAndWays.generate {}).1.outcome = .ok tagsAndWaysText := by
  have hblocks : tagsAndWaysProgram.declarations.mapM tagsAndWays.settings.style.declarationLines
      = .ok tagsAndWaysLines := by cbv
  have hget : tagsAndWays.settings.formatter.get "enabled" = .ok {} := rfl
  rw [outcome_generate hget rfl]
  exact write_eq_ok.mpr ⟨_, _, analyze_tagsAndWays, hblocks, rfl⟩

theorem keepsNames_tagsAndWays :
    (tagsAndWays.generate {}).1.outcome = .ok tagsAndWaysText ∧
      tagsAndWays.KeepsNames ToldUnlessEmpty tagsAndWaysText := by
  have hget : tagsAndWays.settings.formatter.get "enabled" = .ok {} := rfl
  exact ⟨generate_tagsAndWays, keepsNames_of_generate hget rfl generate_tagsAndWays⟩

/-- A request for a struct whose property has the empty key. -/
def namelessField : Request where
  document := .obj [("definitions", .obj [
    ("a", .obj [("properties", .obj [("", .obj [("type", .str "string")])])])])]

/-- The definition that is read from it. -/
def namelessStruct : Schema where
  properties := [("", { types := [.string], location := "#/definitions/a/properties/" })]
  location := "#/definitions/a"

/-- The document that is read. -/
def namelessDocument : Document where
  root := { definitions := [("a", namelessStruct)], location := "#" }

/-- The program that is made of it. -/
def namelessProgram : Program where
  rootName := none
  declarations := [.struct {
    name := "A"
    sourceName := "a"
    fields := [{ name := "field", type := .optional (.primitive "String"), rename := some "" }]
    isDefault := true
    rename := some "a" }]
  needsOneOrMany := false

/-- The lines of its declaration. -/
def namelessLines : List String :=
  ["#[derive(Clone, PartialEq, Debug, Default, Deserialize, Serialize)]", "#[serde(rename = \"a\")]",
    "pub struct A \x7b", "    pub field: Option<String>,", "\x7d"]

/-- The source text for it. -/
def namelessFieldText : String :=
  Style.sourceText [Style.announcement, Style.serdeImport, namelessLines]

theorem read_namelessField : Schema.read namelessField.document = .ok namelessDocument.root := by
  cbv

theorem analyze_namelessField : namelessField.analyze.outcome = .ok namelessProgram := by
  have hexpand : (namelessDocument.expand true).outcome = .ok namelessProgram := by cbv
  exact analyze_eq_ok.mpr ⟨_, read_namelessField, hexpand⟩

/-- An identifier may differ from the serialized name without an attribute that tells this. -/
theorem not_keepsNames_namelessField :
    (namelessField.generate {}).1.outcome = .ok namelessFieldText ∧
      ¬ namelessField.KeepsNames (fun identifier name => identifier ≠ name) namelessFieldText := by
  have hblocks : namelessProgram.declarations.mapM namelessField.settings.style.declarationLines
      = .ok [namelessLines] := by cbv
  constructor
  · have hget : namelessField.settings.formatter.get "enabled" = .ok {} := rfl
    rw [outcome_generate hget rfl]
    exact write_eq_ok.mpr ⟨_, _, analyze_namelessField, hblocks, rfl⟩
  · rintro ⟨root, program, blocks, hroot, hprogram, hlines, -, hwritten⟩
    obtain rfl : namelessDocument.root = root :=
      Except.ok.inj (read_namelessField.symm.trans hroot)
    obtain rfl : namelessProgram = program :=
      Except.ok.inj (analyze_namelessField.symm.trans hprogram)
    obtain rfl : [namelessLines] = blocks := Except.ok.inj (hblocks.symm.trans hlines)
    have hresolve : Schema.resolve namelessDocument.root namelessStruct = .ok namelessStruct := by
      cbv
    have hstruct : ∀ line ∈ namelessLines, ¬ "pub enum ".toList <+: line.toList ∧
        ¬ "pub type ".toList <+: line.toList := by decide
    have hkey : "" ∈ Entries.keys namelessStruct.properties := List.mem_cons_self
    -- no identifier is empty, so the key would have to be told
    have htold : ∀ identifier, Legal identifier → identifier ≠ "" := by
      rintro identifier hlegal rfl
      exact absurd hlegal (by decide)
    obtain ⟨line, hline, literal, rfl, -⟩ :=
      (List.forall₂_cons.mp hwritten).1.exists_tellsName hstruct hresolve hkey htold
    have hnone : ∀ line ∈ namelessLines, ¬ Style.indent.toList ++ ['#'] <+: line.toList := by
      decide
    refine hnone _ hline ?_
    simp only [String.toList_append, List.append_assoc]
    exact (List.prefix_append_right_inj _).mpr ⟨_, rfl⟩

end Request

end SchemaForge

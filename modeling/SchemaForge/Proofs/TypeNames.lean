import SchemaForge.Proofs.DeclaredNames
import SchemaForge.Proofs.Identifiers

/-! # Names of types

A declaration is named for the words of its name in the document alone, so names of other spellings
may become one type name, or the name of a type that every program uses. The main statement says
exactly for which names of a document the declared names differ from each other and from those of
the built-in types.
-/

namespace SchemaForge

open Text

namespace Rust

/-- The names that generated source uses for types it does not declare. -/
def builtInNames : List String := ["String", "Option", "Vec", "Box", "OneOrMany"]

/-- The words are not spelled as a type name themselves, and the second text is the type name that
is spelled for them: the stand-in for no words, or the mark in front of a leading digit. -/
def SpelledAs (words spelling : List Char) : Prop :=
  words = [] ∧ spelling = "Unnamed".toList ∨
    words.head?.any isDigit = true ∧ spelling = 'T' :: words

/-- Two names of a document have the same words, or one has the words that are spelled for the
other. -/
def Clash (first second : String) : Prop :=
  pascalCase first.toList = pascalCase second.toList ∨
    SpelledAs (pascalCase first.toList) (pascalCase second.toList) ∨
    SpelledAs (pascalCase second.toList) (pascalCase first.toList)

/-! ## How words are spelled -/

/-- The words of a name as they are spelled in a type name, keywords not avoided yet. -/
def typeSpelling (words : List Char) : List Char :=
  match words with
  | [] => "Unnamed".toList
  | c :: rest => if isDigit c then 'T' :: c :: rest else c :: rest

theorem typeSpelling_of_digit {c : Char} (hdigit : isDigit c = true) (rest : List Char) :
    typeSpelling (c :: rest) = 'T' :: c :: rest := if_pos hdigit

theorem typeSpelling_of_not_digit {c : Char} (hdigit : isDigit c = false) (rest : List Char) :
    typeSpelling (c :: rest) = c :: rest := if_neg (Bool.eq_false_iff.mp hdigit)

theorem typeName_eq (raw : String) :
    typeName raw = avoidKeyword (String.ofList (typeSpelling (pascalCase raw.toList))) := by
  unfold typeName legalise typeSpelling
  cases pascalCase raw.toList with
  | nil => rfl
  | cons c rest => rfl

theorem typeSpelling_cases (words : List Char) :
    typeSpelling words = words ∧ words.head?.any isDigit = false ∧ words ≠ [] ∨
      SpelledAs words (typeSpelling words) := by
  cases words with
  | nil => exact Or.inr (Or.inl ⟨rfl, rfl⟩)
  | cons c rest =>
    cases hdigit : isDigit c with
    | true => exact Or.inr (Or.inr ⟨hdigit, typeSpelling_of_digit hdigit rest⟩)
    | false =>
      exact Or.inl ⟨typeSpelling_of_not_digit hdigit rest, hdigit, List.cons_ne_nil _ _⟩

theorem SpelledAs.eq_typeSpelling {words spelling : List Char} (h : SpelledAs words spelling) :
    spelling = typeSpelling words := by
  rcases h with ⟨rfl, rfl⟩ | ⟨hdigit, rfl⟩
  · rfl
  · cases words with
    | nil => cases hdigit
    | cons c rest =>
      exact (typeSpelling_of_digit hdigit rest).symm

/-- A spelled text starts with a letter, so it is spelled as it is. -/
theorem SpelledAs.typeSpelling_eq {words spelling : List Char} (h : SpelledAs words spelling) :
    typeSpelling spelling = spelling := by
  rcases h with ⟨-, rfl⟩ | ⟨-, rfl⟩
  · decide
  · exact typeSpelling_of_not_digit (by decide) words

theorem SpelledAs.unique {first second spelling : List Char} (hfirst : SpelledAs first spelling)
    (hsecond : SpelledAs second spelling) : first = second := by
  rcases hfirst with ⟨rfl, rfl⟩ | ⟨hdigit, rfl⟩
  · rcases hsecond with ⟨rfl, -⟩ | ⟨-, heq⟩
    · rfl
    · exact absurd (List.cons.inj heq).1 (by decide)
  · rcases hsecond with ⟨-, heq⟩ | ⟨-, heq⟩
    · exact absurd (List.cons.inj heq).1 (by decide)
    · exact (List.cons.inj heq).2

/-- Words that are spelled alike are the same, or one of them is how the other is spelled. -/
theorem typeSpelling_eq_iff (first second : List Char) :
    typeSpelling first = typeSpelling second
      ↔ first = second ∨ SpelledAs first second ∨ SpelledAs second first := by
  constructor
  · intro h
    rcases typeSpelling_cases first with ⟨hfirst, -⟩ | hfirst
    · rcases typeSpelling_cases second with ⟨hsecond, -⟩ | hsecond
      · exact Or.inl (hfirst.symm.trans (h.trans hsecond))
      · rw [← h, hfirst] at hsecond
        exact Or.inr (Or.inr hsecond)
    · rcases typeSpelling_cases second with ⟨hsecond, -⟩ | hsecond
      · rw [h, hsecond] at hfirst
        exact Or.inr (Or.inl hfirst)
      · rw [h] at hfirst
        exact Or.inl (hfirst.unique hsecond)
  · rintro (rfl | hspelled | hspelled)
    · rfl
    · rw [hspelled.typeSpelling_eq, hspelled.eq_typeSpelling]
    · rw [hspelled.typeSpelling_eq, hspelled.eq_typeSpelling]

theorem isWordChar_of_mem_typeSpelling {text : List Char} {c : Char}
    (h : c ∈ typeSpelling (pascalCase text)) : isWordChar c = true := by
  rcases typeSpelling_cases (pascalCase text) with ⟨hsame, -⟩ | ⟨-, heq⟩ | ⟨-, heq⟩
  · exact isWordChar_of_mem_pascalCase (hsame ▸ h)
  · have hunnamed : "Unnamed".toList.all isWordChar = true := by decide
    rw [heq] at h
    exact List.all_eq_true.mp hunnamed c h
  · rw [heq] at h
    rcases List.mem_cons.mp h with rfl | hword
    · decide
    · exact isWordChar_of_mem_pascalCase hword

/-! ## Type names -/

/-- Avoiding keywords tells names without underscores apart as they are. -/
theorem avoidKeyword_injOn {first second : List Char}
    (hfirst : ∀ c ∈ first, isWordChar c = true) (hsecond : ∀ c ∈ second, isWordChar c = true)
    (h : avoidKeyword (String.ofList first) = avoidKeyword (String.ofList second)) :
    first = second := by
  have hmark : ∀ word : List Char, (∀ c ∈ word, isWordChar c = true) → '_' ∉ word :=
    fun word hword hmem => absurd (hword '_' hmem) (by decide)
  have hlist := congrArg String.toList h
  rw [avoidKeyword_eq, avoidKeyword_eq] at hlist
  split at hlist <;> split at hlist <;>
    simp only [String.toList_append, String.toList_ofList] at hlist
  · exact List.append_cancel_right hlist
  · exact absurd (hlist ▸ List.mem_append_right _ List.mem_cons_self) (hmark second hsecond)
  · exact absurd (hlist.symm ▸ List.mem_append_right _ List.mem_cons_self) (hmark first hfirst)
  · exact hlist

/-- Two names of a document become one type name just when they clash. -/
theorem typeName_eq_iff (first second : String) :
    typeName first = typeName second ↔ Clash first second := by
  rw [Clash, ← typeSpelling_eq_iff, typeName_eq, typeName_eq]
  constructor
  · exact avoidKeyword_injOn (fun _ => isWordChar_of_mem_typeSpelling)
      (fun _ => isWordChar_of_mem_typeSpelling)
  · intro h
    rw [h]

/-- The names of the built-in types are spelled as they are: they have no underscore, they are no
keywords, and none of them is a stand-in or starts with the mark of a digit. -/
theorem spelling_of_mem_builtInNames :
    ∀ name ∈ builtInNames, name ∉ keywords ∧ '_' ∉ name.toList ∧ name ≠ "Unnamed" ∧
      name.toList.head? ≠ some 'T' ∧ typeSpelling name.toList = name.toList := by
  decide

/-- A name of a document becomes the name of a built-in type just when it has its words. -/
theorem typeName_mem_builtInNames_iff (raw : String) :
    typeName raw ∈ builtInNames ↔ String.ofList (pascalCase raw.toList) ∈ builtInNames := by
  rw [typeName_eq, avoidKeyword_eq]
  constructor
  · intro h
    obtain ⟨-, hmark, hstandIn, hdigitMark, -⟩ := spelling_of_mem_builtInNames _ h
    split at h
    · rename_i hkeyword
      rw [if_pos hkeyword, String.toList_append] at hmark
      exact absurd (List.mem_append_right _ List.mem_cons_self) hmark
    · rename_i hkeyword
      rw [if_neg hkeyword] at hstandIn hdigitMark
      rcases typeSpelling_cases (pascalCase raw.toList) with ⟨heq, -⟩ | ⟨-, heq⟩ | ⟨-, heq⟩
      · rwa [heq] at h
      · rw [heq, String.ofList_toList] at hstandIn
        exact absurd rfl hstandIn
      · rw [heq, String.toList_ofList] at hdigitMark
        exact absurd rfl hdigitMark
  · intro h
    obtain ⟨hkeyword, -, -, -, hspelling⟩ := spelling_of_mem_builtInNames _ h
    rw [String.toList_ofList] at hspelling
    rwa [hspelling, if_neg hkeyword]

end Rust

namespace Document

open Rust

/-- Expansion names each declaration for its named schema, and breaking cycles keeps the names. -/
theorem map_name_of_expand {document : Document} {breaking : Bool} {program : Program}
    (h : (document.expand breaking).outcome = .ok program) :
    program.declarations.map Declaration.name
      = document.sources.map fun source => typeName source.1 := by
  obtain ⟨declarations, hall, -, hprogram⟩ := expand_eq_ok h
  have hboxed : program.declarations.map Declaration.name
      = declarations.map Declaration.name := by
    rw [hprogram]
    cases breaking with
    | false => rfl
    | true =>
      have hviews := congrArg (List.map Prod.fst)
        (map_name_mentions_boxFirst (closingEdges declarations) [] declarations)
      rw [List.map_map, List.map_map] at hviews
      exact hviews
  have hnames : List.Forall₂ (fun source declaration => typeName source.1 = declaration.name)
      document.sources declarations :=
    (forall₂_declarationOf_of_expandAll hall).imp fun _ _ hof => hof.name.symm
  rw [hboxed, eq_comm, ← List.forall₂_eq_eq_eq, List.forall₂_map_left_iff,
    List.forall₂_map_right_iff]
  exact hnames

/-- The declared names of a program differ from each other and from those of the built-in types
just when no two of the names in the document clash and none has the words of a built-in type. -/
theorem nodup_names_iff_of_expand {document : Document} {breaking : Bool} {program : Program}
    (h : (document.expand breaking).outcome = .ok program) :
    ((program.declarations.map Declaration.name).Nodup ∧
        ∀ declaration ∈ program.declarations, declaration.name ∉ builtInNames)
      ↔ document.sources.Pairwise (fun first second => ¬ Clash first.1 second.1) ∧
        ∀ source ∈ document.sources,
          String.ofList (pascalCase source.1.toList) ∉ builtInNames := by
  have hnames := map_name_of_expand h
  have hbuiltIn : (∀ declaration ∈ program.declarations, declaration.name ∉ builtInNames)
      ↔ ∀ source ∈ document.sources, typeName source.1 ∉ builtInNames := by
    rw [← List.forall_mem_map (f := Declaration.name) (P := fun name => name ∉ builtInNames),
      hnames, List.forall_mem_map]
  rw [hbuiltIn, hnames, List.nodup_iff_pairwise_ne, List.pairwise_map]
  simp only [ne_eq, typeName_eq_iff, typeName_mem_builtInNames_iff]

/-- A list under a name that starts with a digit, and its items under one that starts with the mark
of a digit. -/
def pointList : Document where
  root := {
    definitions := [
      ("3d_points", {
        types := [.array]
        items := [{ reference := some "#/definitions/t3_point" }] }),
      ("t3_point", { types := [.number] })] }

/-- The program for them. -/
def pointListProgram : Program where
  rootName := none
  declarations := [
    .typeAlias { name := "T3DPoints", sourceName := "3d_points", target := .array (.named "T3Point") },
    .typeAlias { name := "T3Point", sourceName := "t3_point", target := .primitive "f64" }]
  needsOneOrMany := false

theorem nodup_names_iff_pointList :
    (pointList.expand true).outcome = .ok pointListProgram ∧
      (((pointListProgram.declarations.map Declaration.name).Nodup ∧
          ∀ declaration ∈ pointListProgram.declarations, declaration.name ∉ builtInNames)
        ↔ pointList.sources.Pairwise (fun first second => ¬ Clash first.1 second.1) ∧
          ∀ source ∈ pointList.sources,
            String.ofList (pascalCase source.1.toList) ∉ builtInNames) := by
  have hexpand : (pointList.expand true).outcome = .ok pointListProgram := by cbv
  exact ⟨hexpand, nodup_names_iff_of_expand hexpand⟩

/-- The text of a document with two spellings of the same words and with a name that has the word
of a built-in type. -/
def namesakesText : Json :=
  .obj [("definitions", .obj [
    ("foo_bar", .obj [("type", .str "integer")]),
    ("FooBar", .obj [("type", .str "boolean")]),
    ("string", .obj [("type", .str "number")])])]

/-- The document that is read from it. -/
def namesakes : Document where
  root := {
    definitions := [
      ("foo_bar", { types := [.integer], location := "#/definitions/foo_bar" }),
      ("FooBar", { types := [.boolean], location := "#/definitions/FooBar" }),
      ("string", { types := [.number], location := "#/definitions/string" })] }

/-- The program that is made of it. -/
def namesakesProgram : Program where
  rootName := none
  declarations := [
    .typeAlias { name := "FooBar", sourceName := "foo_bar", target := .primitive "i64" },
    .typeAlias { name := "FooBar", sourceName := "FooBar", target := .primitive "bool" },
    .typeAlias { name := "String", sourceName := "string", target := .primitive "f64" }]
  needsOneOrMany := false

/-- Expansion may succeed although two declarations have the same name, and although one has the
name of a built-in type. -/
theorem not_nodup_names_namesakes :
    Schema.read namesakesText = .ok namesakes.root ∧
      (namesakes.expand true).outcome = .ok namesakesProgram ∧
      ¬ (namesakesProgram.declarations.map Declaration.name).Nodup ∧
      ∃ declaration ∈ namesakesProgram.declarations, declaration.name ∈ builtInNames := by
  refine ⟨by cbv, by cbv, by decide, ?_⟩
  exact ⟨_, List.mem_cons_of_mem _ (List.mem_cons_of_mem _ List.mem_cons_self), by decide⟩

end Document

end SchemaForge

import SchemaForge.Proofs.Visits
import SchemaForge.Rust.AliasCycle

/-! # Alias loops

An alias expands into the aliases that its target mentions, under whatever containers. The check
refuses declarations just when an alias expands into itself, and it tells such a loop.
-/

namespace SchemaForge.Rust

/-- The name stands somewhere in the type, under any containers. -/
inductive Ty.Mentions (name : String) : Ty → Prop
  | named : Mentions name (.named name)
  | array {item : Ty} (h : Mentions name item) : Mentions name (.array item)
  | map {value : Ty} (h : Mentions name value) : Mentions name (.map value)
  | optional {content : Ty} (h : Mentions name content) : Mentions name (.optional content)
  | boxed {content : Ty} (h : Mentions name content) : Mentions name (.boxed content)
  | oneOrMany {item : Ty} (h : Mentions name item) : Mentions name (.oneOrMany item)

theorem Ty.mem_mentions_iff {type : Ty} {name : String} :
    name ∈ type.mentions ↔ type.Mentions name := by
  constructor
  · intro h
    induction type with
    | primitive other => exact absurd h List.not_mem_nil
    | any => exact absurd h List.not_mem_nil
    | named other =>
      rw [List.mem_singleton.mp h]
      exact .named
    | array item ih => exact .array (ih h)
    | map value ih => exact .map (ih h)
    | optional content ih => exact .optional (ih h)
    | boxed content ih => exact .boxed (ih h)
    | oneOrMany item ih => exact .oneOrMany (ih h)
  · intro h
    induction h with
    | named => exact List.mem_singleton_self name
    | array _ ih => exact ih
    | map _ ih => exact ih
    | optional _ ih => exact ih
    | boxed _ ih => exact ih
    | oneOrMany _ ih => exact ih

/-- The first alias of a name. -/
def alias? (declarations : List Declaration) (name : String) : Option TypeAlias :=
  (aliases declarations).find? fun synonym => synonym.name = name

/-- The first alias of a name mentions another name, and that is the name of an alias as well. -/
def Expands (declarations : List Declaration) (name other : String) : Prop :=
  ∃ synonym, alias? declarations name = some synonym ∧ synonym.target.Mentions other ∧
    (alias? declarations other).isSome

theorem mem_nodes_mentionGraph (declarations : List Declaration) (name : String) :
    name ∈ (mentionGraph (aliases declarations)).nodes ↔ (alias? declarations name).isSome := by
  simp [mentionGraph, alias?, List.mem_eraseDups]

theorem successors_mentionGraph (declarations : List Declaration) (name : String) :
    (mentionGraph (aliases declarations)).successors name
      = (alias? declarations name).elim [] fun synonym => synonym.target.mentions := by
  simp only [mentionGraph, alias?]
  cases (aliases declarations).find? fun synonym => synonym.name = name <;> rfl

/-- The edges of the graph of mentions are expansions. -/
theorem adjacent_mentionGraph (declarations : List Declaration) :
    (mentionGraph (aliases declarations)).Adjacent = Expands declarations := by
  funext name other
  rw [Graph.Adjacent, mem_nodes_mentionGraph, mem_nodes_mentionGraph, Expands, eq_iff_iff,
    successors_mentionGraph]
  cases alias? declarations name with
  | none => simp
  | some synonym =>
    simp only [Option.isSome_some, Option.elim_some, true_and, Ty.mem_mentions_iff,
      Option.some.injEq, exists_eq_left']
    exact and_comm

/-- Aliases pass the check when no walk along mentions meets a closing edge. -/
theorem checkAliases_eq_ok_iff (declarations : List Declaration) :
    checkAliases declarations = .ok ()
      ↔ ∀ name, ¬ Relation.TransGen (Expands declarations) name name := by
  rw [← adjacent_mentionGraph, ← Graph.closings_eq_nil_iff, checkAliases]
  cases (mentionGraph (aliases declarations)).closings <;> simp

/-- The check refuses declarations just when an alias expands into itself, directly or through
others. What it tells then is a loop of expansions through aliases that are all different. -/
theorem checkAliases_refuses_loops (declarations : List Declaration) :
    ((∃ error, checkAliases declarations = .error error)
        ↔ ∃ name, Relation.TransGen (Expands declarations) name name) ∧
      ∀ error, checkAliases declarations = .error error →
        ∃ name others, error = .recursiveAlias (name :: others ++ [name]) ∧
          (name :: others).Nodup ∧
          (name :: others ++ [name]).IsChain (Expands declarations) := by
  constructor
  · have hpass := checkAliases_eq_ok_iff declarations
    cases hcheck : checkAliases declarations with
    | ok value => simpa [hcheck] using hpass
    | error error => simpa [hcheck] using hpass
  · intro error herror
    rw [checkAliases] at herror
    split at herror
    · cases herror
    · rename_i closing rest hclosings
      cases herror
      obtain ⟨others, hcycle, hnodup, hchain⟩ :=
        Graph.cycle_of_mem_closings (hclosings ▸ List.mem_cons_self)
      rw [adjacent_mentionGraph, hcycle] at hchain
      exact ⟨closing.target, others, by rw [hcycle], hnodup, hchain⟩

/-- Containers do not end a loop of aliases. -/
example : checkAliases [
    .typeAlias { name := "Branch", target := .array (.named "Twig") },
    .typeAlias { name := "Twig", target := .map (.boxed (.named "Branch")) }]
      = .error (.recursiveAlias ["Branch", "Twig", "Branch"]) := by
  cbv

end SchemaForge.Rust

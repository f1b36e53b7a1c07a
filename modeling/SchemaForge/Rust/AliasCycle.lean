import SchemaForge.Error
import SchemaForge.Rust.Declaration
import SchemaForge.Walk

/-! # Alias cycles

Aliases are expanded wherever they are used, so an alias that mentions itself through aliases
alone, under whatever containers, has no expansion. A struct or an enum in the loop ends it.
-/

namespace SchemaForge.Rust

/-- The aliases among declarations. -/
def aliases (declarations : List Declaration) : List TypeAlias :=
  declarations.filterMap fun declaration =>
    match declaration with
    | .typeAlias declared => some declared
    | .struct _ | .enum _ => none

/-- The graph of mentions between aliases. Of several aliases of one name the first counts. -/
def mentionGraph (declared : List TypeAlias) : Graph where
  nodes := (declared.map TypeAlias.name).eraseDups
  successors name :=
    match declared.find? fun synonym => synonym.name = name with
    | some synonym => synonym.target.mentions
    | none => []

/-- Refuses declarations whose aliases mention each other in a loop, telling the first loop that a
walk completes. -/
def checkAliases (declarations : List Declaration) : Except Error Unit :=
  match (mentionGraph (aliases declarations)).closings with
  | [] => .ok ()
  | closing :: _ => .error (.recursiveAlias closing.cycle)

end SchemaForge.Rust

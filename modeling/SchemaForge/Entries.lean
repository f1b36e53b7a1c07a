/-! # Ordered entries

A list of keyed values in the order in which the keys were first put. Putting a key again
replaces its value and keeps its place, so the order of a document survives every update.
-/

namespace SchemaForge

/-- Keyed values in the order of their first appearance. -/
abbrev Entries (α : Type) := List (String × α)

namespace Entries

variable {α : Type}

/-- The keys, in order. -/
def keys (entries : Entries α) : List String :=
  entries.map Prod.fst

/-- The value under a key. -/
def get? (entries : Entries α) (key : String) : Option α :=
  match entries with
  | [] => none
  | (other, value) :: rest => if key = other then some value else get? rest key

/-- Sets the value under a key, in its old place or else at the end. -/
def put (entries : Entries α) (key : String) (value : α) : Entries α :=
  match entries with
  | [] => [(key, value)]
  | (other, old) :: rest =>
    if other = key then (key, value) :: rest else (other, old) :: put rest key value

/-- Puts every entry in turn. -/
def putAll (entries added : Entries α) : Entries α :=
  added.foldl (fun done entry => put done entry.1 entry.2) entries

/-- Entries whose repeated keys are folded into their first place with their last value. -/
def ofList (listed : List (String × α)) : Entries α :=
  putAll [] listed

/-- No key appears twice. -/
def Distinct (entries : Entries α) : Prop :=
  entries.keys.Nodup

@[simp] theorem get?_nil (key : String) : get? ([] : Entries α) key = none := rfl

theorem get?_cons (key other : String) (value : α) (rest : Entries α) :
    get? ((other, value) :: rest) key = if key = other then some value else get? rest key := rfl

/-- Reading the key that was just put. -/
theorem get?_put_self (entries : Entries α) (key : String) (value : α) :
    (entries.put key value).get? key = some value := by
  induction entries with
  | nil => simp [put, get?_cons]
  | cons entry rest ih =>
    obtain ⟨other, old⟩ := entry
    by_cases h : other = key
    · simp [put, h, get?_cons]
    · simp [put, h, get?_cons, Ne.symm h, ih]

/-- Reading any other key is unaffected by a put. -/
theorem get?_put_ne (entries : Entries α) {key asked : String} (value : α) (h : asked ≠ key) :
    (entries.put key value).get? asked = entries.get? asked := by
  induction entries with
  | nil => simp [put, get?_cons, h]
  | cons entry rest ih =>
    obtain ⟨other, old⟩ := entry
    by_cases hk : other = key
    · subst hk
      simp [put, get?_cons, h]
    · simp [put, hk, get?_cons, ih]

/-- A put adds its key at the end unless the key is there already. -/
theorem keys_put (entries : Entries α) (key : String) (value : α) :
    (entries.put key value).keys =
      if key ∈ entries.keys then entries.keys else entries.keys ++ [key] := by
  induction entries with
  | nil => simp [put, keys]
  | cons entry rest ih =>
    obtain ⟨other, old⟩ := entry
    by_cases h : other = key
    · subst h
      simp [put, keys]
    · simp only [keys] at ih
      by_cases hr : key ∈ rest.map Prod.fst
      · simp [put, keys, h, Ne.symm h, ih, hr]
      · simp [put, keys, h, Ne.symm h, ih, hr]

end Entries

end SchemaForge

import Mathlib.Data.List.Forall2
import SchemaForge.Entries

/-! # Lookups, paired lists and sequences

General facts that the theory of schemas and declarations rests on: how a lookup goes through lists
of entries that were joined or filtered, how members of paired lists find their partners, and when a
sequence of steps has a value.
-/

namespace SchemaForge

namespace Entries

variable {α : Type}

/-- Looking a key up in two lists of entries falls back to the second. -/
theorem get?_append (entries more : Entries α) (key : String) :
    get? (entries ++ more) key = (get? entries key).or (get? more key) := by
  induction entries with
  | nil => rfl
  | cons entry rest ih =>
    obtain ⟨other, value⟩ := entry
    rw [List.cons_append, get?_cons, get?_cons]
    by_cases hkey : key = other
    · rw [if_pos hkey, if_pos hkey, Option.some_or]
    · rw [if_neg hkey, if_neg hkey, ih]

/-- A key without a value is none of the keys. -/
theorem get?_eq_none_iff (entries : Entries α) (key : String) :
    get? entries key = none ↔ key ∉ entries.keys := by
  induction entries with
  | nil => simp [keys]
  | cons entry rest ih =>
    obtain ⟨other, value⟩ := entry
    rw [get?_cons]
    by_cases hkey : key = other
    · simp [hkey, keys]
    · rw [if_neg hkey, ih]
      simp [hkey, keys]

/-- The value under a key is one of the entries. -/
theorem mem_of_get?_eq_some {entries : Entries α} {key : String} {value : α}
    (h : get? entries key = some value) : (key, value) ∈ entries := by
  induction entries with
  | nil => cases h
  | cons entry rest ih =>
    obtain ⟨other, held⟩ := entry
    rw [get?_cons] at h
    by_cases hkey : key = other
    · rw [if_pos hkey, Option.some.injEq] at h
      rw [hkey, h]
      exact List.mem_cons_self
    · rw [if_neg hkey] at h
      exact List.mem_cons_of_mem _ (ih h)

/-- Where keys are distinct, every entry is found by its key. -/
theorem get?_eq_some_iff_mem {entries : Entries α} (h : entries.Distinct) {key : String}
    {value : α} : get? entries key = some value ↔ (key, value) ∈ entries := by
  refine ⟨mem_of_get?_eq_some, fun hmem => ?_⟩
  induction entries with
  | nil => exact absurd hmem List.not_mem_nil
  | cons entry rest ih =>
    obtain ⟨other, held⟩ := entry
    rw [Distinct, keys, List.map_cons, List.nodup_cons] at h
    rw [get?_cons]
    rcases List.mem_cons.mp hmem with heq | hrest
    · cases heq
      exact if_pos rfl
    · have hne : key ≠ other := fun heq => h.1 (List.mem_map.mpr ⟨_, hrest, heq⟩)
      rw [if_neg hne]
      exact ih h.2 hrest

/-- The order of entries with distinct keys makes no difference to what is found. -/
theorem get?_eq_of_perm {entries others : Entries α} (hdistinct : entries.Distinct)
    (h : entries.Perm others) (key : String) : get? others key = get? entries key := by
  have hothers : others.Distinct := (h.map Prod.fst).nodup_iff.mp hdistinct
  apply Option.ext
  intro value
  rw [get?_eq_some_iff_mem hothers, get?_eq_some_iff_mem hdistinct, h.mem_iff]

/-- Dropping entries by their keys keeps the value of every key that stays. -/
theorem get?_filter_keys (entries : Entries α) (keep : String → Bool) (key : String) :
    get? (entries.filter fun entry => keep entry.1) key
      = if keep key then get? entries key else none := by
  induction entries with
  | nil => simp
  | cons entry rest ih =>
    obtain ⟨other, value⟩ := entry
    rw [List.filter_cons, get?_cons]
    by_cases hkey : key = other
    · subst hkey
      by_cases hkeep : keep key
      · simp [hkeep, get?_cons]
      · simp [hkeep, ih]
    · by_cases hkeep : keep other
      · simp [hkeep, get?_cons, hkey, ih]
      · simp [hkeep, hkey, ih]

/-- A function that skips entries up to the first one under a key depends on its value alone. -/
theorem eq_elim_get? {β : Type} (f : Entries α → β) {key : String} {found : α → β}
    (h : ∀ other value rest,
      f ((other, value) :: rest) = if other = key then found value else f rest)
    (entries : Entries α) : f entries = (get? entries key).elim (f []) found := by
  induction entries with
  | nil => rfl
  | cons entry rest ih =>
    obtain ⟨other, value⟩ := entry
    rw [h, get?_cons, ih]
    by_cases hkey : key = other
    · rw [if_pos hkey, if_pos hkey.symm, Option.elim_some]
    · rw [if_neg hkey, if_neg (Ne.symm hkey)]

theorem mem_put {entries : Entries α} {key : String} {value : α} {entry : String × α}
    (h : entry ∈ put entries key value) : entry ∈ entries ∨ entry = (key, value) := by
  induction entries with
  | nil => exact Or.inr (List.mem_singleton.mp h)
  | cons first rest ih =>
    obtain ⟨other, held⟩ := first
    rw [put] at h
    split at h
    · rcases List.mem_cons.mp h with rfl | hrest
      · exact Or.inr rfl
      · exact Or.inl (List.mem_cons_of_mem _ hrest)
    · rcases List.mem_cons.mp h with rfl | hrest
      · exact Or.inl List.mem_cons_self
      · exact (ih hrest).imp_left (List.mem_cons_of_mem _)

/-- Entries that were put together come from either side. -/
theorem mem_putAll {entries added : Entries α} {entry : String × α}
    (h : entry ∈ putAll entries added) : entry ∈ entries ∨ entry ∈ added := by
  induction added generalizing entries with
  | nil => exact Or.inl h
  | cons first rest ih =>
    rcases ih h with hput | hrest
    · rcases mem_put hput with hold | rfl
      · exact Or.inl hold
      · exact Or.inr List.mem_cons_self
    · exact Or.inr (List.mem_cons_of_mem _ hrest)

theorem Distinct.put {entries : Entries α} (h : entries.Distinct) (key : String) (value : α) :
    (entries.put key value).Distinct := by
  rw [Distinct, keys_put]
  split
  · exact h
  · rename_i hnew
    rw [List.nodup_append]
    refine ⟨h, List.pairwise_singleton _ key, ?_⟩
    rintro other hother _ hkey rfl
    exact hnew (List.mem_singleton.mp hkey ▸ hother)

theorem Distinct.putAll {entries : Entries α} (h : entries.Distinct) (added : Entries α) :
    (entries.putAll added).Distinct := by
  induction added generalizing entries with
  | nil => exact h
  | cons entry rest ih => exact ih (h.put entry.1 entry.2)

/-! ### Replaced values -/

theorem put_put_self (entries : Entries α) (key : String) (value other : α) :
    (entries.put key value).put key other = entries.put key other := by
  induction entries with
  | nil => simp [put]
  | cons entry rest ih =>
    obtain ⟨own, held⟩ := entry
    by_cases hkey : own = key
    · simp [put, hkey]
    · simp [put, hkey, ih]

/-- A value that replaces another one may be put before or after the value of another key. -/
theorem put_comm {entries : Entries α} {key another : String} (hmem : key ∈ entries.keys)
    (hne : another ≠ key) (value other : α) :
    (entries.put key value).put another other = (entries.put another other).put key value := by
  induction entries with
  | nil => exact absurd hmem List.not_mem_nil
  | cons entry rest ih =>
    obtain ⟨own, held⟩ := entry
    by_cases hkey : own = key
    · subst hkey
      simp [put, Ne.symm hne]
    · have hrest : key ∈ keys rest := by simpa [keys, Ne.symm hkey] using hmem
      by_cases hanother : own = another
      · subst hanother
        simp [put, hkey]
      · simp [put, hkey, hanother, ih hrest]

/-- A value is replaced in its place by what is put under its key. -/
theorem exists_put {entries : Entries α} {key : String} {value : α}
    (h : entries.get? key = some value) : ∃ before after,
      entries = before ++ (key, value) :: after ∧
        ∀ other, entries.put key other = before ++ (key, other) :: after := by
  induction entries with
  | nil => cases h
  | cons entry rest ih =>
    obtain ⟨own, held⟩ := entry
    rw [get?_cons] at h
    by_cases hkey : key = own
    · rw [if_pos hkey] at h
      cases h
      subst hkey
      exact ⟨[], rest, rfl, fun other => if_pos rfl⟩
    · rw [if_neg hkey] at h
      obtain ⟨before, after, rfl, hput⟩ := ih h
      refine ⟨(own, held) :: before, after, rfl, fun other => ?_⟩
      rw [put, if_neg (Ne.symm hkey), hput]
      rfl

theorem mem_keys_of_get?_eq_some {entries : Entries α} {key : String} {value : α}
    (h : entries.get? key = some value) : key ∈ entries.keys :=
  List.mem_map_of_mem (mem_of_get?_eq_some h)

/-- What is put together keeps the values of keys that are not added. -/
theorem get?_putAll_of_notMem (entries : Entries α) {added : Entries α} {key : String}
    (h : key ∉ added.keys) : (entries.putAll added).get? key = entries.get? key := by
  induction added generalizing entries with
  | nil => rfl
  | cons entry rest ih =>
    rw [keys, List.map_cons, List.mem_cons, not_or] at h
    exact (ih _ h.2).trans (get?_put_ne _ _ h.1)

/-- A value that is not replaced by others may be replaced before or after they are put. -/
theorem putAll_put {entries added : Entries α} {key : String} (hmem : key ∈ entries.keys)
    (h : key ∉ added.keys) (value : α) :
    (entries.put key value).putAll added = (entries.putAll added).put key value := by
  induction added generalizing entries with
  | nil => rfl
  | cons entry rest ih =>
    rw [keys, List.map_cons, List.mem_cons, not_or] at h
    have hput : key ∈ (entries.put entry.1 entry.2).keys := by
      rw [keys_put]
      split
      · exact hmem
      · exact List.mem_append_left _ hmem
    rw [putAll, List.foldl_cons, put_comm hmem (Ne.symm h.1)]
    exact ih hput h.2

/-- Replacing an added value replaces it in what is put together. -/
theorem putAll_put_added {entries added : Entries α} (hdistinct : added.Distinct) {key : String}
    (h : key ∈ added.keys) (value : α) :
    entries.putAll (added.put key value) = (entries.putAll added).put key value := by
  induction added generalizing entries with
  | nil => exact absurd h List.not_mem_nil
  | cons entry rest ih =>
    obtain ⟨own, held⟩ := entry
    rw [Distinct, keys, List.map_cons, List.nodup_cons] at hdistinct
    by_cases hkey : own = key
    · subst hkey
      have hown : own ∈ (entries.put own held).keys :=
        mem_keys_of_get?_eq_some (get?_put_self entries own held)
      rw [put, if_pos rfl, putAll, List.foldl_cons, ← put_put_self entries own held]
      exact putAll_put hown hdistinct.1 value
    · have hrest : key ∈ keys rest := by simpa [keys, Ne.symm hkey] using h
      rw [put, if_neg hkey]
      exact ih hdistinct.2 hrest

theorem get?_putAll_of_distinct {entries added : Entries α} (hdistinct : added.Distinct)
    {key : String} {value : α} (h : added.get? key = some value) :
    (entries.putAll added).get? key = some value := by
  induction added generalizing entries with
  | nil => cases h
  | cons entry rest ih =>
    obtain ⟨own, held⟩ := entry
    rw [Distinct, keys, List.map_cons, List.nodup_cons] at hdistinct
    rw [get?_cons] at h
    by_cases hkey : key = own
    · rw [if_pos hkey] at h
      cases h
      subst hkey
      exact (get?_putAll_of_notMem _ hdistinct.1).trans (get?_put_self _ _ _)
    · rw [if_neg hkey] at h
      exact ih hdistinct.2 h

/-! ### Paired entries -/

/-- In entries with the same keys and paired values, the values under a key are paired. -/
theorem rel_get? {β : Type} {R : α → β → Prop} {entries : Entries α} {others : Entries β}
    (h : List.Forall₂ (fun entry other => entry.1 = other.1 ∧ R entry.2 other.2) entries others)
    (key : String) : Option.Rel R (get? entries key) (get? others key) := by
  induction h with
  | nil => exact .none
  | @cons entry other _ _ hentry _ ih =>
    obtain ⟨own, value⟩ := entry
    obtain ⟨another, paired⟩ := other
    obtain ⟨rfl, hvalue⟩ := hentry
    rw [get?_cons, get?_cons]
    split
    · exact .some hvalue
    · exact ih

theorem keys_eq_of_forall₂ {β : Type} {R : α → β → Prop} {entries : Entries α}
    {others : Entries β}
    (h : List.Forall₂ (fun entry other => entry.1 = other.1 ∧ R entry.2 other.2) entries others) :
    entries.keys = others.keys := by
  rw [keys, keys, ← List.forall₂_eq_eq_eq, List.forall₂_map_left_iff, List.forall₂_map_right_iff]
  exact h.imp fun _ _ hentry => hentry.1

/-- Putting paired values under one key keeps entries paired. -/
theorem forall₂_put {β : Type} {R : α → β → Prop} {entries : Entries α} {others : Entries β}
    (h : List.Forall₂ (fun entry other => entry.1 = other.1 ∧ R entry.2 other.2) entries others)
    {key : String} {value : α} {paired : β} (hvalue : R value paired) :
    List.Forall₂ (fun entry other => entry.1 = other.1 ∧ R entry.2 other.2)
      (put entries key value) (put others key paired) := by
  induction h with
  | nil => exact List.Forall₂.cons ⟨rfl, hvalue⟩ List.Forall₂.nil
  | @cons entry other rest more hentry hrest ih =>
    obtain ⟨own, held⟩ := entry
    obtain ⟨another, pairedHeld⟩ := other
    obtain ⟨rfl, hheld⟩ := hentry
    rw [put, put]
    split
    · exact List.Forall₂.cons ⟨rfl, hvalue⟩ hrest
    · exact List.Forall₂.cons ⟨rfl, hheld⟩ ih

theorem forall₂_putAll {β : Type} {R : α → β → Prop} {entries added : Entries α} {others more : Entries β}
    (h : List.Forall₂ (fun entry other => entry.1 = other.1 ∧ R entry.2 other.2) entries others)
    (hadded : List.Forall₂ (fun entry other => entry.1 = other.1 ∧ R entry.2 other.2) added more) :
    List.Forall₂ (fun entry other => entry.1 = other.1 ∧ R entry.2 other.2)
      (putAll entries added) (putAll others more) := by
  induction hadded generalizing entries others with
  | nil => exact h
  | @cons entry other _ _ hentry _ ih =>
    obtain ⟨key, value⟩ := entry
    obtain ⟨another, paired⟩ := other
    obtain ⟨rfl, hvalue⟩ := hentry
    exact ih (forall₂_put h hvalue)

end Entries

section Paired

variable {α β : Type} {R : α → β → Prop} {as : List α} {bs : List β}

/-- In paired lists, each member of the second has a partner in the first. -/
theorem exists_mem_left_of_forall₂ (h : List.Forall₂ R as bs) {b : β} (hb : b ∈ bs) :
    ∃ a ∈ as, R a b := by
  induction h with
  | nil => exact absurd hb List.not_mem_nil
  | cons hrel _ ih =>
    rcases List.mem_cons.mp hb with rfl | hrest
    · exact ⟨_, List.mem_cons_self, hrel⟩
    · obtain ⟨a, ha, hab⟩ := ih hrest
      exact ⟨a, List.mem_cons_of_mem _ ha, hab⟩

/-- In paired lists, each member of the first has a partner in the second. -/
theorem exists_mem_right_of_forall₂ (h : List.Forall₂ R as bs) {a : α} (ha : a ∈ as) :
    ∃ b ∈ bs, R a b :=
  exists_mem_left_of_forall₂ (List.Forall₂.flip (R := flip R) h) ha

/-- In paired lists, what stands at an index of the first has a partner there in the second. -/
theorem exists_getElem?_of_forall₂ (h : List.Forall₂ R as bs) {index : Nat} {a : α}
    (ha : as[index]? = some a) : ∃ b, bs[index]? = some b ∧ R a b := by
  induction h generalizing index with
  | nil => cases ha
  | cons hrel _ ih =>
    cases index with
    | zero =>
      cases ha
      exact ⟨_, rfl, hrel⟩
    | succ index => exact ih ha

/-- Paired lists that share one list are paired across it. -/
theorem forall₂_trans {γ : Type} {S : β → γ → Prop} {T : α → γ → Prop} {cs : List γ}
    (htrans : ∀ a b c, R a b → S b c → T a c) (h : List.Forall₂ R as bs)
    (hmore : List.Forall₂ S bs cs) : List.Forall₂ T as cs := by
  induction h generalizing cs with
  | nil =>
    cases hmore
    exact List.Forall₂.nil
  | cons hfirst _ ih =>
    cases hmore with
    | cons hsecond hrest => exact List.Forall₂.cons (htrans _ _ _ hfirst hsecond) (ih hrest)

/-- Paired lists are paired by any relation that their partners have. -/
theorem forall₂_of_zip {S : α → β → Prop} (h : List.Forall₂ R as bs)
    (hzip : ∀ a b, (a, b) ∈ as.zip bs → R a b → S a b) : List.Forall₂ S as bs := by
  obtain ⟨hlength, hrel⟩ := List.forall₂_iff_zip.mp h
  exact List.forall₂_iff_zip.mpr ⟨hlength, fun hmem => hzip _ _ hmem (hrel hmem)⟩

/-- Two lists paired with a third are the same when each pairing leaves no choice. -/
theorem eq_of_forall₂ {cs : List β} (h : List.Forall₂ (fun a b => ∀ c, R a c → b = c) as bs)
    (hother : List.Forall₂ R as cs) : bs = cs := by
  induction h generalizing cs with
  | nil =>
    cases hother
    rfl
  | cons hunique _ ih =>
    cases hother with
    | cons hfirst hrest => rw [hunique _ hfirst, ih hrest]

end Paired

/-- Where no two members of a list have the same image, each is found by its image alone. -/
theorem filter_eq_singleton {α β : Type} [DecidableEq β] {f : α → β} {as : List α}
    (h : (as.map f).Nodup) {a : α} (ha : a ∈ as) :
    (as.filter fun other => f other = f a) = [a] := by
  induction as with
  | nil => exact absurd ha List.not_mem_nil
  | cons first rest ih =>
    rw [List.map_cons, List.nodup_cons] at h
    rcases List.mem_cons.mp ha with rfl | hrest
    · have hnone : (rest.filter fun other => f other = f a) = [] := by
        rw [List.filter_eq_nil_iff]
        intro other hother heq
        exact h.1 (List.mem_map.mpr ⟨other, hother, by simpa using heq⟩)
      rw [List.filter_cons_of_pos (by simp), hnone]
    · have hne : f first ≠ f a := fun heq => h.1 (List.mem_map.mpr ⟨a, hrest, heq.symm⟩)
      rw [List.filter_cons_of_neg (by simpa using hne), ih h.2 hrest]

/-- Distinct members are told apart, so any list beside them is told by a function of them. -/
theorem exists_map_eq {α β : Type} [DecidableEq α] [Inhabited β] {as : List α} {bs : List β}
    (hnodup : as.Nodup) (hlength : as.length = bs.length) : ∃ f : α → β, bs = as.map f := by
  induction as generalizing bs with
  | nil => exact ⟨fun _ => default, List.length_eq_zero_iff.mp hlength.symm⟩
  | cons a rest ih =>
    obtain ⟨b, more, rfl⟩ := List.exists_cons_of_length_eq_add_one hlength.symm
    rw [List.nodup_cons] at hnodup
    obtain ⟨f, rfl⟩ := ih hnodup.2 (Nat.succ.inj hlength)
    refine ⟨Function.update f a b, ?_⟩
    rw [List.map_cons, Function.update_self]
    congr 1
    apply List.map_congr_left
    intro other hother
    have hne : other ≠ a := fun heq => hnodup.1 (heq ▸ hother)
    rw [Function.update_of_ne hne]

/-- A sequence has a value when both of its parts have one. -/
theorem bind_eq_ok {ε α β : Type} {first : Except ε α} {next : α → Except ε β} {value : β} :
    (first >>= next) = .ok value ↔ ∃ middle, first = .ok middle ∧ next middle = .ok value := by
  cases first with
  | error error => simp [bind, Except.bind]
  | ok middle => simp [bind, Except.bind]

theorem map_eq_ok {ε α β : Type} {outcome : Except ε α} {change : α → β} {value : β} :
    outcome.map change = .ok value ↔ ∃ middle, outcome = .ok middle ∧ change middle = value := by
  cases outcome <;> simp [Except.map]

/-- Telling an error otherwise changes nothing about values. -/
theorem mapError_eq_ok {ε ε' α : Type} {outcome : Except ε α} {tell : ε → ε'} {value : α} :
    outcome.mapError tell = .ok value ↔ outcome = .ok value := by
  cases outcome <;> simp [Except.mapError]

/-- Steps for the members of a list have values when each has one, and these are paired with the
members. -/
theorem mapM_eq_ok {ε α β : Type} {step : α → Except ε β} {as : List α} {bs : List β} :
    as.mapM step = .ok bs ↔ List.Forall₂ (fun a b => step a = .ok b) as bs := by
  induction as generalizing bs with
  | nil => cases bs <;> simp [pure, Except.pure]
  | cons a rest ih =>
    simp only [List.mapM_cons, bind_eq_ok, ih, List.forall₂_cons_left_iff]
    constructor
    · rintro ⟨b, hfirst, more, hrest, h⟩
      cases h
      exact ⟨b, more, hfirst, hrest, rfl⟩
    · rintro ⟨b, more, hfirst, hrest, rfl⟩
      exact ⟨b, hfirst, more, hrest, rfl⟩

/-- Steps that each have a value have values for a whole list. -/
theorem exists_mapM_eq_ok {ε α β : Type} {step : α → Except ε β} {as : List α}
    (h : ∀ a ∈ as, ∃ b, step a = .ok b) : ∃ bs, as.mapM step = .ok bs := by
  simp only [mapM_eq_ok]
  induction as with
  | nil => exact ⟨[], List.Forall₂.nil⟩
  | cons a rest ih =>
    rw [List.forall_mem_cons] at h
    obtain ⟨⟨b, hfirst⟩, hmore⟩ := h
    obtain ⟨more, hrest⟩ := ih hmore
    exact ⟨b :: more, List.Forall₂.cons hfirst hrest⟩

end SchemaForge

import Mathlib.Data.List.Induction
import Mathlib.Data.List.Sort
import Mathlib.Data.Set.Card
import OrderedAtomics.Bench.Gathering
import OrderedAtomics.Text.NameSet

/-
  What results hold.  A table is sorted by name, so that what is listed in it under a name is what
  stands there (`get?_eq_some_iff`); putting a value in keeps it sorted and changes this one name
  (`get?_insert`).  Results are tables of tables: they have as many values as there are groups and
  variants in them (`size_eq_ncard`), and are known by what they hold (`eq_of_holds_iff`).  Results
  from measurements collect them: they hold one of the measurements for every group and variant that
  has any, and nothing else (`collects_resultsOf`).
-/
namespace OrderedAtomics.Bench

/-! ## Tables -/

namespace Table

variable {β : Type} {name x : String} {b : β} {t : Table β}

/-- The names of a table increase. -/
def Sorted (t : Table β) : Prop := (t.map Prod.fst).Pairwise (· < ·)

theorem get?_insert : get? x (insert name b t) = if x = name then some b else get? x t := by
  induction t with
  | nil => rfl
  | cons e t ih =>
    rw [insert]
    split
    · rfl
    · split
      · next heq =>
        rw [get?, get?, heq]
        split <;> rfl
      · next hne =>
        rw [get?, get?, ih]
        split
        · next hx => rw [if_neg (hx ▸ Ne.symm hne)]
        · rfl

theorem mem_insert {e : String × β} (h : e ∈ insert name b t) : e = (name, b) ∨ e ∈ t := by
  induction t with
  | nil => exact .inl (List.mem_singleton.mp h)
  | cons first t ih =>
    rw [insert] at h
    split at h
    · exact List.mem_cons.mp h
    · split at h
      · next heq =>
        rcases List.mem_cons.mp h with h | h
        · exact .inl (heq ▸ h)
        · exact .inr (List.mem_cons_of_mem _ h)
      · rcases List.mem_cons.mp h with h | h
        · exact .inr (h ▸ List.mem_cons_self)
        · exact (ih h).imp id (List.mem_cons_of_mem _)

theorem map_fst_insert :
    (insert name b t).map Prod.fst = Text.NameSet.insert name (t.map Prod.fst) := by
  induction t with
  | nil => rfl
  | cons e t ih =>
    rw [insert, List.map_cons, Text.NameSet.insert]
    split
    · rfl
    · split
      · rfl
      · rw [List.map_cons, ih]

theorem sorted_insert (h : Sorted t) : Sorted (insert name b t) := by
  rw [Sorted, map_fst_insert]
  exact Text.NameSet.pairwise_insert h

theorem insert_ne_nil : insert name b t ≠ [] := by
  have hname : name ∈ (insert name b t).map Prod.fst := by
    rw [map_fst_insert]
    exact Text.NameSet.mem_insert.mpr (.inl rfl)
  intro h
  rw [h] at hname
  cases hname

/-- What is listed under a name is what stands there. -/
theorem get?_eq_some_iff (h : Sorted t) : get? name t = some b ↔ (name, b) ∈ t := by
  induction t with
  | nil => exact iff_of_false nofun List.not_mem_nil
  | cons first t ih =>
    obtain ⟨hfirst, ht⟩ := List.pairwise_cons.mp h
    rw [get?, List.mem_cons]
    split
    · next heq =>
      have hother : (name, b) ∉ t := by
        intro he
        have hlt : first.1 < name := hfirst _ (List.mem_map_of_mem he)
        exact String.lt_irrefl name (heq.symm ▸ hlt)
      rw [Option.some.injEq, or_iff_left hother, heq]
      exact ⟨fun h => h ▸ rfl, fun h => congrArg Prod.snd h.symm⟩
    · next hne =>
      rw [ih ht, or_iff_right fun heq => hne (congrArg Prod.fst heq)]

/-- A table is known by what it lists. -/
theorem eq_of_mem_iff {t' : Table β} (h : Sorted t) (h' : Sorted t')
    (hmem : ∀ e, e ∈ t ↔ e ∈ t') : t = t' := by
  have hirrefl : Std.Irrefl fun e e' : String × β => e.1 < e'.1 :=
    ⟨fun e => String.lt_irrefl e.1⟩
  have hantisymm : Std.Antisymm fun e e' : String × β => e.1 < e'.1 :=
    ⟨fun e e' hlt hlt' => absurd (String.lt_trans hlt hlt') (String.lt_irrefl e.1)⟩
  exact (List.pairwise_map.mp h).eq_of_mem_iff (List.pairwise_map.mp h') hmem

theorem nodup_map_fst (h : Sorted t) : (t.map Prod.fst).Nodup :=
  h.imp fun {_ _} hlt => Std.ne_of_lt hlt

end Table

/-! ## Results -/

namespace Results

variable {results : Results} {group variant : String} {ops : Float}

/-- What results hold for a variant of a group. -/
def value? (results : Results) (group variant : String) : Option Float :=
  (Table.get? group results).bind (Table.get? variant)

/-- The groups of results, and the variants of every group, increase, and no group is without
variants. -/
structure WellFormed (results : Results) : Prop where
  groups : Table.Sorted results
  variants : ∀ entry ∈ results, Table.Sorted entry.2
  variants_ne_nil : ∀ entry ∈ results, entry.2 ≠ []

/-- Results list a value for a variant of a group. -/
def Holds (results : Results) (group variant : String) (ops : Float) : Prop :=
  ∃ variants, (group, variants) ∈ results ∧ (variant, ops) ∈ variants

/-- Results hold a value for exactly the groups and variants that were measured, each time one that
was measured. -/
structure Collects (results : Results) (measured : Measurement → Prop) : Prop where
  wellFormed : WellFormed results
  holds_iff : ∀ group variant,
    (∃ ops, Holds results group variant ops) ↔ ∃ ops, measured ⟨group, variant, ops⟩
  measured : ∀ group variant ops, Holds results group variant ops → measured ⟨group, variant, ops⟩

theorem Collects.congr {measured measured' : Measurement → Prop} (h : results.Collects measured)
    (heq : ∀ m, measured m ↔ measured' m) : results.Collects measured' := by
  obtain rfl : measured = measured' := funext fun m => propext (heq m)
  exact h

theorem value?_eq_some_iff (h : WellFormed results) :
    results.value? group variant = some ops ↔ results.Holds group variant ops := by
  rw [value?, Option.bind_eq_some_iff]
  refine exists_congr fun variants => ?_
  rw [Table.get?_eq_some_iff h.groups]
  exact and_congr_right fun he => Table.get?_eq_some_iff (h.variants _ he)

theorem value?_add (x y : String) :
    (results.add group variant ops).value? x y =
      if x = group ∧ y = variant then some ops else results.value? x y := by
  rw [value?, add, Table.get?_insert]
  by_cases hx : x = group
  · subst hx
    rw [if_pos rfl, Option.bind_some, Table.get?_insert, value?]
    simp only [true_and]
    cases Table.get? x results <;> rfl
  · rw [if_neg hx, if_neg fun h => hx h.1, value?]

theorem wellFormed_add (h : WellFormed results) : WellFormed (results.add group variant ops) := by
  refine ⟨Table.sorted_insert h.groups, fun e he => ?_, fun e he => ?_⟩
  · rcases Table.mem_insert he with rfl | he
    · refine Table.sorted_insert ?_
      cases hold : Table.get? group results with
      | none => exact .nil
      | some variants => exact h.variants _ ((Table.get?_eq_some_iff h.groups).mp hold)
    · exact h.variants e he
  · rcases Table.mem_insert he with rfl | he
    · exact Table.insert_ne_nil
    · exact h.variants_ne_nil e he

/-! ## How many there are -/

/-- The number of values that results hold. -/
def size (results : Results) : Nat := (results.map fun entry => entry.2.length).sum

/-- The groups and variants of results. -/
def keys (results : Results) : List (String × String) :=
  results.flatMap fun entry => entry.2.map fun v => (entry.1, v.1)

theorem mem_keys : (group, variant) ∈ results.keys ↔ ∃ ops, results.Holds group variant ops := by
  simp only [keys, Holds, List.mem_flatMap, List.mem_map, Prod.mk.injEq, Prod.exists]
  constructor
  · rintro ⟨_, variants, he, _, ops, hv, rfl, rfl⟩
    exact ⟨ops, variants, he, hv⟩
  · rintro ⟨ops, variants, he, hv⟩
    exact ⟨group, variants, he, variant, ops, hv, rfl, rfl⟩

theorem nodup_keys (h : WellFormed results) : results.keys.Nodup := by
  refine List.nodup_flatMap.mpr ⟨fun entry he => ?_, ?_⟩
  · have hpairs : (entry.2.map fun v => (entry.1, v.1)) =
        (entry.2.map Prod.fst).map fun name => (entry.1, name) := by
      rw [List.map_map]
      rfl
    rw [hpairs]
    exact (Table.nodup_map_fst (h.variants entry he)).map (Prod.mk_right_injective entry.1)
  · -- pairs of two groups differ in the group
    refine (List.pairwise_map.mp h.groups).imp fun {e e'} hlt key hkey hkey' => ?_
    obtain ⟨v, -, rfl⟩ := List.mem_map.mp hkey
    obtain ⟨v', -, heq⟩ := List.mem_map.mp hkey'
    rw [Prod.mk.injEq] at heq
    rw [heq.1] at hlt
    exact String.lt_irrefl _ hlt

theorem size_eq_ncard (h : WellFormed results) :
    results.size = {key : String × String | ∃ ops, results.Holds key.1 key.2 ops}.ncard := by
  have hset : {key : String × String | ∃ ops, results.Holds key.1 key.2 ops} =
      (results.keys.toFinset : Set (String × String)) := by
    ext ⟨group, variant⟩
    rw [List.coe_toFinset, Set.mem_ofPred_eq, Set.mem_ofPred_eq, mem_keys]
  have hlength : results.keys.length = results.size := by
    simp only [keys, size, List.length_flatMap, List.length_map]
  rw [hset, Set.ncard_coe_finset, List.toFinset_card_of_nodup (nodup_keys h), hlength]

/-! ## What they are known by -/

/-- Under the name of its group, results hold what the group lists. -/
theorem holds_iff_mem (h : WellFormed results) {variants : Table Float}
    (he : (group, variants) ∈ results) :
    results.Holds group variant ops ↔ (variant, ops) ∈ variants := by
  refine ⟨?_, fun hv => ⟨variants, he, hv⟩⟩
  rintro ⟨variants', he', hv⟩
  rw [← Table.get?_eq_some_iff h.groups] at he he'
  rwa [Option.some.inj (he.symm.trans he')]

/-- Results are known by what they hold. -/
theorem eq_of_holds_iff {results' : Results} (h : WellFormed results) (h' : WellFormed results')
    (heq : ∀ group variant ops,
      results.Holds group variant ops ↔ results'.Holds group variant ops) :
    results = results' := by
  have hsub : ∀ {r r' : Results}, WellFormed r → WellFormed r' →
      (∀ group variant ops, r.Holds group variant ops ↔ r'.Holds group variant ops) →
      ∀ entry ∈ r, entry ∈ r' := by
    rintro r r' hr hr' hsame ⟨group, variants⟩ he
    obtain ⟨⟨variant, ops⟩, hv⟩ := List.exists_mem_of_ne_nil _ (hr.variants_ne_nil _ he)
    obtain ⟨variants', he', -⟩ := (hsame group variant ops).mp ⟨variants, he, hv⟩
    have hvariants : variants = variants' := by
      refine Table.eq_of_mem_iff (hr.variants _ he) (hr'.variants _ he') fun e => ?_
      rw [← holds_iff_mem hr he, hsame, holds_iff_mem hr' he']
    rwa [hvariants]
  exact Table.eq_of_mem_iff h.groups h'.groups fun entry =>
    ⟨hsub h h' heq entry, hsub h' h (fun group variant ops => (heq group variant ops).symm) entry⟩

end Results

/-! ## Results from measurements -/

section resultsOf

variable {found : List Measurement} {group variant : String} {ops : Float}

theorem resultsOf_concat (m : Measurement) :
    resultsOf (found ++ [m]) = (resultsOf found).add m.group m.variant m.ops :=
  List.foldl_append

theorem wellFormed_resultsOf (found : List Measurement) : (resultsOf found).WellFormed := by
  induction found using List.reverseRecOn with
  | nil => exact ⟨.nil, nofun, nofun⟩
  | append_singleton found m ih =>
    rw [resultsOf_concat]
    exact Results.wellFormed_add ih

/-- What stands in the results is one of the measurements. -/
theorem mem_of_value? (h : (resultsOf found).value? group variant = some ops) :
    ⟨group, variant, ops⟩ ∈ found := by
  induction found using List.reverseRecOn with
  | nil => cases h
  | append_singleton found m ih =>
    rw [resultsOf_concat, Results.value?_add] at h
    split at h
    · next heq =>
      obtain ⟨rfl, rfl⟩ := heq
      cases h
      exact List.mem_append_right _ (List.mem_singleton_self m)
    · exact List.mem_append_left _ (ih h)

/-- For every measurement its variant stands in the results. -/
theorem isSome_value? {m : Measurement} (h : m ∈ found) :
    ((resultsOf found).value? m.group m.variant).isSome = true := by
  induction found using List.reverseRecOn with
  | nil => cases h
  | append_singleton found last ih =>
    rw [resultsOf_concat, Results.value?_add]
    split
    · rfl
    · next hne =>
      rcases List.mem_append.mp h with h | h
      · exact ih h
      · rw [List.mem_singleton.mp h] at hne
        exact absurd ⟨rfl, rfl⟩ hne

theorem collects_resultsOf (found : List Measurement) :
    (resultsOf found).Collects fun m => m ∈ found := by
  have hwell := wellFormed_resultsOf found
  have hmem : ∀ group variant ops, (resultsOf found).Holds group variant ops →
      ⟨group, variant, ops⟩ ∈ found := by
    intro group variant ops h
    exact mem_of_value? ((Results.value?_eq_some_iff hwell).mpr h)
  refine ⟨hwell, fun group variant => ⟨?_, ?_⟩, hmem⟩
  · rintro ⟨ops, h⟩
    exact ⟨ops, hmem group variant ops h⟩
  · rintro ⟨ops, h⟩
    obtain ⟨last, hlast⟩ := Option.isSome_iff_exists.mp (isSome_value? h)
    exact ⟨last, (Results.value?_eq_some_iff hwell).mp hlast⟩

end resultsOf

end OrderedAtomics.Bench

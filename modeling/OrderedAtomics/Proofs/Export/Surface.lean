import OrderedAtomics.Export.Checklist
import OrderedAtomics.Proofs.Export.Spelling

/-
  The checklist and the exported functions are two lists that know nothing of each other: one puts
  names together from tables of texts, the other goes through types, operations and orderings.
  Table by table they agree (`names_eq`), and since a name is read as one function only, a text is
  on the checklist exactly when it is the name of one exported function.
-/
namespace OrderedAtomics.Export

/-- The functions that every type has, whatever its fetches are. -/
def Entry.basic : List Entry :=
  [.prepare, .dispose] ++ LoadOrdering.all.map .load ++ StoreOrdering.all.map .store
    ++ UpdateOrdering.all.map .exchange
    ++ Strength.all.flatMap fun k => ExchangeOrdering.all.map (.compareExchange k)

namespace Checklist

/-! ## The tables -/

theorem integerTypes_eq : integerTypes = IntegerType.all.map IntegerType.name := rfl

theorem loads_eq : loads = LoadOrdering.all.map LoadOrdering.name := rfl

theorem stores_eq : stores = StoreOrdering.all.map StoreOrdering.name := rfl

theorem updates_eq : updates = UpdateOrdering.all.map UpdateOrdering.name := rfl

theorem exchanges_eq :
    exchanges = ExchangeOrdering.all.map fun o => (o.success.name, o.failure.name) := rfl

theorem fences_eq : fences = FenceOrdering.all.map FenceOrdering.name := rfl

theorem kinds_eq : ["strong", "weak"] = Strength.all.map Strength.name := rfl

/-- Integers have the arithmetic fetches and then the bitwise ones. -/
theorem arithmetic_append_bitwise (t : IntegerType) :
    arithmetic ++ bitwise =
      (Codec.fetches (ExportedType.Carrier (.integer t))).map FetchOp.name := rfl

/-- Booleans have the bitwise fetches alone. -/
theorem bitwise_eq : bitwise = (Codec.fetches (ExportedType.Carrier .bool)).map FetchOp.name := rfl

/-- Double words have no fetches. -/
theorem fetches_doubleWord : Codec.fetches (ExportedType.Carrier .doubleWord) = [] := rfl

/-! ## The names of a type -/

theorem basicNames_eq (t : ExportedType) :
    basicNames t.name = Entry.basic.map fun e => (Symbol.storage e t).name := by
  simp only [basicNames, loads_eq, stores_eq, updates_eq, exchanges_eq, kinds_eq, Entry.basic,
    Symbol.name_storage, Entry.name, ExchangeOrdering.name, List.map_append, List.map_map,
    List.flatMap_map, List.map_flatMap, List.map_cons, List.map_nil, Function.comp_def,
    ← String.append_assoc, String.reduceAppend]

theorem fetchNames_append (type : String) (ops ops' : List String) :
    fetchNames type (ops ++ ops') = fetchNames type ops ++ fetchNames type ops' :=
  List.flatMap_append

theorem fetchNames_eq (t : ExportedType) (ops : List FetchOp) :
    fetchNames t.name (ops.map FetchOp.name) =
      (ops.flatMap fun op => UpdateOrdering.all.map (Entry.fetch op)).map
        fun e => (Symbol.storage e t).name := by
  simp only [fetchNames, updates_eq, Symbol.name_storage, Entry.name, List.map_map,
    List.flatMap_map, List.map_flatMap, Function.comp_def, ← String.append_assoc,
    String.reduceAppend]

/-- All names of a type. -/
theorem typeNames_eq (t : ExportedType) :
    basicNames t.name ++ fetchNames t.name ((Codec.fetches t.Carrier).map FetchOp.name) =
      (Entry.all t).map fun e => (Symbol.storage e t).name := by
  rw [basicNames_eq, fetchNames_eq, ← List.map_append]
  rfl

theorem integerNames_eq (t : IntegerType) :
    basicNames t.name ++ fetchNames t.name arithmetic ++ fetchNames t.name bitwise =
      (Entry.all (.integer t)).map fun e => (Symbol.storage e (.integer t)).name := by
  rw [List.append_assoc, ← fetchNames_append, arithmetic_append_bitwise t]
  exact typeNames_eq (.integer t)

theorem boolNames_eq :
    basicNames "bool" ++ fetchNames "bool" bitwise =
      (Entry.all .bool).map fun e => (Symbol.storage e .bool).name := by
  rw [bitwise_eq]
  exact typeNames_eq .bool

theorem doubleWordNames_eq :
    basicNames "double_word" =
      (Entry.all .doubleWord).map fun e => (Symbol.storage e .doubleWord).name := by
  rw [← typeNames_eq .doubleWord, fetches_doubleWord]
  exact (List.append_nil _).symm

/-- All names of storage functions. -/
theorem storageNames_eq (doubleWords : Bool) :
    (integerTypes.flatMap fun t =>
        basicNames t ++ fetchNames t arithmetic ++ fetchNames t bitwise)
      ++ basicNames "bool" ++ fetchNames "bool" bitwise
      ++ (if doubleWords then basicNames "double_word" else []) =
    (ExportedType.all doubleWords).flatMap fun t =>
      (Entry.all t).map fun e => (Symbol.storage e t).name := by
  rw [ExportedType.all, integerTypes_eq, List.append_assoc (List.flatMap _ _), boolNames_eq,
    doubleWordNames_eq, List.flatMap_append, List.flatMap_append, List.flatMap_map,
    List.flatMap_map]
  simp only [integerNames_eq]
  cases doubleWords <;> simp only [List.flatMap_cons, List.flatMap_nil, List.append_nil, if_true,
    Bool.false_eq_true, if_false]

/-- The checklist names the exported functions, in the same order. -/
theorem names_eq (doubleWords : Bool) :
    names doubleWords = (Symbol.surface doubleWords).map Symbol.name := by
  rw [names, storageNames_eq, fences_eq, Symbol.surface, List.map_append, List.map_append,
    List.map_flatMap, List.map_map, List.map_map]
  simp only [List.map_map, Function.comp_def]
  rfl

theorem mem_expected {doubleWords : Bool} {s : String} :
    s ∈ expected doubleWords ↔ ∃ f ∈ Symbol.surface doubleWords, f.name = s := by
  rw [expected, Text.NameSet.mem_ofList, names_eq, List.mem_map]

end Checklist

/-! ## The functions -/

theorem ExportedType.mem_all {t : ExportedType} {doubleWords : Bool} :
    t ∈ all doubleWords ↔ (t = .doubleWord → doubleWords = true) := by
  cases t with
  | integer t => simp [all, t.mem_all]
  | bool => simp [all]
  | doubleWord => cases doubleWords <;> simp [all]

theorem Symbol.mem_surface {f : Symbol} {doubleWords : Bool} :
    f ∈ surface doubleWords ↔
      match f with
      | .storage e t => e ∈ Entry.all t ∧ (t = .doubleWord → doubleWords = true)
      | .threadFence _ | .retain | .release => True := by
  cases f with
  | storage e t =>
    have hflat : Symbol.storage e t ∈ surface doubleWords ↔
        ∃ t', t' ∈ ExportedType.all doubleWords ∧
          Symbol.storage e t ∈ (Entry.all t').map fun e => Symbol.storage e t' := by
      simp [surface]
    rw [hflat]
    constructor
    · rintro ⟨t', ht, he⟩
      obtain ⟨e', he', heq⟩ := List.mem_map.mp he
      cases heq
      exact ⟨he', ExportedType.mem_all.mp ht⟩
    · rintro ⟨he, ht⟩
      exact ⟨t, ExportedType.mem_all.mpr ht, List.mem_map_of_mem he⟩
  | threadFence o => simp [surface, o.mem_all]
  | retain | release => simp [surface]

/-- Without double words, their functions are missing and no others. -/
theorem Symbol.mem_surface_false {f : Symbol} :
    f ∈ surface false ↔ f ∈ surface true ∧ ¬∃ e, f = .storage e .doubleWord := by
  cases f with
  | storage e t => simp [mem_surface]
  | threadFence _ | retain | release => simp [mem_surface]

/-- The checklist and the exported surface are one language.  A text is expected exactly when it is
the name of an exported function; what is expected without double words is what is expected with
them, less the names of their storage functions; and an expected name is read off as one function,
with its operation, orderings and type, which is exported and has no namesake, not even among the
functions that are not exported. -/
theorem expected_eq_surface :
    (∀ doubleWords s, s ∈ Checklist.expected doubleWords ↔
      ∃ f ∈ Symbol.surface doubleWords, f.name = s) ∧
    (∀ s, s ∈ Checklist.expected false ↔
      s ∈ Checklist.expected true ∧ ¬∃ e, (Symbol.storage e .doubleWord).name = s) ∧
    (∀ s ∈ Checklist.expected true, ∃ f ∈ Symbol.surface true,
      f.name = s ∧ Symbol.read? s = some f ∧ ∀ g : Symbol, g.name = s → g = f) ∧
    ∀ s f, Symbol.read? s = some f ↔ f.name = s := by
  refine ⟨fun _ _ => Checklist.mem_expected, fun s => ?_, fun s hs => ?_,
    fun _ _ => Symbol.read?_eq_some_iff⟩
  · rw [Checklist.mem_expected, Checklist.mem_expected]
    constructor
    · rintro ⟨f, hf, rfl⟩
      obtain ⟨htrue, hword⟩ := Symbol.mem_surface_false.mp hf
      refine ⟨⟨f, htrue, rfl⟩, ?_⟩
      rintro ⟨e, he⟩
      exact hword ⟨e, Symbol.name_inj he.symm⟩
    · rintro ⟨⟨f, hf, rfl⟩, hword⟩
      refine ⟨f, Symbol.mem_surface_false.mpr ⟨hf, ?_⟩, rfl⟩
      rintro ⟨e, rfl⟩
      exact hword ⟨e, rfl⟩
  · obtain ⟨f, hf, rfl⟩ := Checklist.mem_expected.mp hs
    exact ⟨f, hf, rfl, Symbol.read?_name f, fun g hg => Symbol.name_inj hg⟩

/-- A function of double words, whose name joins seven words from five parts, and a near miss: the
fetch of a type that has none is well spelled, but not expected. -/
theorem expected_eq_surface_double_word :
    "_sa_cmpxchg_weak_acq_rel_acquire_double_word" ∈ Checklist.expected true ∧
    "_sa_cmpxchg_weak_acq_rel_acquire_double_word" ∉ Checklist.expected false ∧
    "_sa_fetch_add_acq_rel_double_word" ∉ Checklist.expected true := by
  obtain ⟨hexported, hwithout, hone, -⟩ := expected_eq_surface
  let exchange : Entry := .compareExchange .weak ⟨.acqRel, .acquire, by decide⟩
  refine ⟨?_, ?_, ?_⟩
  · exact (hexported true _).mpr
      ⟨.storage exchange .doubleWord, Symbol.mem_surface.mpr ⟨by decide, fun _ => rfl⟩, rfl⟩
  · intro h
    exact ((hwithout _).mp h).2 ⟨exchange, rfl⟩
  · intro h
    obtain ⟨f, hf, -, -, honly⟩ := hone _ h
    rw [← honly (.storage (.fetch .add .acqRel) .doubleWord) rfl] at hf
    exact absurd (Symbol.mem_surface.mp hf).1 (by decide)

end OrderedAtomics.Export

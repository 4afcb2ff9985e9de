import OrderedAtomics.Export.Symbol
import OrderedAtomics.Text.Blank

/-
  Reading the name of an exported function back.  A name is a row of words between underscores, and
  a few orderings and types are two words long; `readSymbol` goes through the words from the front
  and knows no list of functions.  Each reader is shown to accept exactly what is written, with
  whatever follows (`…_eq_some_iff`), and so the name of a function, of all names that there might
  be, is read as that function alone (`read?_eq_some_iff`).
-/
namespace OrderedAtomics.Export

/-! ## Words -/

/-- The words of a text: its pieces between underscores. -/
def words (text : String) : List String :=
  (Text.splitWhere (· == '_') text.toList).map String.ofList

theorem words_append (a b : String) : words (a ++ "_" ++ b) = words a ++ words b := by
  have h : (a ++ "_" ++ b).toList = a.toList ++ '_' :: b.toList := by
    rw [String.toList_append, String.toList_append, List.append_assoc]
    rfl
  rw [words, h, Text.splitWhere_append rfl, List.map_append]
  rfl

theorem words_inj {a b : String} (h : words a = words b) : a = b := by
  have hpieces : Text.splitWhere (· == '_') a.toList = Text.splitWhere (· == '_') b.toList :=
    (List.map_inj_right fun _ _ => String.ofList_inj.mp).mp h
  apply String.toList_inj.mp
  rw [← Text.intercalate_splitWhere '_' a.toList, hpieces, Text.intercalate_splitWhere]

/-! ## Readers -/

/-- Reads an ordering off the front of some words. -/
def readOrder : List String → Option (MemoryOrder × List String)
  | "relaxed" :: rest => some (.relaxed, rest)
  | "release" :: rest => some (.release, rest)
  | "acquire" :: rest => some (.acquire, rest)
  | "acq" :: "rel" :: rest => some (.acqRel, rest)
  | "seq" :: "cst" :: rest => some (.seqCst, rest)
  | _ => none

theorem readOrder_eq_some_iff {ws rest : List String} {o : MemoryOrder} :
    readOrder ws = some (o, rest) ↔ ws = words o.name ++ rest := by
  constructor
  · intro h
    unfold readOrder at h
    split at h <;> cases h <;> rfl
  · rintro rfl
    cases o <;> rfl

/-- Reads an ordering of a family, whose members are `all`. -/
def readOrdering {β : Type} (all : List β) (order : β → MemoryOrder) (ws : List String) :
    Option (β × List String) := do
  let (o, rest) ← readOrder ws
  let b ← all.find? fun b => order b = o
  return (b, rest)

theorem readOrdering_eq_some_iff {β : Type} {all : List β} {order : β → MemoryOrder}
    (hfind : ∀ b o, (all.find? fun b => order b = o) = some b ↔ order b = o)
    {ws rest : List String} {b : β} :
    readOrdering all order ws = some (b, rest) ↔ ws = words (order b).name ++ rest := by
  constructor
  · intro h
    obtain ⟨⟨o, rest'⟩, ho, h⟩ := Option.bind_eq_some_iff.mp h
    obtain ⟨b', hb, h⟩ := Option.bind_eq_some_iff.mp h
    cases h
    rw [(hfind b o).mp hb]
    exact readOrder_eq_some_iff.mp ho
  · intro h
    refine Option.bind_eq_some_iff.mpr ⟨_, readOrder_eq_some_iff.mpr h, ?_⟩
    exact Option.bind_eq_some_iff.mpr ⟨b, (hfind b _).mpr rfl, rfl⟩

/-- Reads an ordering of loads. -/
def readLoad : List String → Option (LoadOrdering × List String) :=
  readOrdering LoadOrdering.all LoadOrdering.toMemoryOrder

/-- Reads an ordering of stores. -/
def readStore : List String → Option (StoreOrdering × List String) :=
  readOrdering StoreOrdering.all StoreOrdering.toMemoryOrder

/-- Reads an ordering of updates. -/
def readUpdate : List String → Option (UpdateOrdering × List String) :=
  readOrdering UpdateOrdering.all UpdateOrdering.toMemoryOrder

/-- Reads an ordering of fences. -/
def readFence : List String → Option (FenceOrdering × List String) :=
  readOrdering FenceOrdering.all FenceOrdering.toMemoryOrder

section Families

variable {ws rest : List String}

theorem readLoad_eq_some_iff {o : LoadOrdering} :
    readLoad ws = some (o, rest) ↔ ws = words o.name ++ rest :=
  readOrdering_eq_some_iff fun b o => by cases b <;> cases o <;> decide

theorem readStore_eq_some_iff {o : StoreOrdering} :
    readStore ws = some (o, rest) ↔ ws = words o.name ++ rest :=
  readOrdering_eq_some_iff fun b o => by cases b <;> cases o <;> decide

theorem readUpdate_eq_some_iff {o : UpdateOrdering} :
    readUpdate ws = some (o, rest) ↔ ws = words o.name ++ rest :=
  readOrdering_eq_some_iff fun b o => by cases b <;> cases o <;> decide

theorem readFence_eq_some_iff {o : FenceOrdering} :
    readFence ws = some (o, rest) ↔ ws = words o.name ++ rest :=
  readOrdering_eq_some_iff fun b o => by cases b <;> cases o <;> decide

end Families

/-- Reads the strength of a compare-exchange. -/
def readStrength : List String → Option (Strength × List String)
  | "strong" :: rest => some (.strong, rest)
  | "weak" :: rest => some (.weak, rest)
  | _ => none

theorem readStrength_eq_some_iff {ws rest : List String} {k : Strength} :
    readStrength ws = some (k, rest) ↔ ws = words k.name ++ rest := by
  constructor
  · intro h
    unfold readStrength at h
    split at h <;> cases h <;> rfl
  · rintro rfl
    cases k <;> rfl

/-- Reads the operation of a fetch. -/
def readFetchOp : List String → Option (FetchOp × List String)
  | "add" :: rest => some (.add, rest)
  | "sub" :: rest => some (.sub, rest)
  | "or" :: rest => some (.or, rest)
  | "xor" :: rest => some (.xor, rest)
  | "and" :: rest => some (.and, rest)
  | _ => none

theorem readFetchOp_eq_some_iff {ws rest : List String} {op : FetchOp} :
    readFetchOp ws = some (op, rest) ↔ ws = words op.name ++ rest := by
  constructor
  · intro h
    unfold readFetchOp at h
    split at h <;> cases h <;> rfl
  · rintro rfl
    cases op <;> rfl

/-- Reads a type, to the end. -/
def readType : List String → Option ExportedType
  | ["int8"] => some (.integer .int8)
  | ["int16"] => some (.integer .int16)
  | ["int32"] => some (.integer .int32)
  | ["int64"] => some (.integer .int64)
  | ["int"] => some (.integer .int)
  | ["uint8"] => some (.integer .uint8)
  | ["uint16"] => some (.integer .uint16)
  | ["uint32"] => some (.integer .uint32)
  | ["uint64"] => some (.integer .uint64)
  | ["uint"] => some (.integer .uint)
  | ["bool"] => some .bool
  | ["double", "word"] => some .doubleWord
  | _ => none

theorem readType_eq_some_iff {ws : List String} {t : ExportedType} :
    readType ws = some t ↔ ws = words t.name := by
  constructor
  · intro h
    unfold readType at h
    split at h <;> cases h <;> rfl
  · rintro rfl
    cases t with
    | integer t => cases t <;> rfl
    | bool | doubleWord => rfl

/-- Reads what a storage function does. -/
def readEntry : List String → Option (Entry × List String)
  | "prepare" :: ws => some (.prepare, ws)
  | "dispose" :: ws => some (.dispose, ws)
  | "load" :: ws => (readLoad ws).map fun (o, ws) => (.load o, ws)
  | "store" :: ws => (readStore ws).map fun (o, ws) => (.store o, ws)
  | "exchange" :: ws => (readUpdate ws).map fun (o, ws) => (.exchange o, ws)
  | "cmpxchg" :: ws => do
    let (k, ws) ← readStrength ws
    let (success, ws) ← readUpdate ws
    let (failure, ws) ← readLoad ws
    let o ← ExchangeOrdering.ofPair? success failure
    return (.compareExchange k o, ws)
  | "fetch" :: ws => do
    let (op, ws) ← readFetchOp ws
    let (o, ws) ← readUpdate ws
    return (.fetch op o, ws)
  | _ => none

theorem words_entry (e : Entry) :
    words e.name =
      match e with
      | .prepare => ["prepare"]
      | .dispose => ["dispose"]
      | .load o => "load" :: words o.name
      | .store o => "store" :: words o.name
      | .exchange o => "exchange" :: words o.name
      | .compareExchange k o =>
        "cmpxchg" :: (words k.name ++ (words o.success.name ++ words o.failure.name))
      | .fetch op o => "fetch" :: (words op.name ++ words o.name) := by
  cases e with
  | prepare | dispose => rfl
  | load o => exact words_append "load" o.name
  | store o => exact words_append "store" o.name
  | exchange o => exact words_append "exchange" o.name
  | compareExchange k o =>
    have hkind : words ("cmpxchg_" ++ k.name) = "cmpxchg" :: words k.name :=
      words_append "cmpxchg" k.name
    rw [Entry.name, words_append, hkind, ExchangeOrdering.name, words_append]
    rfl
  | fetch op o =>
    have hop : words ("fetch_" ++ op.name) = "fetch" :: words op.name :=
      words_append "fetch" op.name
    rw [Entry.name, words_append, hop]
    rfl

theorem readEntry_eq_some_iff {ws rest : List String} {e : Entry} :
    readEntry ws = some (e, rest) ↔ ws = words e.name ++ rest := by
  rw [words_entry]
  constructor
  · intro h
    unfold readEntry at h
    split at h
    case h_1 | h_2 =>
      cases h
      rfl
    case h_3 =>
      obtain ⟨⟨o, ws'⟩, ho, h⟩ := Option.map_eq_some_iff.mp h
      cases h
      exact congrArg _ (readLoad_eq_some_iff.mp ho)
    case h_4 =>
      obtain ⟨⟨o, ws'⟩, ho, h⟩ := Option.map_eq_some_iff.mp h
      cases h
      exact congrArg _ (readStore_eq_some_iff.mp ho)
    case h_5 =>
      obtain ⟨⟨o, ws'⟩, ho, h⟩ := Option.map_eq_some_iff.mp h
      cases h
      exact congrArg _ (readUpdate_eq_some_iff.mp ho)
    case h_6 =>
      obtain ⟨⟨k, ws₁⟩, hk, h⟩ := Option.bind_eq_some_iff.mp h
      obtain ⟨⟨success, ws₂⟩, hs, h⟩ := Option.bind_eq_some_iff.mp h
      obtain ⟨⟨failure, ws₃⟩, hf, h⟩ := Option.bind_eq_some_iff.mp h
      obtain ⟨o, ho, h⟩ := Option.bind_eq_some_iff.mp h
      cases h
      obtain ⟨rfl, rfl⟩ := ExchangeOrdering.ofPair?_eq_some ho
      rw [readStrength_eq_some_iff.mp hk, readUpdate_eq_some_iff.mp hs,
        readLoad_eq_some_iff.mp hf]
      simp only [List.cons_append, List.append_assoc]
    case h_7 =>
      obtain ⟨⟨op, ws₁⟩, hop, h⟩ := Option.bind_eq_some_iff.mp h
      obtain ⟨⟨o, ws₂⟩, ho, h⟩ := Option.bind_eq_some_iff.mp h
      cases h
      rw [readFetchOp_eq_some_iff.mp hop, readUpdate_eq_some_iff.mp ho]
      simp only [List.cons_append, List.append_assoc]
    case h_8 => cases h
  · rintro rfl
    cases e with
    | prepare | dispose => rfl
    | load o => simp [readEntry, readLoad_eq_some_iff.mpr rfl]
    | store o => simp [readEntry, readStore_eq_some_iff.mpr rfl]
    | exchange o => simp [readEntry, readUpdate_eq_some_iff.mpr rfl]
    | compareExchange k o =>
      simp [readEntry, List.append_assoc, readStrength_eq_some_iff.mpr rfl,
        readUpdate_eq_some_iff.mpr rfl, readLoad_eq_some_iff.mpr rfl, o.ofPair?_self]
    | fetch op o =>
      simp [readEntry, List.append_assoc, readFetchOp_eq_some_iff.mpr rfl,
        readUpdate_eq_some_iff.mpr rfl]

/-- Reads a name to the end. -/
def readSymbol : List String → Option Symbol
  | "" :: "sa" :: "thread" :: "fence" :: ws =>
    match readFence ws with
    | some (o, []) => some (.threadFence o)
    | _ => none
  | ["", "sa", "retain", "n"] => some .retain
  | ["", "sa", "release", "n"] => some .release
  | "" :: "sa" :: ws => (readEntry ws).bind fun (e, ws) => (readType ws).map (Symbol.storage e)
  | _ => none

theorem words_symbol (f : Symbol) :
    words f.name =
      match f with
      | .storage e t => "" :: "sa" :: (words e.name ++ words t.name)
      | .threadFence o => "" :: "sa" :: "thread" :: "fence" :: words o.name
      | .retain => ["", "sa", "retain", "n"]
      | .release => ["", "sa", "release", "n"] := by
  cases f with
  | storage e t =>
    have hentry : words ("_sa_" ++ e.name) = "" :: "sa" :: words e.name :=
      words_append "_sa" e.name
    rw [Symbol.name_storage, words_append, hentry]
    rfl
  | threadFence o => exact words_append "_sa_thread_fence" o.name
  | retain | release => rfl

theorem readSymbol_eq_some_iff {ws : List String} {f : Symbol} :
    readSymbol ws = some f ↔ ws = words f.name := by
  rw [words_symbol]
  constructor
  · intro h
    unfold readSymbol at h
    split at h
    case h_1 ws =>
      split at h
      next o ho =>
        cases h
        rw [readFence_eq_some_iff.mp ho, List.append_nil]
      next => cases h
    case h_2 | h_3 =>
      cases h
      rfl
    case h_4 =>
      obtain ⟨⟨e, ws'⟩, he, h⟩ := Option.bind_eq_some_iff.mp h
      obtain ⟨t, ht, rfl⟩ := Option.map_eq_some_iff.mp h
      rw [readEntry_eq_some_iff.mp he, readType_eq_some_iff.mp ht]
    case h_5 => cases h
  · rintro rfl
    cases f with
    | storage e t =>
      -- No operation begins with the words of the other functions, so the last case is taken.
      have hread : readSymbol ("" :: "sa" :: (words e.name ++ words t.name)) =
          (readEntry (words e.name ++ words t.name)).bind
            fun (e, ws) => (readType ws).map (Symbol.storage e) := by
        rw [words_entry]
        cases e <;> simp [readSymbol]
      rw [hread, readEntry_eq_some_iff.mpr rfl]
      simp only [Option.bind_some, readType_eq_some_iff.mpr rfl, Option.map_some]
    | threadFence o =>
      have hfence : readFence (words o.name) = some (o, []) :=
        readFence_eq_some_iff.mpr (List.append_nil _).symm
      simp only [readSymbol, hfence]
    | retain | release => rfl

/-! ## Names -/

namespace Symbol

/-- The function with the given name, read off the name alone. -/
def read? (name : String) : Option Symbol := readSymbol (words name)

/-- A name is read as the one function that is so called, and as none if there is none. -/
theorem read?_eq_some_iff {s : String} {f : Symbol} : read? s = some f ↔ f.name = s := by
  rw [read?, readSymbol_eq_some_iff]
  constructor
  · intro h
    exact (words_inj h).symm
  · rintro rfl
    rfl

theorem read?_name (f : Symbol) : read? f.name = some f := read?_eq_some_iff.mpr rfl

theorem name_inj {f g : Symbol} (h : f.name = g.name) : f = g := by
  have hread : some f = some g := by rw [← read?_name f, h, read?_name]
  exact Option.some.inj hread

end Symbol

end OrderedAtomics.Export

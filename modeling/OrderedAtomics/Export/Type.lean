import OrderedAtomics.Value.Inspect

/-
  The types that the exported functions exist for: ten integer types, booleans and double words.
  Pointers are 64 bits wide here, and the target has 64-bit atomics.
-/
namespace OrderedAtomics.Export

/-- The integer types; `int` and `uint` are as wide as a pointer. -/
inductive IntegerType where
  | int8
  | int16
  | int32
  | int64
  | int
  | uint8
  | uint16
  | uint32
  | uint64
  | uint
  deriving DecidableEq

namespace IntegerType

/-- All integer types. -/
def all : List IntegerType :=
  [.int8, .int16, .int32, .int64, .int, .uint8, .uint16, .uint32, .uint64, .uint]

/-- The name used inside exported symbols. -/
def name : IntegerType → String
  | .int8 => "int8"
  | .int16 => "int16"
  | .int32 => "int32"
  | .int64 => "int64"
  | .int => "int"
  | .uint8 => "uint8"
  | .uint16 => "uint16"
  | .uint32 => "uint32"
  | .uint64 => "uint64"
  | .uint => "uint"

/-- How the top bit counts. -/
def signedness : IntegerType → Signedness
  | .int8 | .int16 | .int32 | .int64 | .int => .signed
  | .uint8 | .uint16 | .uint32 | .uint64 | .uint => .unsigned

/-- The number of bits. -/
def width : IntegerType → Nat
  | .int8 | .uint8 => 8
  | .int16 | .uint16 => 16
  | .int32 | .uint32 => 32
  | .int64 | .uint64 | .int | .uint => 64

theorem mem_all (t : IntegerType) : t ∈ all := by cases t <;> decide

end IntegerType

/-- The types with exported functions. -/
inductive ExportedType where
  | integer (t : IntegerType)
  | bool
  | doubleWord
  deriving DecidableEq

namespace ExportedType

/-- The types on a target with 64-bit atomics, with double words only where the hardware has
them. -/
def all (doubleWords : Bool) : List ExportedType :=
  IntegerType.all.map .integer ++ [.bool] ++ if doubleWords then [.doubleWord] else []

/-- The name used inside exported symbols. -/
def name : ExportedType → String
  | .integer t => t.name
  | .bool => "bool"
  | .doubleWord => "double_word"

/-- The values of the type. -/
abbrev Carrier : ExportedType → Type
  | .integer t => MachineInt t.signedness t.width
  | .bool => Bool
  | .doubleWord => DoubleWord

instance : (t : ExportedType) → Codec t.Carrier
  | .integer t => inferInstanceAs (Codec (MachineInt t.signedness t.width))
  | .bool => inferInstanceAs (Codec Bool)
  | .doubleWord => inferInstanceAs (Codec DoubleWord)

instance : (t : ExportedType) → Inspect t.Carrier
  | .integer t => inferInstanceAs (Inspect (MachineInt t.signedness t.width))
  | .bool => inferInstanceAs (Inspect Bool)
  | .doubleWord => inferInstanceAs (Inspect DoubleWord)

/-- The type with the given name. -/
def ofName? (s : String) : Option ExportedType := (all true).find? fun t => t.name == s

end ExportedType

end OrderedAtomics.Export

/-
  The read-modify-write operations of a cell, on the bits it holds.  Booleans are one bit wide,
  so the bitwise operations are the logical ones there.
-/
namespace OrderedAtomics

/-- A read-modify-write operation. -/
inductive FetchOp where
  | add
  | sub
  | or
  | xor
  | and
  deriving DecidableEq

namespace FetchOp

/-- All operations. -/
def all : List FetchOp := [.add, .sub, .or, .xor, .and]

/-- The name used inside exported symbols. -/
def name : FetchOp → String
  | .add => "add"
  | .sub => "sub"
  | .or => "or"
  | .xor => "xor"
  | .and => "and"

/-- The name shown in diagnostics. -/
def label : FetchOp → String
  | .add => "Add"
  | .sub => "Sub"
  | .or => "Or"
  | .xor => "Xor"
  | .and => "And"

/-- The operation with the given name. -/
def ofName? (s : String) : Option FetchOp := all.find? fun op => op.name == s

/-- The value left in a cell that held `stored`; arithmetic wraps. -/
def apply {w : Nat} (op : FetchOp) (stored operand : BitVec w) : BitVec w :=
  match op with
  | .add => stored + operand
  | .sub => stored - operand
  | .or => stored ||| operand
  | .xor => stored ^^^ operand
  | .and => stored &&& operand

theorem mem_all (op : FetchOp) : op ∈ all := by cases op <;> decide

end FetchOp

/-- The bitwise operations, the only ones a boolean cell has. -/
inductive BitwiseOp where
  | or
  | xor
  | and
  deriving DecidableEq

namespace BitwiseOp

/-- All bitwise operations. -/
def all : List BitwiseOp := [.or, .xor, .and]

/-- The same operation among all read-modify-write operations. -/
def toFetchOp : BitwiseOp → FetchOp
  | .or => .or
  | .xor => .xor
  | .and => .and

/-- The name shown in diagnostics. -/
def label (op : BitwiseOp) : String := op.toFetchOp.label

/-- The bitwise operation with the given name. -/
def ofName? (s : String) : Option BitwiseOp := all.find? fun op => op.toFetchOp.name == s

theorem mem_all (op : BitwiseOp) : op ∈ all := by cases op <;> decide

end BitwiseOp

end OrderedAtomics

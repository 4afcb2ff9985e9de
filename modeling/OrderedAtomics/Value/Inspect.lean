import OrderedAtomics.Text.Diagnostic
import OrderedAtomics.Value.Adapter
import OrderedAtomics.Value.DoubleWord

/-
  How stored values are shown in diagnostics.
-/
namespace OrderedAtomics

instance {s : Signedness} {w : Nat} : Inspect (MachineInt s w) where
  inspect n := .atom n.toText

instance : Inspect Bool where
  inspect v := .atom (if v then "true" else "false")

instance : Inspect DoubleWord where
  inspect d := .ofFields "DoubleWord"
    [("high", .atom (toString d.high.toNat)), ("low", .atom (toString d.low.toNat))]

instance : Inspect Inverted where
  inspect v := .wrapper "Inverted" (Inspect.inspect v.value)

instance : Inspect Zigzag where
  inspect v := .wrapper "Zigzag" (Inspect.inspect v.value)

instance : Inspect Locking where
  inspect v := .wrapper "Locking" (Inspect.inspect v.value)

end OrderedAtomics

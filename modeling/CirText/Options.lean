/-!
# Options of reading a source unit

Regions nest to a limited depth, deprecated forms of operations can be warned about, and reading can
be cancelled. A cancellation is noticed between the declarations of a module and before each region.
-/

namespace CirText

/-- When reading is cancelled. Whoever cancels can do so while a type or an attribute is read, so
the moment is given by how many of them have been read. -/
structure Cancellation where
  /-- Before anything is read. -/
  atStart : Bool := false
  /-- While this type is read, counted from one. -/
  atType : Option Nat := none
  /-- While this attribute is read, counted from one. -/
  atAttribute : Option Nat := none
deriving DecidableEq, Repr

/-- Whether a point that is counted from one has come. -/
def Cancellation.reached (point : Option Nat) (count : Nat) : Bool :=
  point.any fun n => 1 ≤ n && n ≤ count

/-- Whether reading has been cancelled once so many types and attributes have been read. -/
def Cancellation.isSet (cancellation : Cancellation) (types attributes : Nat) : Bool :=
  cancellation.atStart || reached cancellation.atType types ||
    reached cancellation.atAttribute attributes

/-- The number of regions that may nest unless another one is chosen. -/
def defaultMaxDepth : Nat := 64

/-- How a source unit is read. -/
structure Options where
  /-- The name of the source unit. -/
  sourceId : String := "<input>"
  /-- The number of regions that may nest. -/
  maxDepth : Nat := defaultMaxDepth
  /-- Whether deprecated forms are warned about. -/
  deprecations : Bool := true
  /-- When reading is cancelled. -/
  cancellation : Cancellation := {}
deriving DecidableEq, Repr

/-- The greatest size of a stack, which is the greatest number of 64 bits. -/
def maxStackSize : Nat := 18446744073709551615

/-- The size in bytes of a stack on which regions can nest to a depth: one mebibyte, and 32
kibibytes for each region. -/
def stackSize (depth : Nat) : Nat :=
  min maxStackSize (1024 * 1024 + depth * (32 * 1024))

end CirText

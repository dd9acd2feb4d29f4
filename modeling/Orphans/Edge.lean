/-! Import edges. -/

set_option autoImplicit false

namespace Orphans

structure Edge where
  importer : String
  imported : String
  deriving DecidableEq, Repr

namespace Edge

/-- Edges are ordered by importer and then by the imported file. -/
instance : LT Edge where
  lt first second :=
    first.importer < second.importer ∨
      (first.importer = second.importer ∧ first.imported < second.imported)

theorem lt_iff {first second : Edge} :
    first < second ↔ first.importer < second.importer ∨
      (first.importer = second.importer ∧ first.imported < second.imported) :=
  Iff.rfl

instance : DecidableLT Edge := fun _ _ => decidable_of_iff' _ lt_iff

def before (first second : Edge) : Bool := first < second

end Edge

end Orphans

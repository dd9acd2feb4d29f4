/-! Sorting by insertion.

The order is given by `before`, which holds if its first argument has to come first. Values that neither
come before the other keep their places.
-/

set_option autoImplicit false

namespace Orphans.Sorting

variable {α : Type} (before : α → α → Bool)

def insert (value : α) : List α → List α
  | [] => [value]
  | first :: rest =>
    if before first value then first :: insert value rest else value :: first :: rest

def sort (values : List α) : List α := values.foldr (insert before) []

theorem insert_perm (value : α) (values : List α) :
    (insert before value values).Perm (value :: values) := by
  induction values with
  | nil => exact .refl _
  | cons first rest ih =>
    unfold insert
    split
    · exact (ih.cons first).trans (.swap value first rest)
    · exact .refl _

theorem sort_perm (values : List α) : (sort before values).Perm values := by
  induction values with
  | nil => exact .refl _
  | cons first rest ih => exact (insert_perm before first _).trans (ih.cons first)

def textBefore (first second : String) : Bool := first < second

end Orphans.Sorting

/-! Finite sets as ascending lists.

A set is kept as the list of its members in ascending order, each once. The list is then determined by
its members, so equal sets are equal lists and a set is printed by printing its list.
-/

set_option autoImplicit false

namespace Orphans.Ascending

variable {α : Type} [LT α] [DecidableLT α] [DecidableEq α]

def insert (value : α) : List α → List α
  | [] => [value]
  | first :: rest =>
    if value < first then value :: first :: rest
    else if value = first then first :: rest
    else first :: insert value rest

def ofList (values : List α) : List α := values.foldr insert []

def union (left right : List α) : List α := left.foldr insert right

theorem mem_insert {value member : α} {set : List α} :
    member ∈ insert value set ↔ member = value ∨ member ∈ set := by
  induction set with
  | nil => simp [insert]
  | cons first rest ih =>
    unfold insert
    split
    · simp
    · split
      · next same => subst same; simp
      · simp only [List.mem_cons, ih]
        exact ⟨fun h => h.elim (fun h => .inr (.inl h)) (fun h => h.elim .inl fun h => .inr (.inr h)),
          fun h => h.elim (fun h => .inr (.inl h)) (fun h => h.elim .inl fun h => .inr (.inr h))⟩

@[simp] theorem mem_union {member : α} {left right : List α} :
    member ∈ union left right ↔ member ∈ left ∨ member ∈ right := by
  induction left with
  | nil => simp [union]
  | cons first rest ih =>
    have step : union (first :: rest) right = insert first (union rest right) := rfl
    rw [step, mem_insert, ih, List.mem_cons, or_assoc]

@[simp] theorem mem_ofList {member : α} {values : List α} :
    member ∈ ofList values ↔ member ∈ values := by
  have unfolded : ofList values = union values [] := rfl
  simp [unfolded]

end Orphans.Ascending

import Mathlib.Algebra.GroupWithZero.Nat
import Mathlib.Data.List.Basic
import Mathlib.Algebra.BigOperators.Group.List.Basic

/-!
# Paging — a list stored in pages

Pages hold a number of items each.  An item of the whole list is found by its page and its place
there.
-/

namespace Paging

variable {α β : Type}

/-- The page of an item, and the item's place in it. -/
def locate (size : α → Nat) : List α → Nat → Option (α × Nat)
  | [], _ => none
  | page :: pages, i =>
    if i < size page then some (page, i) else locate size pages (i - size page)

variable {size : α → Nat} {pages : List α} {i : Nat}

theorem locate_eq_none : locate size pages i = none ↔ (pages.map size).sum ≤ i := by
  induction pages generalizing i with
  | nil => simp [locate]
  | cons page pages ih =>
    rw [locate, List.map_cons, List.sum_cons]
    split
    · simp only [reduceCtorEq, false_iff]
      omega
    · rw [ih]
      omega

theorem mem_of_locate {page : α} {k : Nat} (h : locate size pages i = some (page, k)) :
    page ∈ pages ∧ k < size page := by
  induction pages generalizing i with
  | nil => contradiction
  | cons page' pages ih =>
    rw [locate] at h
    split at h
    · rename_i hlt
      obtain ⟨rfl, rfl⟩ := Prod.mk.inj (Option.some.inj h)
      exact ⟨List.mem_cons_self, hlt⟩
    · obtain ⟨hmem, hlt⟩ := ih h
      exact ⟨List.mem_cons_of_mem _ hmem, hlt⟩

/-- The located item is that of the concatenation. -/
theorem getElem?_flatMap {items : α → List β} (hsize : ∀ page ∈ pages, (items page).length = size page)
    {page : α} {k : Nat} (h : locate size pages i = some (page, k)) :
    (pages.flatMap items)[i]? = (items page)[k]? := by
  induction pages generalizing i with
  | nil => contradiction
  | cons page' pages ih =>
    have hlength := hsize page' List.mem_cons_self
    rw [locate] at h
    rw [List.flatMap_cons]
    split at h
    · rename_i hlt
      obtain ⟨rfl, rfl⟩ := Prod.mk.inj (Option.some.inj h)
      rw [List.getElem?_append_left (by omega)]
    · rename_i hle
      rw [List.getElem?_append_right (by omega), hlength]
      exact ih (fun page hpage => hsize page (List.mem_cons_of_mem _ hpage)) h

end Paging

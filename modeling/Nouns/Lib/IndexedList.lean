import Mathlib.Data.List.Perm.Basic
import Mathlib.Data.List.Nodup
import Mathlib.Logic.Function.Basic

/-!
# IndexedList — an enumeration with swap-and-pop removal

A list of distinct items with a map from each item to its position.  Removal moves the last item
into the hole and pops, so it does not keep the order: what it keeps is the multiset of items.
-/

structure IndexedList (α : Type) where
  items : List α
  index : α → Nat

namespace IndexedList

variable {α : Type} [DecidableEq α]

def empty : IndexedList α := ⟨[], fun _ => 0⟩

def add (l : IndexedList α) (x : α) : IndexedList α :=
  { items := l.items ++ [x], index := Function.update l.index x l.items.length }

/-- `none` where the source's array access is out of bounds. -/
def remove (l : IndexedList α) (x : α) : Option (IndexedList α) :=
  match l.items.getLast? with
  | none => none
  | some last =>
    let i := l.index x
    if i < l.items.length then
      some { items := (l.items.set i last).dropLast
             index := Function.update (Function.update l.index last i) x 0 }
    else none

/-- Every position is indexed by the item it holds. -/
def Consistent (l : IndexedList α) : Prop :=
  ∀ i (hi : i < l.items.length), l.index l.items[i] = i

omit [DecidableEq α] in
theorem empty_consistent : Consistent (empty : IndexedList α) := by
  intro i hi
  simp [empty] at hi

omit [DecidableEq α] in
theorem Consistent.nodup {l : IndexedList α} (h : Consistent l) : l.items.Nodup := by
  rw [List.nodup_iff_getElem?_ne_getElem?]
  intro i j hij hj heq
  rw [List.getElem?_eq_getElem hj, List.getElem?_eq_getElem (by omega), Option.some.injEq] at heq
  have hi := h i (by omega)
  have hj' := h j hj
  rw [heq, hj'] at hi
  omega

theorem add_consistent {l : IndexedList α} (h : Consistent l) {x : α} (hx : x ∉ l.items) :
    Consistent (add l x) := by
  intro i hi
  simp only [add, List.length_append, List.length_singleton] at hi ⊢
  rcases Nat.lt_or_ge i l.items.length with hlt | hge
  · rw [List.getElem_append_left hlt, Function.update_of_ne, h i hlt]
    intro heq
    exact hx (heq ▸ List.getElem_mem hlt)
  · have hi' : i = l.items.length := by omega
    subst hi'
    simp

omit [DecidableEq α] in
theorem Consistent.getElem_index {l : IndexedList α} (h : Consistent l) {x : α}
    (hx : x ∈ l.items) : ∃ hi : l.index x < l.items.length, l.items[l.index x] = x := by
  obtain ⟨i, hi, rfl⟩ := List.getElem_of_mem hx
  have heq := h i hi
  exact ⟨by omega, by simp only [heq]⟩

/-- Removing a listed item succeeds, keeps the positions consistent and takes out that item. -/
theorem remove_consistent {l : IndexedList α} (h : Consistent l) {x : α} (hx : x ∈ l.items) :
    ∃ l', remove l x = some l' ∧ Consistent l' ∧ (x :: l'.items).Perm l.items := by
  obtain ⟨hi, hget⟩ := h.getElem_index hx
  rcases List.eq_nil_or_concat l.items with hnil | ⟨front, last, hl⟩
  · simp [hnil] at hx
  rw [List.concat_eq_append] at hl
  have hlen : l.items.length = front.length + 1 := by simp [hl]
  have hlast : l.items.getLast? = some last := by simp [hl]
  refine ⟨_, by simp only [remove, hlast]; rw [if_pos hi], ?_, ?_⟩
  · -- Positions below the popped one hold what they held, except that `last` fills the hole.
    intro j hj
    simp only [List.length_dropLast, List.length_set] at hj
    have hjl : j < l.items.length := by omega
    simp only [List.getElem_dropLast, List.getElem_set]
    have hlastIdx : l.index last = front.length := by
      have := h front.length (by omega)
      simpa [hl] using this
    split
    · rename_i hij
      subst hij
      have hne : last ≠ x := by
        rintro rfl
        omega
      rw [Function.update_of_ne hne, Function.update_self]
    · rename_i hij
      have hjx : l.items[j] ≠ x := fun heq => hij (by rw [← heq]; exact h j hjl)
      have hjlast : l.items[j] ≠ last := fun heq => by
        have := h j hjl
        rw [heq, hlastIdx] at this
        omega
      rw [Function.update_of_ne hjx, Function.update_of_ne hjlast, h j hjl]
  · rcases Nat.lt_or_ge (l.index x) front.length with hlt | hge
    · have hset : (l.items.set (l.index x) last).dropLast = front.set (l.index x) last := by
        rw [hl, List.set_append_left _ _ hlt]
        simp
      have hfx : front[l.index x] = x := by
        have hlt' : l.index x < (front ++ [last]).length := by
          simp
          omega
        calc front[l.index x]
            = (front ++ [last])[l.index x] := (List.getElem_append_left hlt).symm
          _ = l.items[l.index x] := by simp only [hl]
          _ = x := hget
      simp only [hset]
      rw [hl]
      have hswap : (front ++ [last]).Perm ([last] ++ front) := List.perm_append_comm
      refine (hswap.trans ?_).symm
      rw [List.singleton_append]
      have hp := List.set_perm_cons_eraseIdx hlt last
      have hf := List.getElem_cons_eraseIdx_perm hlt
      rw [hfx] at hf
      exact (hf.symm.cons last).trans ((List.Perm.swap x last _).trans (hp.symm.cons x))
    · have hidx : l.index x = front.length := by omega
      have hxl : x = last := by
        rw [← hget]
        simp [hl, hidx]
      subst hxl
      have hset : (l.items.set (l.index x) x).dropLast = front := by
        rw [hl, hidx]
        simp
      simp only [hset]
      rw [hl]
      exact (List.perm_append_singleton x front).symm

end IndexedList

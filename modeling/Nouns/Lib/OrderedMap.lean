import Mathlib.Data.List.Nodup

/-!
# OrderedMap — maps that keep the order of insertion

The entries of a map as a list, oldest first.  Setting a key that exists keeps its place.
-/

abbrev OrderedMap (κ α : Type) : Type := List (κ × α)

namespace OrderedMap

variable {κ α : Type} [DecidableEq κ]

def keys (m : OrderedMap κ α) : List κ := List.map Prod.fst m

def get? (m : OrderedMap κ α) (k : κ) : Option α := List.lookup k m

def set (m : OrderedMap κ α) (k : κ) (a : α) : OrderedMap κ α :=
  match m with
  | [] => [(k, a)]
  | e :: m => if e.1 = k then (k, a) :: m else e :: set m k a

variable {m : OrderedMap κ α} {k : κ}

theorem get?_cons (e : κ × α) (m : OrderedMap κ α) :
    OrderedMap.get? (e :: m) k = if k = e.1 then some e.2 else m.get? k := by
  rw [get?, List.lookup_cons]
  split
  · rename_i h
    rw [if_pos (eq_of_beq h)]
  · rename_i h
    rw [if_neg (ne_of_beq_false h)]
    rfl

theorem get?_of_mem {a : α} (hm : m.keys.Nodup) (h : (k, a) ∈ m) : m.get? k = some a := by
  induction m with
  | nil => cases h
  | cons e m ih =>
    obtain ⟨hnew, hm⟩ := List.nodup_cons.mp hm
    rw [get?_cons]
    rcases List.mem_cons.mp h with rfl | h
    · exact if_pos rfl
    · have hne : k ≠ e.1 := fun heq => hnew (heq ▸ List.mem_map_of_mem h)
      rw [if_neg hne]
      exact ih hm h

theorem set_of_notMem (h : k ∉ m.keys) (a : α) : m.set k a = m ++ [(k, a)] := by
  induction m with
  | nil => rfl
  | cons e m ih =>
    obtain ⟨hne, h⟩ := not_or.mp (mt List.mem_cons.mpr h)
    rw [set, if_neg (Ne.symm hne), ih h]
    rfl

theorem get?_set (k k' : κ) (a : α) :
    (m.set k a).get? k' = if k' = k then some a else m.get? k' := by
  induction m with
  | nil =>
    rw [set, get?_cons]
  | cons e m ih =>
    rw [set, get?_cons]
    by_cases he : e.1 = k
    · rw [if_pos he, get?_cons, he]
      split <;> rfl
    · rw [if_neg he, get?_cons, ih]
      by_cases hk : k' = k
      · subst hk
        rw [if_neg (Ne.symm he), if_pos rfl, if_pos rfl]
      · rw [if_neg hk, if_neg hk]

end OrderedMap

import Mathlib.Data.Set.Card
import Mathlib.Logic.Function.Basic

/-!
# EntityStore — entities that are loaded as copies and saved whole

A table holds the entities of one type by their ids.  Loading returns a copy; saving replaces what is
stored, whatever happened to it since it was loaded.
-/

namespace EntityStore

def Table (K E : Type) : Type := K → Option E

namespace Table

variable {K E : Type}

def empty : Table K E := fun _ => none

def load (t : Table K E) (k : K) : Option E := t k

/-- The entity with this id, or what it would be created as. -/
def get (t : Table K E) (new : E) (k : K) : E := (t.load k).getD new

/-- The ids of the entities with `p`. -/
def ids (p : K → E → Prop) (t : Table K E) : Set K := { k | ∃ e, t.load k = some e ∧ p k e }

noncomputable def count (p : K → E → Prop) (t : Table K E) : Nat := (t.ids p).ncard

section Plain

variable {t : Table K E} {k : K} {e new : E} {p : K → E → Prop}

@[simp] theorem load_empty (k : K) : (empty : Table K E).load k = none := rfl

@[simp] theorem get_empty (k : K) : (empty : Table K E).get new k = new := rfl

theorem get_of_load (h : t.load k = some e) : t.get new k = e := by
  rw [get, h, Option.getD_some]

theorem mem_ids : k ∈ t.ids p ↔ ∃ e, t.load k = some e ∧ p k e := Iff.rfl

theorem count_empty : (empty : Table K E).count p = 0 := by
  have hids : (empty : Table K E).ids p = ∅ := by
    ext k
    simp [mem_ids]
  rw [count, hids, Set.ncard_empty]

end Plain

variable [DecidableEq K]

def save (t : Table K E) (k : K) (e : E) : Table K E := Function.update t k (some e)

def remove (t : Table K E) (k : K) : Table K E := Function.update t k none

/-! ## Loading what was saved -/

variable {t : Table K E} {k k' : K} {e new : E}

@[simp] theorem load_save_self : (t.save k e).load k = some e := Function.update_self ..

theorem load_save_ne (h : k' ≠ k) : (t.save k e).load k' = t.load k' := Function.update_of_ne h ..

@[simp] theorem load_remove_self : (t.remove k).load k = none := Function.update_self ..

theorem load_remove_ne (h : k' ≠ k) : (t.remove k).load k' = t.load k' :=
  Function.update_of_ne h ..

theorem load_save (t : Table K E) (k k' : K) (e : E) :
    (t.save k e).load k' = if k' = k then some e else t.load k' := by
  by_cases h : k' = k
  · rw [if_pos h, h, load_save_self]
  · rw [if_neg h, load_save_ne h]

/-- Entities that are saved one after the other. -/
theorem load_saveEach (t : Table K E) (entity : K → E) (keys : List K) (k' : K) :
    (keys.foldl (fun t k => t.save k (entity k)) t).load k' =
      if k' ∈ keys then some (entity k') else t.load k' := by
  induction keys generalizing t with
  | nil => rw [List.foldl_nil, if_neg List.not_mem_nil]
  | cons k keys ih =>
    rw [List.foldl_cons, ih, load_save]
    by_cases hk : k' = k
    · simp [hk]
    · simp [hk]

theorem load_removeEach (t : Table K E) (keys : List K) (k' : K) :
    (keys.foldl (fun t k => t.remove k) t).load k' = if k' ∈ keys then none else t.load k' := by
  induction keys generalizing t with
  | nil => rw [List.foldl_nil, if_neg List.not_mem_nil]
  | cons k keys ih =>
    rw [List.foldl_cons, ih]
    by_cases hk : k' = k
    · simp [hk]
    · rw [load_remove_ne hk]
      simp [hk]

@[simp] theorem get_save_self : (t.save k e).get new k = e := by
  rw [get, load_save_self, Option.getD_some]

theorem get_save_ne (h : k' ≠ k) : (t.save k e).get new k' = t.get new k' := by
  rw [get, load_save_ne h, get]

theorem get_save (t : Table K E) (k k' : K) (e new : E) :
    (t.save k e).get new k' = if k' = k then e else t.get new k' := by
  by_cases h : k' = k
  · rw [if_pos h, h, get_save_self]
  · rw [if_neg h, get_save_ne h]

@[simp] theorem save_save (e e' : E) : (t.save k e).save k e' = t.save k e' :=
  Function.update_idem ..

/-- Saving what was loaded. -/
theorem save_get (h : t.load k = some e) : t.save k (t.get new k) = t := by
  rw [get_of_load h]
  exact Function.update_eq_self_iff.mpr h.symm

/-! ## Counting entities -/

variable {p : K → E → Prop}

theorem ids_save_of_pos (h : p k e) : (t.save k e).ids p = insert k (t.ids p) := by
  ext k'
  rw [Set.mem_insert_iff, mem_ids, mem_ids, load_save]
  by_cases hk : k' = k
  · subst hk
    simp [h]
  · simp [hk]

theorem ids_save_of_neg (h : ¬ p k e) : (t.save k e).ids p = t.ids p \ {k} := by
  ext k'
  rw [Set.mem_sdiff, Set.mem_singleton_iff, mem_ids, mem_ids, load_save]
  by_cases hk : k' = k
  · subst hk
    simp [h]
  · simp [hk]

/-- An entity that is saved with `p` where none was. -/
theorem count_save_new (hfinite : (t.ids p).Finite) (h : p k e) (hk : k ∉ t.ids p) :
    (t.save k e).count p = t.count p + 1 := by
  rw [count, ids_save_of_pos h, Set.ncard_insert_of_notMem hk hfinite, count]

/-- An entity that stays with `p`. -/
theorem count_save_kept (h : p k e) (hk : k ∈ t.ids p) : (t.save k e).count p = t.count p := by
  rw [count, ids_save_of_pos h, Set.insert_eq_of_mem hk, count]

/-- An entity that no longer has `p`. -/
theorem count_save_gone (hfinite : (t.ids p).Finite) (h : ¬ p k e) (hk : k ∈ t.ids p) :
    (t.save k e).count p + 1 = t.count p := by
  rw [count, ids_save_of_neg h, Set.ncard_sdiff_singleton_add_one hk hfinite, count]

/-- An entity that has `p` neither before nor after. -/
theorem count_save_never (h : ¬ p k e) (hk : k ∉ t.ids p) : (t.save k e).count p = t.count p := by
  rw [count, ids_save_of_neg h, Set.sdiff_singleton_eq_self hk, count]

section Change

variable [DecidablePred (p k)]

/-- An entity that is replaced. -/
theorem count_save_load (hfinite : (t.ids p).Finite) (hload : t.load k = some e) (e' : E) :
    ((t.save k e').count p : Int) =
      t.count p + ((if p k e' then 1 else 0) - if p k e then 1 else 0) := by
  have hmem : k ∈ t.ids p ↔ p k e := by
    rw [mem_ids, hload]
    simp
  by_cases h' : p k e' <;> by_cases h : p k e
  · rw [count_save_kept h' (hmem.mpr h), if_pos h', if_pos h]
    omega
  · rw [count_save_new hfinite h' (fun hk => h (hmem.mp hk)), if_pos h', if_neg h]
    omega
  · have hgone := count_save_gone hfinite h' (hmem.mpr h)
    rw [if_neg h', if_pos h]
    omega
  · rw [count_save_never h' (fun hk => h (hmem.mp hk)), if_neg h', if_neg h]
    omega

end Change

end Table

end EntityStore

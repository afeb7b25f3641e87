import Mathlib.Data.List.Basic
import Nouns.Lib.Transition

/-!
# Checkpoints — a value recorded by block number

A checkpoint history is an append-only list of `(fromBlock, value)` pairs in which a second write
in one block overwrites the first.  `lookup` is the on-chain query: two early exits, then a binary
search with the midpoint rounded up.  `valueAt` says what it is for: the value of the last
checkpoint at or before a block.
-/

namespace Checkpoints

structure Checkpoint (V : Type) where
  fromBlock : Nat
  value : V
deriving DecidableEq, Repr

variable {V : Type}

/-- Record `v` at `block`: overwrite the newest checkpoint if it is of the same block, else push. -/
def write (cps : List (Checkpoint V)) (block : Nat) (v : V) : List (Checkpoint V) :=
  match cps.getLast? with
  | some cp =>
    if cp.fromBlock = block then cps.dropLast ++ [⟨block, v⟩] else cps ++ [⟨block, v⟩]
  | none => [⟨block, v⟩]

/-- The `while (upper > lower)` loop. -/
def search (cps : List (Checkpoint V)) (block lower upper : Nat) : Option V :=
  if lower < upper then
    let center := upper - (upper - lower) / 2
    match cps[center]? with
    | none => none
    | some cp =>
      if cp.fromBlock = block then some cp.value
      else if cp.fromBlock < block then search cps block center upper
      else search cps block lower (center - 1)
  else cps[lower]?.map Checkpoint.value
termination_by upper - lower

/-- `none` stands for the default that is in force before the first checkpoint. -/
def lookup (cps : List (Checkpoint V)) (block : Nat) : Option V :=
  match cps.getLast?, cps.head? with
  | some last, some first =>
    if last.fromBlock ≤ block then some last.value
    else if first.fromBlock > block then none
    else search cps block 0 (cps.length - 1)
  | _, _ => none

def latest (cps : List (Checkpoint V)) : Option V := cps.getLast?.map Checkpoint.value

/-! ## Specification -/

/-- The value of the last checkpoint at or before `block`. -/
def valueAt (block : Nat) : List (Checkpoint V) → Option V
  | [] => none
  | cp :: cps => (valueAt block cps).or (if cp.fromBlock ≤ block then some cp.value else none)

/-- Strictly increasing block numbers, none of them after `now`. -/
structure WellFormed (cps : List (Checkpoint V)) (now : Nat) : Prop where
  increasing : cps.Pairwise (fun cp cp' => cp.fromBlock < cp'.fromBlock)
  bounded : ∀ cp ∈ cps, cp.fromBlock ≤ now

theorem WellFormed.nil (now : Nat) : WellFormed ([] : List (Checkpoint V)) now :=
  ⟨.nil, by simp⟩

theorem WellFormed.mono {cps : List (Checkpoint V)} {now now' : Nat} (h : WellFormed cps now)
    (hle : now ≤ now') : WellFormed cps now' :=
  ⟨h.increasing, fun cp hcp => Nat.le_trans (h.bounded cp hcp) hle⟩

theorem valueAt_append (cps cps' : List (Checkpoint V)) (block : Nat) :
    valueAt block (cps ++ cps') = (valueAt block cps').or (valueAt block cps) := by
  induction cps with
  | nil => simp [valueAt]
  | cons cp cps ih => simp [valueAt, ih, Option.or_assoc]

theorem valueAt_eq_none {cps : List (Checkpoint V)} {block : Nat}
    (h : ∀ cp ∈ cps, block < cp.fromBlock) : valueAt block cps = none := by
  induction cps with
  | nil => rfl
  | cons cp cps ih =>
    have hcp := h cp (by simp)
    simp [valueAt, ih (fun c hc => h c (by simp [hc])), Nat.not_le.mpr hcp]

/-- The checkpoint in force is the one whose successors all lie after the queried block. -/
theorem valueAt_eq_of_getElem {cps : List (Checkpoint V)} {block i : Nat} (hi : i < cps.length)
    (hle : cps[i].fromBlock ≤ block)
    (hafter : ∀ j (hj : j < cps.length), i < j → block < cps[j].fromBlock) :
    valueAt block cps = some cps[i].value := by
  induction cps generalizing i with
  | nil => simp at hi
  | cons cp cps ih =>
    cases i with
    | zero =>
      have hnone : valueAt block cps = none := by
        apply valueAt_eq_none
        intro c hc
        obtain ⟨j, hj, rfl⟩ := List.getElem_of_mem hc
        have h := hafter (j + 1) (by simpa using hj) (by omega)
        simpa using h
      simp only [List.getElem_cons_zero] at hle
      simp [valueAt, hnone, hle]
    | succ i =>
      have h := ih (i := i) (by simpa using hi) (by simpa using hle)
        (fun j hj hij => hafter (j + 1) (by simpa using hj) (by omega))
      simp [valueAt, h]

theorem valueAt_eq_latest {cps : List (Checkpoint V)} {block : Nat}
    (h : ∀ cp ∈ cps, cp.fromBlock ≤ block) : valueAt block cps = latest cps := by
  rcases List.eq_nil_or_concat cps with rfl | ⟨l, cp, rfl⟩
  · rfl
  · simp [latest, valueAt_append, valueAt, h cp (by simp)]

/-! ## Writing -/

theorem write_cases (cps : List (Checkpoint V)) (block : Nat) (v : V) :
    (∃ l cp, cps = l ++ [cp] ∧ cp.fromBlock = block ∧ write cps block v = l ++ [⟨block, v⟩]) ∨
    ((∀ l cp, cps = l ++ [cp] → cp.fromBlock ≠ block) ∧
      write cps block v = cps ++ [⟨block, v⟩]) := by
  rcases List.eq_nil_or_concat cps with rfl | ⟨l, cp, rfl⟩
  · exact .inr ⟨by simp, by simp [write]⟩
  · by_cases hb : cp.fromBlock = block
    · exact .inl ⟨l, cp, by simp, hb, by simp [write, hb]⟩
    · refine .inr ⟨fun l' cp' h => ?_, by simp [write, hb]⟩
      obtain ⟨-, rfl⟩ : l = l' ∧ cp = cp' := by simpa using h
      exact hb

theorem write_wellFormed {cps : List (Checkpoint V)} {now : Nat} (h : WellFormed cps now) (v : V) :
    WellFormed (write cps now v) now := by
  rcases write_cases cps now v with ⟨l, cp, rfl, hb, hw⟩ | ⟨hne, hw⟩
  · have hinc := h.increasing
    rw [List.pairwise_append] at hinc
    rw [hw]
    refine ⟨?_, ?_⟩
    · rw [List.pairwise_append]
      refine ⟨hinc.1, by simp, ?_⟩
      intro c hc c' hc'
      rw [List.mem_singleton] at hc'
      have := hinc.2.2 c hc cp (by simp)
      simpa [hc', hb] using this
    · intro c hc
      rcases List.mem_append.mp hc with hc | hc
      · exact h.bounded c (by simp [hc])
      · rw [List.mem_singleton] at hc
        simp [hc]
  · rw [hw]
    refine ⟨?_, ?_⟩
    · rw [List.pairwise_append]
      refine ⟨h.increasing, by simp, ?_⟩
      intro c hc c' hc'
      rw [List.mem_singleton] at hc'
      rw [hc']
      rcases List.eq_nil_or_concat cps with rfl | ⟨l, last, rfl⟩
      · simp at hc
      · -- The newest checkpoint is older than `now`, and every other one is older still.
        have hlast : last.fromBlock < now :=
          Nat.lt_of_le_of_ne (h.bounded last (by simp)) (hne l last (by simp))
        rw [List.concat_eq_append, List.mem_append, List.mem_singleton] at hc
        rcases hc with hc | rfl
        · have hinc := h.increasing
          rw [List.concat_eq_append, List.pairwise_append] at hinc
          exact Nat.lt_trans (hinc.2.2 c hc last (by simp)) hlast
        · exact hlast
    · intro c hc
      rcases List.mem_append.mp hc with hc | hc
      · exact h.bounded c hc
      · rw [List.mem_singleton] at hc
        simp [hc]

@[simp] theorem latest_write (cps : List (Checkpoint V)) (block : Nat) (v : V) :
    latest (write cps block v) = some v := by
  rcases write_cases cps block v with ⟨l, cp, -, -, hw⟩ | ⟨-, hw⟩
  · simp [latest, hw]
  · simp [latest, hw]

/-- A write is seen from its own block on and nowhere before. -/
theorem valueAt_write {cps : List (Checkpoint V)} {now block : Nat} (h : WellFormed cps now)
    (v : V) :
    valueAt block (write cps now v) = if now ≤ block then some v else valueAt block cps := by
  rcases write_cases cps now v with ⟨l, cp, rfl, hb, hw⟩ | ⟨-, hw⟩
  · rw [hw, valueAt_append, valueAt_append]
    by_cases hle : now ≤ block
    · simp [valueAt, hle]
    · simp [valueAt, hle, hb]
  · rw [hw, valueAt_append]
    by_cases hle : now ≤ block
    · simp [valueAt, hle]
    · simp [valueAt, hle]

theorem mem_write {cps : List (Checkpoint V)} {block : Nat} {v : V} {cp : Checkpoint V}
    (h : cp ∈ write cps block v) : cp ∈ cps ∨ cp = ⟨block, v⟩ := by
  rcases write_cases cps block v with ⟨l, cp', rfl, -, hw⟩ | ⟨-, hw⟩
  · rw [hw] at h
    rcases List.mem_append.mp h with h | h
    · exact .inl (List.mem_append_left _ h)
    · exact .inr (List.mem_singleton.mp h)
  · rw [hw] at h
    rcases List.mem_append.mp h with h | h
    · exact .inl h
    · exact .inr (List.mem_singleton.mp h)

/-! ## Blocks with a checkpoint -/

/-- Some checkpoint is in force at `block`. -/
def Covers (cps : List (Checkpoint V)) (block : Nat) : Prop := ∃ cp ∈ cps, cp.fromBlock ≤ block

theorem Covers.mono {cps : List (Checkpoint V)} {block block' : Nat} (h : Covers cps block)
    (hle : block ≤ block') : Covers cps block' := by
  obtain ⟨cp, hcp, hfrom⟩ := h
  exact ⟨cp, hcp, Nat.le_trans hfrom hle⟩

theorem Covers.write {cps : List (Checkpoint V)} {block : Nat} (h : Covers cps block) (now : Nat)
    (v : V) : Covers (write cps now v) block := by
  obtain ⟨cp, hcp, hfrom⟩ := h
  rcases write_cases cps now v with ⟨l, cp', rfl, hnow, hw⟩ | ⟨-, hw⟩
  · rw [hw]
    rcases List.mem_append.mp hcp with hcp | hcp
    · exact ⟨cp, List.mem_append_left _ hcp, hfrom⟩
    · -- The overwritten checkpoint keeps its block.
      rw [List.mem_singleton.mp hcp, hnow] at hfrom
      exact ⟨⟨now, v⟩, by simp, hfrom⟩
  · rw [hw]
    exact ⟨cp, List.mem_append_left _ hcp, hfrom⟩

theorem Covers.valueAt {cps : List (Checkpoint V)} {block : Nat} (h : Covers cps block) :
    ∃ cp ∈ cps, valueAt block cps = some cp.value := by
  induction cps with
  | nil =>
    obtain ⟨cp, hcp, -⟩ := h
    cases hcp
  | cons cp cps ih =>
    by_cases htail : Covers cps block
    · obtain ⟨cp', hcp', hv⟩ := ih htail
      refine ⟨cp', List.mem_cons_of_mem _ hcp', ?_⟩
      rw [Checkpoints.valueAt, hv, Option.some_or]
    · have hnone : Checkpoints.valueAt block cps = none := by
        apply valueAt_eq_none
        intro cp' hcp'
        exact Nat.lt_of_not_le (fun hle => htail ⟨cp', hcp', hle⟩)
      obtain ⟨cp', hcp', hfrom⟩ := h
      rcases List.mem_cons.mp hcp' with rfl | hcp'
      · exact ⟨cp', List.mem_cons_self, by rw [Checkpoints.valueAt, hnone, if_pos hfrom, Option.none_or]⟩
      · exact absurd ⟨cp', hcp', hfrom⟩ htail

/-! ## The query is the specification -/

section Lookup

variable {cps : List (Checkpoint V)} {block : Nat}

theorem fromBlock_lt_of_lt {now : Nat} (h : WellFormed cps now) {i j : Nat} (hij : i < j)
    (hj : j < cps.length) : cps[i].fromBlock < cps[j].fromBlock :=
  List.pairwise_iff_getElem.mp h.increasing i j (by omega) hj hij

/-- The loop keeps the answer between `lower` and `upper`: the checkpoint at `lower` is not after
the queried block and every checkpoint past `upper` is. -/
theorem search_eq_valueAt {now : Nat} (h : WellFormed cps now) (lower upper : Nat)
    (hlu : lower ≤ upper) (hu : upper < cps.length) (hle : cps[lower].fromBlock ≤ block)
    (hafter : ∀ j (hj : j < cps.length), upper < j → block < cps[j].fromBlock) :
    search cps block lower upper = valueAt block cps := by
  induction hn : upper - lower using Nat.strongRecOn generalizing lower upper with
  | ind n ih =>
    unfold search
    split
    · rename_i hlt
      have hc : upper - (upper - lower) / 2 < cps.length := by omega
      simp only [List.getElem?_eq_getElem hc]
      split
      · rename_i heq
        -- An exact hit: the checkpoints after it are of later blocks.
        rw [valueAt_eq_of_getElem hc (Nat.le_of_eq heq)]
        intro j hj hij
        rw [← heq]
        exact fromBlock_lt_of_lt h hij hj
      · split
        · rename_i hne hlt'
          exact ih _ (by omega) _ _ (by omega) hu (by omega) hafter rfl
        · rename_i hne hnlt
          refine ih _ (by omega) _ _ (by omega) (by omega) hle ?_ rfl
          intro j hj hij
          rcases Nat.lt_or_ge (upper - (upper - lower) / 2) j with hgt | hge
          · have := fromBlock_lt_of_lt h hgt hj
            omega
          · have hjc : j = upper - (upper - lower) / 2 := by omega
            subst hjc
            omega
    · rename_i hnlt
      have heq : lower = upper := by omega
      subst heq
      rw [List.getElem?_eq_getElem hu, Option.map_some, valueAt_eq_of_getElem hu hle hafter]

theorem lookup_eq_valueAt {now : Nat} (h : WellFormed cps now) :
    lookup cps block = valueAt block cps := by
  rcases List.eq_nil_or_concat cps with rfl | ⟨l, last, hcps⟩
  · rfl
  · rw [List.concat_eq_append] at hcps
    have hlen : 0 < cps.length := by simp [hcps]
    have hlast : cps.getLast? = some cps[cps.length - 1] := by
      rw [List.getLast?_eq_getElem?, List.getElem?_eq_getElem]
    have hfirst : cps.head? = some cps[0] := by
      rw [List.head?_eq_getElem?, List.getElem?_eq_getElem]
    simp only [lookup, hlast, hfirst]
    split
    · rename_i hle
      rw [valueAt_eq_of_getElem (by omega) hle]
      intro j hj hij
      omega
    · split
      · rename_i hnle hgt
        rw [valueAt_eq_none]
        intro cp hcp
        obtain ⟨i, hi, rfl⟩ := List.getElem_of_mem hcp
        rcases Nat.eq_zero_or_pos i with rfl | hpos
        · exact hgt
        · exact Nat.lt_trans hgt (fromBlock_lt_of_lt h hpos hi)
      · exact search_eq_valueAt h 0 _ (by omega) (by omega) (by omega)
          (fun j hj hij => by omega)

end Lookup

/-! ## Histories -/

section History

open Transition

variable {σ : Type} {init : σ → Prop} {next : σ → σ → Prop} {clock : σ → Nat}
  {cps : σ → List (Checkpoint V)}

/-- Any number of writes in one block. -/
def Writes (now : Nat) : List (Checkpoint V) → List (Checkpoint V) → Prop :=
  Relation.ReflTransGen (fun c c' => ∃ v, c' = write c now v)

theorem Writes.one (c : List (Checkpoint V)) (now : Nat) (v : V) :
    Writes now c (write c now v) :=
  Relation.ReflTransGen.single ⟨v, rfl⟩

theorem Writes.wellFormed {now : Nat} {c c' : List (Checkpoint V)} (hw : Writes now c c')
    (h : WellFormed c now) : WellFormed c' now := by
  unfold Writes at hw
  induction hw with
  | refl => exact h
  | tail _ hw ih =>
    obtain ⟨v, rfl⟩ := hw
    exact write_wellFormed ih v

/-- Writing in the current block leaves the past alone. -/
theorem Writes.valueAt_of_lt {now b : Nat} {c c' : List (Checkpoint V)} (hw : Writes now c c')
    (h : WellFormed c now) (hb : b < now) : valueAt b c' = valueAt b c := by
  unfold Writes at hw
  induction hw with
  | refl => rfl
  | tail hcc hw ih =>
    obtain ⟨v, rfl⟩ := hw
    rw [valueAt_write (Writes.wellFormed hcc h), if_neg (by omega), ih]

/-- What the steps of a clocked system may do to a checkpoint list: write at the current time, or
let time pass. -/
structure Recorded (init : σ → Prop) (next : σ → σ → Prop) (clock : σ → Nat)
    (cps : σ → List (Checkpoint V)) : Prop where
  start : ∀ s, init s → WellFormed (cps s) (clock s)
  step : ∀ s s', next s s' →
    (clock s' = clock s ∧ Writes (clock s) (cps s) (cps s')) ∨
    (clock s ≤ clock s' ∧ cps s' = cps s)

variable (hrec : Recorded init next clock cps)
include hrec

theorem Recorded.clock_le {s s' : σ} (hs : next s s') : clock s ≤ clock s' := by
  rcases hrec.step s s' hs with ⟨heq, -⟩ | ⟨hle, -⟩
  · exact Nat.le_of_eq heq.symm
  · exact hle

theorem Recorded.wellFormed {s : σ} (h : Reachable init next s) :
    WellFormed (cps s) (clock s) := by
  refine Reachable.invariant (P := fun s => WellFormed (cps s) (clock s)) h hrec.start ?_
  intro s s' _ hwf hs
  rcases hrec.step s s' hs with ⟨heq, hw⟩ | ⟨hle, heq⟩
  · rw [heq]
    exact hw.wellFormed hwf
  · rw [heq]
    exact hwf.mono hle

/-- A step leaves the recorded past alone. -/
theorem Recorded.valueAt_step {s s' : σ} {b : Nat} (h : Reachable init next s) (hs : next s s')
    (hb : b < clock s) : valueAt b (cps s') = valueAt b (cps s) := by
  rcases hrec.step s s' hs with ⟨-, hw⟩ | ⟨-, heq⟩
  · exact hw.valueAt_of_lt (hrec.wellFormed h) hb
  · rw [heq]

/-- The past recorded in a reachable state is the same in every later one. -/
theorem Recorded.valueAt_stable {s s' : σ} {b : Nat} (h : Reachable init next s)
    (hs : Relation.ReflTransGen next s s') (hb : b < clock s) :
    b < clock s' ∧ valueAt b (cps s') = valueAt b (cps s) := by
  induction hs with
  | refl => exact ⟨hb, rfl⟩
  | tail hsu hu ih =>
    obtain ⟨hlt, heq⟩ := ih
    exact ⟨Nat.lt_of_lt_of_le hlt (hrec.clock_le hu),
      (hrec.valueAt_step (h.steps hsu) hu hlt).trans heq⟩

/-- The value recorded for block `b` is the value that was the latest in the last state of the
history whose clock is at most `b`. -/
theorem Recorded.valueAt_of_lastAt {h : List σ} {s t : σ} {b : Nat} (hr : Run init next (s :: h))
    (ht : lastAt clock b (s :: h) = some t) : valueAt b (cps s) = latest (cps t) := by
  generalize hl : s :: h = l at hr
  induction hr generalizing s h with
  | @start s₀ hs =>
    cases hl
    obtain ⟨hmem, hle⟩ := lastAt_mem ht
    cases List.mem_singleton.mp hmem
    exact valueAt_eq_latest (fun cp hcp => Nat.le_trans ((hrec.start t hs).bounded cp hcp) hle)
  | @step s₀ s₁ h₀ hr hs ih =>
    cases hl
    rcases Nat.lt_or_ge b (clock s₁) with hlt | hge
    · rw [lastAt_cons_of_lt _ hlt] at ht
      rw [← ih ht rfl]
      -- Either the step wrote at a clock after `b`, or it let time pass and wrote nothing.
      rcases hrec.step s₀ s₁ hs with ⟨heq, hw⟩ | ⟨-, heq⟩
      · exact hw.valueAt_of_lt (hrec.wellFormed hr.reachable) (heq ▸ hlt)
      · rw [heq]
    · have hwf := hrec.wellFormed (hr.reachable.step hs)
      rw [lastAt_cons_of_le _ hge] at ht
      cases ht
      exact valueAt_eq_latest (fun cp hcp => Nat.le_trans (hwf.bounded cp hcp) hge)

/-- With an empty list to start from, there is no value before the history. -/
theorem Recorded.valueAt_eq (hempty : ∀ s, init s → cps s = []) {h : List σ} {s : σ}
    (hr : Run init next (s :: h)) (b : Nat) :
    valueAt b (cps s) = (lastAt clock b (s :: h)).bind (fun t => latest (cps t)) := by
  cases hlast : lastAt clock b (s :: h) with
  | some t => exact hrec.valueAt_of_lastAt hr hlast
  | none =>
    obtain ⟨s₀, hmem, hs₀⟩ := hr.exists_start
    have hlt : b < clock s₀ := by
      have hnone := List.find?_eq_none.mp hlast s₀ hmem
      simpa using hnone
    rw [(hrec.valueAt_stable (.start hs₀) (hr.steps_of_mem hmem) hlt).2, hempty s₀ hs₀]
    rfl

end History

end Checkpoints

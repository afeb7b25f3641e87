import Mathlib.Logic.Relation
import Mathlib.Data.List.Basic
import Nouns.Lib.Fallible

/-!
# Transition — reachable states, runs and their clocks

A system is a set of initial states and a relation `next` between a state and its successors.
`Reachable` is what an invariant is proved about; `Run` keeps the whole history, newest state
first, for properties that speak of an earlier moment.
-/

namespace Transition

variable {σ : Type} {init : σ → Prop} {next : σ → σ → Prop}

def Reachable (init : σ → Prop) (next : σ → σ → Prop) (s : σ) : Prop :=
  ∃ s₀, init s₀ ∧ Relation.ReflTransGen next s₀ s

theorem Reachable.start {s : σ} (h : init s) : Reachable init next s :=
  ⟨s, h, .refl⟩

theorem Reachable.step {s s' : σ} (h : Reachable init next s) (hs : next s s') :
    Reachable init next s' := by
  obtain ⟨s₀, h₀, hr⟩ := h
  exact ⟨s₀, h₀, hr.tail hs⟩

theorem Reachable.steps {s s' : σ} (h : Reachable init next s)
    (hs : Relation.ReflTransGen next s s') : Reachable init next s' := by
  obtain ⟨s₀, h₀, hr⟩ := h
  exact ⟨s₀, h₀, hr.trans hs⟩

theorem Reachable.mono {init' : σ → Prop} {next' : σ → σ → Prop} {s : σ}
    (h : Reachable init next s) (hinit : ∀ s, init s → init' s)
    (hnext : ∀ s s', next s s' → next' s s') : Reachable init' next' s := by
  obtain ⟨s₀, h₀, hr⟩ := h
  exact ⟨s₀, hinit s₀ h₀, Relation.ReflTransGen.mono hnext _ _ hr⟩

/-- What holds initially and is kept by every step from a reachable state holds of every
reachable state. -/
theorem Reachable.invariant {P : σ → Prop} {s : σ} (h : Reachable init next s)
    (hinit : ∀ s, init s → P s)
    (hstep : ∀ s s', Reachable init next s → P s → next s s' → P s') : P s := by
  obtain ⟨s₀, h₀, hr⟩ := h
  induction hr with
  | refl => exact hinit s₀ h₀
  | tail hab hbc ih => exact hstep _ _ ⟨s₀, h₀, hab⟩ ih hbc

/-- A property that every step keeps is kept by any number of steps. -/
theorem steps_preserve {P : σ → Prop} {s s' : σ} (h : Relation.ReflTransGen next s s')
    (hs : P s) (hstep : ∀ s s', P s → next s s' → P s') : P s' := by
  induction h with
  | refl => exact hs
  | tail _ hbc ih => exact hstep _ _ ih hbc

/-- A finite run, newest state first. -/
inductive Run (init : σ → Prop) (next : σ → σ → Prop) : List σ → Prop
  | start {s : σ} : init s → Run init next [s]
  | step {s s' : σ} {h : List σ} : Run init next (s :: h) → next s s' →
      Run init next (s' :: s :: h)

theorem Run.reachable {s : σ} {h : List σ} (hr : Run init next (s :: h)) :
    Reachable init next s := by
  generalize hl : s :: h = l at hr
  induction hr generalizing s h with
  | start hs => cases hl; exact .start hs
  | step _ hs ih => cases hl; exact (ih rfl).step hs

theorem Reachable.exists_run {s : σ} (h : Reachable init next s) : ∃ l, Run init next (s :: l) := by
  obtain ⟨s₀, h₀, hr⟩ := h
  induction hr with
  | refl => exact ⟨[], .start h₀⟩
  | tail _ hs ih =>
    obtain ⟨l, hl⟩ := ih
    exact ⟨_, hl.step hs⟩

theorem Run.mono {init' : σ → Prop} {next' : σ → σ → Prop} {l : List σ} (hr : Run init next l)
    (hinit : ∀ s, init s → init' s) (hnext : ∀ s s', next s s' → next' s s') :
    Run init' next' l := by
  induction hr with
  | start hs => exact .start (hinit _ hs)
  | step _ hs ih => exact .step ih (hnext _ _ hs)

theorem Run.exists_start {l : List σ} (hr : Run init next l) : ∃ s₀ ∈ l, init s₀ := by
  induction hr with
  | start hs => exact ⟨_, List.mem_singleton.mpr rfl, hs⟩
  | step _ _ ih =>
    obtain ⟨s₀, hmem, hs₀⟩ := ih
    exact ⟨s₀, List.mem_cons_of_mem _ hmem, hs₀⟩

/-- Every state of a run leads to its newest one. -/
theorem Run.steps_of_mem {s t : σ} {h : List σ} (hr : Run init next (s :: h))
    (ht : t ∈ s :: h) : Relation.ReflTransGen next t s := by
  generalize hl : s :: h = l at hr
  induction hr generalizing s h with
  | start _ =>
    cases hl
    rw [List.mem_singleton.mp ht]
  | step _ hs ih =>
    cases hl
    rcases List.mem_cons.mp ht with rfl | ht
    · exact .refl
    · exact (ih ht rfl).tail hs

/-- Dropping the newest states of a run leaves a run. -/
theorem Run.of_append {s : σ} {l h : List σ} (hr : Run init next (l ++ s :: h)) :
    Run init next (s :: h) := by
  induction l with
  | nil => exact hr
  | cons t l ih =>
    apply ih
    generalize hl : t :: l ++ s :: h = r at hr
    cases hr with
    | start _ => simp at hl
    | step hr' _ =>
      simp only [List.cons_append, List.cons.injEq] at hl
      rw [hl.2]
      exact hr'

theorem Run.reachable_of_mem {l : List σ} {t : σ} (hr : Run init next l) (ht : t ∈ l) :
    Reachable init next t := by
  obtain ⟨before, after, rfl⟩ := List.append_of_mem ht
  exact hr.of_append.reachable

/-! ## Steps of a run -/

/-- `t'` directly follows `t` in the history. -/
def Follows (h : List σ) (t t' : σ) : Prop := ∃ l r, h = l ++ t' :: t :: r

theorem follows_cons {s s' t t' : σ} {h : List σ} :
    Follows (s' :: s :: h) t t' ↔ (t = s ∧ t' = s') ∨ Follows (s :: h) t t' := by
  constructor
  · rintro ⟨l, r, hl⟩
    cases l with
    | nil =>
      simp only [List.nil_append, List.cons.injEq] at hl
      obtain ⟨rfl, rfl, -⟩ := hl
      exact .inl ⟨rfl, rfl⟩
    | cons u l =>
      simp only [List.cons_append, List.cons.injEq] at hl
      exact .inr ⟨l, r, hl.2⟩
  · rintro (⟨rfl, rfl⟩ | ⟨l, r, hl⟩)
    · exact ⟨[], h, rfl⟩
    · exact ⟨s' :: l, r, by rw [hl, List.cons_append]⟩

theorem not_follows_singleton {s t t' : σ} : ¬ Follows [s] t t' := by
  rintro ⟨l, r, hl⟩
  have hlength := congrArg List.length hl
  simp only [List.length_append, List.length_cons, List.length_nil] at hlength
  omega

theorem Follows.mem {h : List σ} {t t' : σ} (hf : Follows h t t') : t ∈ h ∧ t' ∈ h := by
  obtain ⟨l, r, rfl⟩ := hf
  simp

theorem Run.next_of_follows {l : List σ} {t t' : σ} (hr : Run init next l) (hf : Follows l t t') :
    next t t' := by
  induction hr with
  | start _ => exact absurd hf not_follows_singleton
  | step _ hs ih =>
    rcases follows_cons.mp hf with ⟨rfl, rfl⟩ | hf
    · exact hs
    · exact ih hf

/-- What held at some moment of a run and holds no more was ended by one of the steps since. -/
theorem Run.exists_change {P : σ → Prop} {s t : σ} {h : List σ} (hr : Run init next (s :: h))
    (ht : t ∈ s :: h) (hP : P t) (hs : ¬ P s) :
    ∃ u u', Follows (s :: h) u u' ∧ Relation.ReflTransGen next t u ∧ P u ∧ ¬ P u' := by
  generalize hl : s :: h = l at hr
  induction hr generalizing s h with
  | start _ =>
    cases hl
    rw [List.mem_singleton.mp ht] at hP
    exact absurd hP hs
  | @step u u' r hrun _ ih =>
    cases hl
    rcases List.mem_cons.mp ht with rfl | ht
    · exact absurd hP hs
    · by_cases hu : P u
      · exact ⟨u, _, follows_cons.mpr (.inl ⟨rfl, rfl⟩), hrun.steps_of_mem ht, hu, hs⟩
      · obtain ⟨v, v', hf, hrest⟩ := ih ht hu rfl
        exact ⟨v, v', follows_cons.mpr (.inr hf), hrest⟩

/-- The oldest step of the history that satisfies `P`. -/
def FirstStep (P : σ → σ → Prop) (h : List σ) (t t' : σ) : Prop :=
  ∃ l r, h = l ++ t' :: t :: r ∧ P t t' ∧ ∀ u u', Follows (t :: r) u u' → ¬ P u u'

theorem FirstStep.cons {P : σ → σ → Prop} {h : List σ} {t t' : σ} (hf : FirstStep P h t t')
    (s : σ) : FirstStep P (s :: h) t t' := by
  obtain ⟨l, r, hl, hP, hnone⟩ := hf
  exact ⟨s :: l, r, by rw [hl, List.cons_append], hP, hnone⟩

/-- A cell that the first step satisfying `P` fills with `value`, and no step writes again. -/
def Latched (P : σ → σ → Prop) (value cell : σ → Nat) (s s' : σ) : Prop :=
  (cell s ≠ 0 → cell s' = cell s) ∧
  (cell s = 0 → P s s' → cell s' = value s ∧ value s ≠ 0) ∧
  (cell s = 0 → ¬ P s s' → cell s' = 0)

/-- Whether the cell is filled tells whether there was such a step, and its content which was the
first. -/
theorem Run.latched {P : σ → σ → Prop} {value cell : σ → Nat} {s : σ} {h : List σ}
    (hr : Run init next (s :: h)) (hinit : ∀ s, init s → cell s = 0)
    (hstep : ∀ t t', Follows (s :: h) t t' → Latched P value cell t t') :
    (cell s = 0 → ∀ t t', Follows (s :: h) t t' → ¬ P t t') ∧
    (cell s ≠ 0 → ∃ t t', FirstStep P (s :: h) t t' ∧ cell s = value t) := by
  generalize hl : s :: h = l at hr
  induction hr generalizing s h with
  | start hs =>
    cases hl
    exact ⟨fun _ t t' hf => absurd hf not_follows_singleton, fun hne => absurd (hinit _ hs) hne⟩
  | @step u u' r hrun hs ih =>
    cases hl
    obtain ⟨hzero, hfilled⟩ := ih (fun t t' hf => hstep t t' (follows_cons.mpr (.inr hf))) rfl
    obtain ⟨hkeep, hset, hskip⟩ := hstep u u' (follows_cons.mpr (.inl ⟨rfl, rfl⟩))
    by_cases hcell : cell u = 0
    · by_cases hP : P u u'
      · obtain ⟨hvalue, hne⟩ := hset hcell hP
        refine ⟨fun h0 => absurd (hvalue.symm.trans h0) hne, fun _ => ⟨u, u', ?_, hvalue⟩⟩
        exact ⟨[], r, rfl, hP, hzero hcell⟩
      · refine ⟨?_, fun hne => absurd (hskip hcell hP) hne⟩
        intro _ t t' hf
        rcases follows_cons.mp hf with ⟨rfl, rfl⟩ | hf
        · exact hP
        · exact hzero hcell t t' hf
    · rw [hkeep hcell]
      refine ⟨fun h0 => absurd h0 hcell, fun _ => ?_⟩
      obtain ⟨t, t', hfirst, hvalue⟩ := hfilled hcell
      exact ⟨t, t', hfirst.cons u', hvalue⟩

/-! ## Runs with their actions -/

section Labelled

variable {α : Type} {act : σ → α → σ → Prop}

/-- A run with the action taken in each of its states, newest first, and the state it reached. -/
inductive Trace (init : σ → Prop) (act : σ → α → σ → Prop) : List (σ × α) → σ → Prop
  | start {s : σ} : init s → Trace init act [] s
  | step {s s' : σ} {a : α} {h : List (σ × α)} : Trace init act h s → act s a s' →
      Trace init act ((s, a) :: h) s'

/-- Dropping the newest actions of a run leaves the run that led to an earlier one. -/
theorem Trace.of_append {l h : List (σ × α)} {s t : σ} {a : α}
    (hr : Trace init act (l ++ (s, a) :: h) t) : Trace init act h s ∧ ∃ s', act s a s' := by
  induction l generalizing t with
  | nil =>
    cases hr with
    | step hr hs => exact ⟨hr, _, hs⟩
  | cons x l ih =>
    cases hr with
    | step hr _ => exact ih hr

/-- `Q` happened, and only `R` since. -/
def Since (R Q : σ × α → Prop) (h : List (σ × α)) : Prop :=
  ∃ mid x older, h = mid ++ x :: older ∧ Q x ∧ ∀ y ∈ mid, R y

theorem Since.now {R Q : σ × α → Prop} {x : σ × α} (h : List (σ × α)) (hx : Q x) :
    Since R Q (x :: h) :=
  ⟨[], x, h, rfl, hx, by simp⟩

theorem Since.cons {R Q : σ × α → Prop} {x : σ × α} {h : List (σ × α)} (hs : Since R Q h)
    (hx : R x) : Since R Q (x :: h) := by
  obtain ⟨mid, y, older, rfl, hy, hmid⟩ := hs
  refine ⟨x :: mid, y, older, rfl, hy, ?_⟩
  intro z hz
  rcases List.mem_cons.mp hz with rfl | hz
  · exact hx
  · exact hmid z hz

/-- A flag `F` that only `Q` raises and that stands only while `R` happens tells of a `Q` since
which there was nothing but `R`. -/
theorem Trace.since {F : σ → Prop} {R Q : σ × α → Prop} {h : List (σ × α)} {s : σ}
    (hr : Trace init act h s) (hinit : ∀ s, init s → ¬ F s)
    (hstep : ∀ h s a s', Trace init act h s → act s a s' → F s' →
      Q (s, a) ∨ (F s ∧ R (s, a)))
    (hs : F s) : Since R Q h := by
  induction hr with
  | start h₀ => exact absurd hs (hinit _ h₀)
  | step hr ha ih =>
    rcases hstep _ _ _ _ hr ha hs with hQ | ⟨hflag, hR⟩
    · exact .now _ hQ
    · exact (ih hflag).cons hR

/-- What an action brings about and no later step undoes holds at the end, whenever the action was
taken. -/
theorem Trace.lasting {P : σ → Prop} {Q : σ × α → Prop} {h : List (σ × α)} {s : σ}
    (hr : Trace init act h s) (hset : ∀ s a s', act s a s' → Q (s, a) → P s')
    (hkeep : ∀ s a s', act s a s' → P s → P s') {x : σ × α} (hx : x ∈ h) (hQ : Q x) : P s := by
  induction hr with
  | start _ => cases hx
  | step _ ha ih =>
    rcases List.mem_cons.mp hx with rfl | hx
    · exact hset _ _ _ ha hQ
    · exact hkeep _ _ _ ha (ih hx)

end Labelled

/-! ## Clocks -/

section Clock

variable {clock : σ → Nat}

/-- The newest state of a history whose clock is at most `b`. -/
def lastAt (clock : σ → Nat) (b : Nat) (h : List σ) : Option σ :=
  h.find? (fun s => clock s ≤ b)

theorem lastAt_cons_of_le {s : σ} {b : Nat} (h : List σ) (hb : clock s ≤ b) :
    lastAt clock b (s :: h) = some s := by
  simp [lastAt, hb]

theorem lastAt_cons_of_lt {s : σ} {b : Nat} (h : List σ) (hb : b < clock s) :
    lastAt clock b (s :: h) = lastAt clock b h := by
  simp [lastAt, Nat.not_le.mpr hb]

/-- A history that goes back to block `b` has a last state there. -/
theorem lastAt_eq_some {t : σ} {b : Nat} {h : List σ} (ht : t ∈ h) (hb : clock t ≤ b) :
    ∃ s, lastAt clock b h = some s := by
  refine Option.isSome_iff_exists.mp (List.find?_isSome.mpr ⟨t, ht, ?_⟩)
  simpa using hb

theorem lastAt_mem {s : σ} {b : Nat} {h : List σ} (hs : lastAt clock b h = some s) :
    s ∈ h ∧ clock s ≤ b := by
  refine ⟨List.mem_of_find?_eq_some hs, ?_⟩
  simpa using List.find?_some hs

end Clock

/-! ## Evaluating runs -/

section Evaluate

variable {ε α : Type} (step : σ → α → Except ε σ) (admits : σ → α → σ → Prop)
  [∀ s a s', Decidable (admits s a s')] (refused : ε)

/-- Takes the actions one after the other, each of which `admits` must allow. -/
def evaluate (s : σ) : List α → Except ε σ
  | [] => .ok s
  | a :: actions => do
    let s' ← step s a
    Fallible.require (admits s a s') refused
    evaluate s' actions

variable {step admits refused}

theorem evaluate_steps {s s' : σ} {actions : List α}
    (hnext : ∀ s a s', step s a = .ok s' → admits s a s' → next s s')
    (h : evaluate step admits refused s actions = .ok s') : Relation.ReflTransGen next s s' := by
  induction actions generalizing s with
  | nil =>
    cases h
    exact .refl
  | cons a actions ih =>
    simp only [evaluate, Fallible.bind_eq_ok, Fallible.require_eq_ok] at h
    obtain ⟨s₁, hstep, _, hadmits, hrest⟩ := h
    exact .head (hnext s a s₁ hstep hadmits) (ih hrest)

end Evaluate

end Transition

import Mathlib.Logic.Basic

/-!
# Fallible — calls that return or revert

A call is an `Except ε` computation: `.ok` carries the state the call leaves behind, `.error` the
reason of a revert.  The inversion lemmas below are the `simp` set that takes a successful call
apart into the checks it passed and the values it computed.
-/

namespace Fallible

variable {ε α β σ : Type}

/-- Continue when `p` holds, revert with `e` otherwise. -/
def require (p : Prop) [Decidable p] (e : ε) : Except ε Unit :=
  if p then .ok () else .error e

/-- Revert with `e` when `p` holds. -/
def revertIf (p : Prop) [Decidable p] (e : ε) : Except ε Unit :=
  if p then .error e else .ok ()

@[simp] theorem require_eq_ok (p : Prop) [Decidable p] (e : ε) (u : Unit) :
    require p e = .ok u ↔ p := by
  unfold require
  split <;> simp_all

@[simp] theorem revertIf_eq_ok (p : Prop) [Decidable p] (e : ε) (u : Unit) :
    revertIf p e = .ok u ↔ ¬ p := by
  unfold revertIf
  split <;> simp_all

@[simp] theorem require_eq_error (p : Prop) [Decidable p] (e e' : ε) :
    require p e = .error e' ↔ ¬ p ∧ e = e' := by
  unfold require
  split <;> simp_all

@[simp] theorem revertIf_eq_error (p : Prop) [Decidable p] (e e' : ε) :
    revertIf p e = .error e' ↔ p ∧ e = e' := by
  unfold revertIf
  split <;> simp_all

@[simp] theorem bind_eq_ok {x : Except ε α} {f : α → Except ε β} {b : β} :
    (x >>= f) = .ok b ↔ ∃ a, x = .ok a ∧ f a = .ok b := by
  cases x with
  | error e => simp [bind, Except.bind]
  | ok a => simp [bind, Except.bind]

theorem bind_eq_error {x : Except ε α} {f : α → Except ε β} {e : ε} :
    (x >>= f) = .error e ↔ x = .error e ∨ ∃ a, x = .ok a ∧ f a = .error e := by
  cases x with
  | error e' => simp [bind, Except.bind]
  | ok a => simp [bind, Except.bind]

@[simp] theorem pure_eq_ok {a b : α} : (pure a : Except ε α) = .ok b ↔ a = b := by
  simp [pure, Except.pure]

@[simp] theorem pure_ne_error {a : α} {e : ε} : (pure a : Except ε α) ≠ .error e := by
  simp [pure, Except.pure]

@[simp] theorem throw_ne_ok {e : ε} {a : α} : (throw e : Except ε α) ≠ .ok a := by
  simp [throw, throwThe, MonadExceptOf.throw]

@[simp] theorem map_eq_ok {x : Except ε α} {f : α → β} {b : β} :
    (f <$> x) = .ok b ↔ ∃ a, x = .ok a ∧ f a = b := by
  cases x with
  | error e => simp [Functor.map, Except.map]
  | ok a => simp [Functor.map, Except.map]

/-- A loop that returns keeps every property that each of its iterations keeps. -/
theorem foldlM_ok {P : σ → Prop} {f : σ → α → Except ε σ} {l : List α} {s t : σ}
    (h : l.foldlM f s = .ok t) (hs : P s)
    (hstep : ∀ a ∈ l, ∀ u v, P u → f u a = .ok v → P v) : P t := by
  induction l generalizing s with
  | nil =>
    simp only [List.foldlM_nil, pure_eq_ok] at h
    exact h ▸ hs
  | cons a l ih =>
    rw [List.foldlM_cons, bind_eq_ok] at h
    obtain ⟨u, hu, hrest⟩ := h
    exact ih hrest (hstep a (by simp) s u hs hu)
      (fun b hb => hstep b (List.mem_cons_of_mem a hb))

/-- As `foldlM_ok`, for a property that also speaks of the elements the loop has gone through. -/
theorem foldlM_ok_prefix {P : List α → σ → Prop} {f : σ → α → Except ε σ} {l : List α} {s t : σ}
    (h : l.foldlM f s = .ok t) (hs : P [] s)
    (hstep : ∀ l₀ a u v, P l₀ u → f u a = .ok v → P (l₀ ++ [a]) v) : P l t := by
  -- The induction is on what is still to come, behind any prefix.
  have main : ∀ (l l₀ : List α) (s : σ), P l₀ s → l.foldlM f s = .ok t → P (l₀ ++ l) t := by
    intro l
    induction l with
    | nil =>
      intro l₀ s hs h
      simp only [List.foldlM_nil, pure_eq_ok] at h
      rw [List.append_nil]
      exact h ▸ hs
    | cons a l ih =>
      intro l₀ s hs h
      rw [List.foldlM_cons, bind_eq_ok] at h
      obtain ⟨u, hu, hrest⟩ := h
      have hnext := ih (l₀ ++ [a]) u (hstep l₀ a s u hs hu) hrest
      rwa [List.append_assoc] at hnext
  have hall := main l [] s hs h
  rwa [List.nil_append] at hall

/-- Loops agree whose bodies agree on every state the second one comes to. -/
theorem foldlM_congr {f g : σ → α → Except ε σ} {l : List α} {s : σ}
    (h : ∀ k (hk : k < l.length) u, (l.take k).foldlM g s = .ok u → f u l[k] = g u l[k]) :
    l.foldlM f s = l.foldlM g s := by
  induction l generalizing s with
  | nil => rfl
  | cons a l ih =>
    have hhead : f s a = g s a := h 0 (Nat.succ_pos _) s rfl
    rw [List.foldlM_cons, List.foldlM_cons, hhead]
    cases hga : g s a with
    | error e => rfl
    | ok u =>
      apply ih
      intro k hk v hv
      apply h (k + 1) (Nat.succ_lt_succ hk) v
      rw [List.take_succ_cons, List.foldlM_cons, hga]
      exact hv

/-- A loop without state that returns has passed every check. -/
theorem forM_ok {f : α → Except ε PUnit} {l : List α} {u : PUnit} (h : l.forM f = .ok u) {a : α}
    (ha : a ∈ l) : f a = .ok () := by
  induction l with
  | nil => cases ha
  | cons b l ih =>
    change (f b >>= fun _ => l.forM f) = .ok u at h
    obtain ⟨_, hb, hrest⟩ := bind_eq_ok.mp h
    rcases List.mem_cons.mp ha with rfl | ha
    · exact hb
    · exact ih hrest ha

/-- The call returns, with a result that satisfies `P`. -/
def Yields (x : Except ε α) (P : α → Prop) : Prop := ∃ a, x = .ok a ∧ P a

instance (x : Except ε α) (P : α → Prop) [DecidablePred P] : Decidable (Yields x P) :=
  match x with
  | .ok a => decidable_of_iff (P a) (by simp [Yields])
  | .error _ => .isFalse (by simp [Yields])

/-- The call reverts with reason `e`. -/
def RevertsWith (x : Except ε α) (e : ε) : Prop := x = .error e

instance [DecidableEq ε] (x : Except ε α) (e : ε) : Decidable (RevertsWith x e) :=
  match x with
  | .ok _ => .isFalse (by simp [RevertsWith])
  | .error e' => decidable_of_iff (e' = e) (by simp [RevertsWith])

/-! ## Calls that cannot fail in a given way -/

/-- The call never reverts with a reason in `bad`. -/
def Avoids (bad : ε → Prop) (x : Except ε α) : Prop := ∀ e, x = .error e → ¬ bad e

variable {bad : ε → Prop}

theorem Avoids.mono {bad' : ε → Prop} {x : Except ε α} (h : ∀ {e}, bad' e → bad e)
    (hx : Avoids bad x) : Avoids bad' x :=
  fun e he hbad => hx e he (h hbad)

theorem Avoids.pure (a : α) : Avoids bad (pure a : Except ε α) := by
  intro e h
  simp at h

theorem Avoids.require {p : Prop} [Decidable p] {e : ε} (he : ¬ bad e) :
    Avoids bad (require p e) := by
  intro e' h
  rw [require_eq_error] at h
  exact h.2 ▸ he

theorem Avoids.revertIf {p : Prop} [Decidable p] {e : ε} (he : ¬ bad e) :
    Avoids bad (revertIf p e) := by
  intro e' h
  rw [revertIf_eq_error] at h
  exact h.2 ▸ he

theorem Avoids.bind {x : Except ε α} {f : α → Except ε β} (hx : Avoids bad x)
    (hf : ∀ a, x = .ok a → Avoids bad (f a)) : Avoids bad (x >>= f) := by
  intro e h
  rcases bind_eq_error.mp h with h | ⟨a, ha, h⟩
  · exact hx e h
  · exact hf a ha e h

theorem Avoids.foldlM {P : σ → Prop} {f : σ → α → Except ε σ} {l : List α} {s : σ} (hs : P s)
    (hf : ∀ u a, P u → Avoids bad (f u a)) (hP : ∀ u a v, P u → f u a = .ok v → P v) :
    Avoids bad (l.foldlM f s) := by
  induction l generalizing s with
  | nil => exact Avoids.pure s
  | cons a l ih =>
    rw [List.foldlM_cons]
    exact Avoids.bind (hf s a hs) (fun u hu => ih (hP s a u hs hu))

end Fallible

import Nouns.Token.Ids

/-!
# Rewards — which Nouns are minted for whom

The ids of `NounsToken` are minted in order, one or two in each `mint`, and every tenth of the first
ones is for the nounders.
-/

open Fallible

namespace Nouns

namespace NounsToken

variable {H : Type} {c : Crypto H} {n n' : NounsToken} {now : Nat}

/-! ## What a mint hands out -/

/-- `mint`, with the id for `noundersDAO`, if there is one, and the id that it returns. -/
def mintReturning (n : NounsToken) (now : Nat) (sender : Address) :
    Tx (NounsToken × Option Nat × Nat) := do
  n.onlyMinter sender
  let (n, reward) ← if n.currentNounId ≤ 1820 ∧ n.currentNounId % 10 = 0 then do
      let nounId := n.currentNounId
      let n ← n.mintNext now n.noundersDAO
      pure (n, some nounId)
    else pure (n, none)
  let nounId := n.currentNounId
  let n ← n.mintNext now n.minter
  return (n, reward, nounId)

theorem mint_eq_mintReturning (n : NounsToken) (now : Nat) (sender : Address) :
    n.mint now sender = (fun result => result.1) <$> n.mintReturning now sender := by
  have hlast : ∀ (m : NounsToken) (reward : Option Nat),
      m.mintNext now m.minter = (fun result : NounsToken × Option Nat × Nat => result.1) <$>
        (do return (← m.mintNext now m.minter, reward, m.currentNounId)) := by
    intro m reward
    cases m.mintNext now m.minter <;> rfl
  unfold mint mintReturning
  dsimp only
  cases n.onlyMinter sender with
  | error e => rfl
  | ok _ =>
    split
    · cases n.mintNext now n.noundersDAO with
      | error e => rfl
      | ok n₁ => exact hlast n₁ (some n.currentNounId)
    · exact hlast n none

/-- The ids that are for the nounders. -/
def IsReward (id : Nat) : Prop := id ≤ 1820 ∧ id % 10 = 0

instance (id : Nat) : Decidable (IsReward id) := inferInstanceAs (Decidable (_ ∧ _))

/-- No id exists from the counter on. -/
def Fresh (n : NounsToken) : Prop := ∀ id, n.owners id ≠ 0 → id < n.currentNounId

theorem Counts.fresh (h : Counts n n') (hn : n.Fresh) : n'.Fresh := by
  intro id hid
  rcases h.creates id hid with hold | ⟨-, hlt⟩
  · exact Nat.lt_of_lt_of_le (hn id hold) h.le
  · exact hlt

theorem mintNext_owners {to_ : Address} (h : n.mintNext now to_ = .ok n') :
    to_ ≠ 0 ∧ n'.owners = Function.update n.owners n.currentNounId to_ ∧
      n'.currentNounId = n.currentNounId + 1 ∧ n'.minter = n.minter := by
  simp only [mintNext, mintNoun, bind_eq_ok, pure_eq_ok] at h
  obtain ⟨t, ht, rfl⟩ := h
  have hmoved := Token.mintTo_ok ht
  exact ⟨hmoved.someone.resolve_left (not_not.mpr rfl), hmoved.owners, rfl, rfl⟩

/-- The ids from one counter to the other, and no others, come into being. -/
structure Mints (n n' : NounsToken) (reward : Option Nat) (nounId : Nat) : Prop where
  le : n.currentNounId ≤ n'.currentNounId
  born : n.Fresh → ∀ id,
    n.owners id = 0 ∧ n'.owners id ≠ 0 ↔ n.currentNounId ≤ id ∧ id < n'.currentNounId
  split : IsReward n.currentNounId ∧ n'.currentNounId = n.currentNounId + 2 ∧
      reward = some n.currentNounId ∧ nounId = n.currentNounId + 1 ∨
    ¬ IsReward n.currentNounId ∧ n'.currentNounId = n.currentNounId + 1 ∧
      reward = none ∧ nounId = n.currentNounId
  minter : n'.owners nounId = n.minter
  nounders : ∀ id ∈ reward, n'.owners id = n.noundersDAO

theorem Fresh.free (hn : n.Fresh) {id : Nat} (hid : n.currentNounId ≤ id) : n.owners id = 0 := by
  by_contra hne
  exact Nat.not_lt.mpr hid (hn id hne)

theorem mintReturning_mints {sender : Address} {reward : Option Nat} {nounId : Nat}
    (h : n.mintReturning now sender = .ok (n', reward, nounId)) : Mints n n' reward nounId := by
  obtain ⟨_, -, h⟩ := bind_eq_ok.mp h
  dsimp only at h
  split at h
  next hreward =>
    -- Two mints of the next id, the first one for the nounders
    obtain ⟨n₁, h₁, h⟩ := bind_eq_ok.mp h
    obtain ⟨_, hpair, h⟩ := bind_eq_ok.mp h
    cases hpair
    obtain ⟨n₂, h₂, h⟩ := bind_eq_ok.mp h
    cases h
    obtain ⟨hto₁, howners₁, hcurrent₁, hminter₁⟩ := mintNext_owners h₁
    obtain ⟨hto₂, howners₂, hcurrent₂, -⟩ := mintNext_owners h₂
    dsimp only at hto₂ howners₂ hcurrent₂ ⊢
    have hne : n.currentNounId ≠ n₁.currentNounId := by omega
    refine ⟨by omega, fun hn id => ?_, ?_, ?_, ?_⟩
    · rw [howners₂, howners₁]
      by_cases hsecond : id = n₁.currentNounId
      · subst hsecond
        rw [Function.update_self]
        exact iff_of_true ⟨hn.free (by omega), hto₂⟩ (by omega)
      · rw [Function.update_of_ne hsecond]
        by_cases hfirst : id = n.currentNounId
        · subst hfirst
          rw [Function.update_self]
          exact iff_of_true ⟨hn.free le_rfl, hto₁⟩ (by omega)
        · rw [Function.update_of_ne hfirst]
          exact iff_of_false (fun hborn => hborn.2 hborn.1) (by omega)
    · exact Or.inl ⟨hreward, by omega, rfl, hcurrent₁⟩
    · rw [howners₂, Function.update_self, hminter₁]
    · rintro id ⟨⟩
      rw [howners₂, Function.update_of_ne hne, howners₁, Function.update_self]
  next hnone =>
    obtain ⟨_, hpair, h⟩ := bind_eq_ok.mp h
    cases hpair
    obtain ⟨n₁, h₁, h⟩ := bind_eq_ok.mp h
    cases h
    obtain ⟨hto, howners, hcurrent, -⟩ := mintNext_owners h₁
    dsimp only at hto howners hcurrent ⊢
    refine ⟨by omega, fun hn id => ?_, ?_, ?_, nofun⟩
    · rw [howners]
      by_cases hnew : id = n.currentNounId
      · subst hnew
        rw [Function.update_self]
        exact iff_of_true ⟨hn.free le_rfl, hto⟩ (by omega)
      · rw [Function.update_of_ne hnew]
        exact iff_of_false (fun hborn => hborn.2 hborn.1) (by omega)
    · exact Or.inr ⟨hnone, hcurrent, rfl, rfl⟩
    · rw [howners, Function.update_self]

/-! ## Runs -/

/-- The ids that came into being, each once, those given to `noundersDAO` and those that `mint`
returned. -/
structure Minted where
  ids : List Nat
  rewards : List Nat
  returned : List Nat

/-- The ids that come into being from `n` to `n'`. -/
structure Born (n n' : NounsToken) (ids : List Nat) : Prop where
  nodup : ids.Nodup
  mem : ∀ id, id ∈ ids ↔ n.owners id = 0 ∧ n'.owners id ≠ 0

/-- Any calls of the token, one after the other, in any blocks. -/
inductive Run (c : Crypto H) : NounsToken → Minted → Prop
  | deploy (owner noundersDAO minter : Address) : Run c (deploy owner noundersDAO minter) ⟨[], [], []⟩
  | mint {n n' : NounsToken} {m : Minted} {reward : Option Nat} {nounId : Nat} {ids : List Nat}
      (now : Nat) (sender : Account) (hrun : Run c n m)
      (hmint : n.mintReturning now sender = .ok (n', reward, nounId)) (hborn : Born n n' ids) :
      Run c n' ⟨m.ids ++ ids, m.rewards ++ reward.toList, m.returned ++ [nounId]⟩
  | other {n n' : NounsToken} {m : Minted} {ids : List Nat} (proxies : Address → Address)
      (received : Address → Tx Unit) (now timestamp : Nat) (sender : Account) (cl : NounsTokenCall)
      (hrun : Run c n m) (hother : cl ≠ .mint)
      (hcall : n.call c proxies received now timestamp sender cl = .ok n') (hborn : Born n n' ids) :
      Run c n' { m with ids := m.ids ++ ids }

/-- The ids below the counter are minted, each for whom it is. -/
structure Numbered (n : NounsToken) (m : Minted) : Prop where
  fresh : n.Fresh
  once : ∀ id, m.ids.count id = if id < n.currentNounId then 1 else 0
  rewards : m.rewards = (List.range n.currentNounId).filter (IsReward ·)
  returned : m.returned = (List.range n.currentNounId).filter (¬ IsReward ·)

theorem Born.count {ids : List Nat} (h : Born n n' ids) (id : Nat) :
    ids.count id = if n.owners id = 0 ∧ n'.owners id ≠ 0 then 1 else 0 := by
  rw [← if_congr (h.mem id) rfl rfl]
  split
  next hmem => exact List.count_eq_one_of_mem h.nodup hmem
  next hmem => exact List.count_eq_zero_of_not_mem hmem

/-- After an id for the nounders comes one that is not. -/
theorem IsReward.next {id : Nat} (h : IsReward id) : ¬ IsReward (id + 1) := by
  unfold IsReward at h ⊢
  omega

theorem filter_range_succ (p : Nat → Bool) (k : Nat) :
    (List.range (k + 1)).filter p = (List.range k).filter p ++ if p k then [k] else [] := by
  rw [List.range_succ, List.filter_append, List.filter_singleton, Bool.cond_eq_ite]

/-- There are 183 ids for the nounders. -/
theorem length_rewards_le (k : Nat) : ((List.range k).filter (IsReward ·)).length ≤ 183 := by
  have hsubset : (List.range k).filter (IsReward ·) ⊆ (List.range 183).map (10 * ·) := by
    intro id hid
    have hreward : IsReward id := of_decide_eq_true (List.mem_filter.mp hid).2
    unfold IsReward at hreward
    exact List.mem_map.mpr ⟨id / 10, List.mem_range.mpr (by omega), by omega⟩
  have hle := (List.nodup_range.filter _).subperm hsubset
  simpa using hle.length_le

theorem Run.numbered {m : Minted} (h : Run c n m) : Numbered n m := by
  induction h with
  | deploy owner noundersDAO minter =>
    exact ⟨fun _ hid => absurd rfl hid, fun id => rfl, rfl, rfl⟩
  | @mint n n' m reward nounId ids now sender hrun hmint hborn ih =>
    have hmints := mintReturning_mints hmint
    have hle := hmints.le
    have hnew := hmints.born ih.fresh
    refine ⟨fun id hid => ?_, fun id => ?_, ?_, ?_⟩
    · by_cases hold : n.owners id = 0
      · exact ((hnew id).mp ⟨hold, hid⟩).2
      · exact (ih.fresh id hold).trans_le hle
    · show (m.ids ++ ids).count id = _
      rw [List.count_append, hborn.count, if_congr (hnew id) rfl rfl, ih.once]
      split_ifs <;> omega
    · show m.rewards ++ reward.toList = _
      rw [ih.rewards]
      rcases hmints.split with ⟨hreward, hcurrent, rfl, -⟩ | ⟨hnone, hcurrent, rfl, -⟩
      · rw [hcurrent, filter_range_succ, filter_range_succ, if_pos (decide_eq_true hreward),
          if_neg (by simp [hreward.next]), List.append_nil]
        rfl
      · rw [hcurrent, filter_range_succ, if_neg (by simp [hnone])]
        rfl
    · show m.returned ++ [nounId] = _
      rw [ih.returned]
      rcases hmints.split with ⟨hreward, hcurrent, -, rfl⟩ | ⟨hnone, hcurrent, -, rfl⟩
      · rw [hcurrent, filter_range_succ, filter_range_succ, if_neg (by simp [hreward]),
          if_pos (by simp [hreward.next]), List.append_nil]
      · rw [hcurrent, filter_range_succ, if_pos (by simp [hnone])]
  | other proxies received now timestamp sender cl hrun hother hcall hborn ih =>
    obtain ⟨hcounts, hcurrent⟩ := other_counts hcall hother
    refine ⟨hcounts.fresh ih.fresh, fun id => ?_, ?_, ?_⟩
    · -- Nothing comes into being, so no id comes back.
      have hnone : ¬ (_ ∧ _) := fun hnew => by
        rcases hcounts.creates id hnew.2 with hold | ⟨hge, hlt⟩
        · exact hold hnew.1
        · omega
      rw [List.count_append, hborn.count, if_neg hnone, ih.once, hcurrent, Nat.add_zero]
    · rw [hcurrent]
      exact ih.rewards
    · rw [hcurrent]
      exact ih.returned

/-- After any calls the ids that were minted are those below the counter, each once, those of them
that are multiples of 10 up to 1820 went to `noundersDAO`, and `mint` returned the others. -/
theorem mint_numbering {m : Minted} (h : Run c n m) :
    (∀ id, m.ids.count id = if id < n.currentNounId then 1 else 0) ∧
    m.rewards = (List.range n.currentNounId).filter (fun id => id ≤ 1820 ∧ id % 10 = 0) ∧
    m.rewards.length ≤ 183 ∧
    m.returned = (List.range n.currentNounId).filter (fun id => ¬ (id ≤ 1820 ∧ id % 10 = 0)) ∧
    ∀ now sender n' reward nounId, n.mintReturning now sender = .ok (n', reward, nounId) →
      n'.owners nounId = n.minter ∧ ∀ id ∈ reward, n'.owners id = n.noundersDAO := by
  obtain ⟨-, honce, hrewards, hreturned⟩ := h.numbered
  refine ⟨honce, hrewards, ?_, hreturned, ?_⟩
  · rw [hrewards]
    exact length_rewards_le _
  · intro now sender n' reward nounId hmint
    have hmints := mintReturning_mints hmint
    exact ⟨hmints.minter, hmints.nounders⟩

theorem mint_numbering_sample :
    ∃ (n : NounsToken) (m : Minted), Run Crypto.transparent n m ∧ n.currentNounId = 2 ∧
      m.rewards = [0] ∧ m.returned = [1] ∧ ∀ id, m.ids.count id = if id < 2 then 1 else 0 := by
  obtain ⟨⟨n, reward, nounId⟩, hmint, hrewards, hcurrent⟩ : Yields
      ((deploy 9 8 7).mintReturning 1 7)
      fun result => (result.2.1 = some 0 ∧ result.2.2 = 1) ∧ result.1.currentNounId = 2 := by
    decide
  obtain ⟨rfl, rfl⟩ : reward = some 0 ∧ nounId = 1 := hrewards
  have hfresh : (deploy 9 8 7).Fresh := fun _ hid => absurd rfl hid
  have hborn : Born (deploy 9 8 7) n [0, 1] := by
    refine ⟨by decide, fun id => ?_⟩
    rw [(mintReturning_mints hmint).born hfresh id, hcurrent]
    show _ ↔ 0 ≤ id ∧ id < 2
    simp only [List.mem_cons, List.not_mem_nil, or_false]
    omega
  have hrun : Run Crypto.transparent n ⟨[0, 1], [0], [1]⟩ :=
    .mint 1 ⟨7, by decide⟩ (.deploy 9 8 7) hmint hborn
  refine ⟨n, _, hrun, hcurrent, rfl, rfl, ?_⟩
  have hnumbering := (mint_numbering hrun).1
  rwa [hcurrent] at hnumbering

end NounsToken

end Nouns

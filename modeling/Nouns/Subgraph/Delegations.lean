import Nouns.Subgraph.Holders

/-!
# Delegations — the Nouns that delegates represent

`handleDelegateChanged` adds the Nouns of the account to a copy of the new delegate that was loaded
before they were taken from the previous one.  An account with Nouns that delegates to the delegate it
has is represented twice from then on.
-/

open EntityStore EntityStore.Table Transition Relation

namespace Nouns.Subgraph

open Token Store

variable {owners : Nat → Address} {delegates : Address → Address} {s s' : Store}

/-- The lists of Nouns, and those of their delegates, are those of the ledger. -/
structure DelegationsIndexed (owners : Nat → Address) (delegates : Address → Address) (s : Store) :
    Prop extends NounsIndexed owners s where
  balance : ∀ a, a ≠ 0 → (s.account a).tokenBalanceRaw = (s.account a).nouns.length
  zero : delegates 0 = 0
  delegate : ∀ a, (s.account a).delegate.getD a = delegates a
  chosen : ∀ a, a ≠ 0 → (s.account a).nouns ≠ [] → (s.account a).delegate ≠ none
  distinct : ∀ d, d ≠ 0 → (s.delegate d).nounsRepresented.Nodup
  represented : ∀ d, d ≠ 0 →
    ∀ tokenId, tokenId ∈ (s.delegate d).nounsRepresented ↔ delegates (owners tokenId) = d

namespace DelegationsIndexed

theorem of_same (h : DelegationsIndexed owners delegates s) (hsame : SameHolders s s') :
    DelegationsIndexed owners delegates s' where
  toNounsIndexed := h.toNounsIndexed.of_same hsame
  balance := fun a ha => by rw [hsame.account a]; exact h.balance a ha
  zero := h.zero
  delegate := fun a => by rw [hsame.account a]; exact h.delegate a
  chosen := fun a ha => by rw [hsame.account a]; exact h.chosen a ha
  distinct := fun d hd => by rw [hsame.represented d]; exact h.distinct d hd
  represented := fun d hd => by rw [hsame.represented d]; exact h.represented d hd

/-- The delegate of an owner is in its account. -/
theorem delegate_of_owner (h : DelegationsIndexed owners delegates s) {a : Address} {tokenId : Nat}
    (ha : a ≠ 0) (howner : owners tokenId = a) : (s.account a).delegate = some (delegates a) := by
  have hmem := (h.nouns a ha tokenId).mpr howner
  have hchosen := h.chosen a ha (List.ne_nil_of_mem hmem)
  obtain ⟨d, hd⟩ := Option.ne_none_iff_exists'.mp hchosen
  have hdelegate := h.delegate a
  rw [hd] at hdelegate ⊢
  exact congrArg some hdelegate

/-! ## Transfers -/

/-- Without the Noun that is sent, the lists are what they were. -/
theorem mem_withoutNoun (h : DelegationsIndexed owners delegates s) {from_ : Address} {tokenId : Nat}
    (howner : owners tokenId = from_) {d : Address} (hd : d ≠ 0) (id : Nat) :
    id ∈ (s.withoutNoun from_ tokenId d).nounsRepresented ↔
      id ≠ tokenId ∧ delegates (owners id) = d := by
  have hmem := h.represented d hd id
  unfold withoutNoun
  split
  · simp only [List.mem_filter, hmem, decide_eq_true_eq]
    exact and_comm
  · rename_i hother
    rw [hmem]
    refine ⟨fun hid => ⟨?_, hid⟩, And.right⟩
    -- The Noun was not on this list: its owner has another delegate.
    rintro rfl
    rw [howner] at hid
    by_cases hfrom : from_ = 0
    · rw [hfrom, h.zero] at hid
      exact hd hid.symm
    · have hdelegate := h.delegate_of_owner hfrom howner
      rw [hid] at hdelegate
      exact hother ⟨hfrom, hdelegate⟩

theorem nodup_withoutNoun (h : DelegationsIndexed owners delegates s) (from_ : Address)
    (tokenId : Nat) {d : Address} (hd : d ≠ 0) :
    (s.withoutNoun from_ tokenId d).nounsRepresented.Nodup := by
  unfold withoutNoun
  split
  · exact (h.distinct d hd).filter _
  · exact h.distinct d hd

/-- A sender has one Noun less. -/
theorem length_filter (h : DelegationsIndexed owners delegates s) {a : Address} {tokenId : Nat}
    (ha : a ≠ 0) (howner : owners tokenId = a) :
    ((s.account a).nouns.filter (· ≠ tokenId)).length + 1 = (s.account a).nouns.length := by
  have hmem := (h.nouns a ha tokenId).mpr howner
  have herase : (s.account a).nouns.filter (· ≠ tokenId) = (s.account a).nouns.erase tokenId := by
    rw [(h.nodup a ha).erase_eq_filter]
    refine List.filter_congr fun id _ => ?_
    by_cases hid : id = tokenId <;> simp [hid]
  have hpos := List.length_pos_of_mem hmem
  rw [herase, List.length_erase_of_mem hmem]
  omega

theorem transfer (h : DelegationsIndexed owners delegates s) {from_ to_ : Address} {tokenId : Nat}
    (howner : owners tokenId = from_) (hself : from_ = to_ → from_ = 0) :
    DelegationsIndexed (Function.update owners tokenId to_) delegates
      (s.handleTransfer from_ to_ tokenId) := by
  refine ⟨h.toNounsIndexed.transfer howner hself, fun a ha => ?_, h.zero, fun a => ?_,
    fun a ha hnouns => ?_, fun d hd => ?_, fun d hd id => ?_⟩
  · rw [handleTransfer_account]
    have hbalance := h.balance a ha
    by_cases hto : a = to_
    · subst hto
      simp [credited, hbalance]
    · rw [if_neg hto]
      split
      · rename_i hfrom
        have hlength := h.length_filter ha (howner.trans hfrom.1.symm)
        rw [← hfrom.1, debited, hbalance]
        dsimp only
        omega
      · exact hbalance
  · rw [handleTransfer_account]
    have hdelegate := h.delegate a
    by_cases hto : a = to_
    · subst hto
      rw [if_pos rfl, credited]
      split
      · exact hdelegate
      · exact hdelegate
    · rw [if_neg hto]
      split
      · rename_i hfrom
        rw [← hfrom.1]
        exact hdelegate
      · exact hdelegate
  · rw [handleTransfer_account] at hnouns ⊢
    by_cases hto : a = to_
    · subst hto
      rw [if_pos rfl, credited]
      split
      · exact Option.some_ne_none _
      · rename_i hbalance
        refine h.chosen a ha fun hnil => hbalance ?_
        rw [h.balance a ha, hnil]
        rfl
    · rw [if_neg hto] at hnouns ⊢
      split at hnouns
      · rename_i hfrom
        rw [if_pos hfrom, ← hfrom.1]
        rw [← hfrom.1] at hnouns
        refine h.chosen a ha fun hnil => hnouns ?_
        rw [debited, hnil]
        rfl
      · rename_i hfrom
        rw [if_neg hfrom]
        exact h.chosen a ha hnouns
  · rw [handleTransfer_delegate]
    have hnodup := h.nodup_withoutNoun from_ tokenId hd
    split
    · rw [List.nodup_append]
      refine ⟨hnodup, List.nodup_singleton tokenId, ?_⟩
      intro id hid id' hid' heq
      rw [List.mem_singleton] at hid'
      exact ((h.mem_withoutNoun howner hd id).mp hid).1 (heq.trans hid')
    · exact hnodup
  · rw [handleTransfer_delegate, h.delegate to_]
    have hmem := h.mem_withoutNoun howner hd id
    by_cases hid : id = tokenId
    · subst hid
      rw [Function.update_self]
      split
      · rename_i hto
        simp [hto]
      · rename_i hto
        simp [hmem, Ne.symm hto]
    · rw [Function.update_of_ne hid]
      split
      · simp [hmem, hid]
      · simp [hmem, hid]

/-! ## Changes of delegate -/

theorem change (h : DelegationsIndexed owners delegates s) {delegator toDelegate : Address}
    (hdelegator : delegator ≠ 0)
    (hnew : delegates delegator ≠ toDelegate ∨ (s.account delegator).nouns = []) :
    DelegationsIndexed owners (Function.update delegates delegator toDelegate)
      (s.handleDelegateChanged delegator (delegates delegator) toDelegate) := by
  have haccount := fun a =>
    handleDelegateChanged_account (s := s) delegator (delegates delegator) toDelegate a
  have howned : ∀ id, id ∈ (s.account delegator).nouns ↔ owners id = delegator :=
    h.nouns delegator hdelegator
  refine ⟨h.toNounsIndexed.delegate _ _ _, fun a ha => ?_, ?_, fun a => ?_, fun a ha hnouns => ?_,
    fun d hd => ?_, fun d hd id => ?_⟩
  · rw [haccount]
    by_cases hd : a = delegator
    · rw [if_pos hd]
      exact h.balance delegator hdelegator
    · rw [if_neg hd]
      exact h.balance a ha
  · rw [Function.update_of_ne hdelegator.symm]
    exact h.zero
  · rw [haccount]
    by_cases hd : a = delegator
    · rw [if_pos hd, hd, Function.update_self]
      rfl
    · rw [if_neg hd, Function.update_of_ne hd]
      exact h.delegate a
  · rw [haccount] at hnouns ⊢
    by_cases hd : a = delegator
    · rw [if_pos hd]
      exact Option.some_ne_none _
    · rw [if_neg hd] at hnouns ⊢
      exact h.chosen a ha hnouns
  · rw [handleDelegateChanged_delegate]
    split
    · rename_i hto
      rw [hto] at hd
      rw [List.nodup_append]
      refine ⟨h.distinct toDelegate hd, h.nodup delegator hdelegator, ?_⟩
      -- A Noun on both lists would be one whose delegate does not change.
      rintro id hid id' hid' rfl
      have hdelegate := (h.represented toDelegate hd id).mp hid
      rw [(howned id).mp hid'] at hdelegate
      rcases hnew with hnew | hnone
      · exact hnew hdelegate
      · rw [hnone] at hid'
        cases hid'
    · split
      · rename_i hfrom
        rw [hfrom] at hd
        exact (h.distinct _ hd).filter _
      · exact h.distinct d hd
  · have hmem := h.represented d hd id
    rw [handleDelegateChanged_delegate]
    by_cases howner : owners id = delegator
    · rw [howner] at hmem ⊢
      rw [Function.update_self]
      split
      · rename_i hto
        simp [howned, howner, hto]
      · rename_i hto
        split
        · simp [howned, howner, Ne.symm hto]
        · rename_i hfrom
          simp [hmem, Ne.symm hfrom, Ne.symm hto]
    · rw [Function.update_of_ne howner]
      split
      · rename_i hto
        rw [hto] at hmem
        simp [howned, howner, hmem, hto]
      · split
        · rename_i hfrom
          rw [hfrom] at hmem
          simp [howned, howner, hmem, hfrom]
        · exact hmem

end DelegationsIndexed

/-! ## Delegations over whole runs -/

/-- The delegatee is not the zero address, nor the delegate that the Nouns of the account have. -/
def Representable (t : Token) (delegator delegatee : Address) : Prop :=
  delegatee ≠ 0 ∧ (t.delegates delegator = delegatee → t.balances delegator = 0)

theorem delegates_of_delegated {now : Nat} {delegator delegatee : Address} {t t' : Token}
    (h : Delegated now delegator delegatee t t') (hne : delegatee ≠ 0) :
    t'.delegates = Function.update t.delegates delegator delegatee := by
  funext a
  rw [Token.delegates, h.delegateMap]
  by_cases ha : a = delegator
  · rw [ha, Function.update_self, Function.update_self]
    exact if_neg hne
  · rw [Function.update_of_ne ha, Function.update_of_ne ha]
    rfl

theorem delegates_of_delegateMap {t t' : Token} (h : t'.delegateMap = t.delegateMap) :
    t'.delegates = t.delegates := by
  funext a
  simp only [Token.delegates, h]

/-- The lists of Nouns and delegates stay right as long as nobody transfers to itself. -/
theorem LedgerStep.delegationsIndexed {now : Nat} {t t' : Token}
    (hstep : LedgerStep Representable now t t') (hbalances : BalancesIndexed t)
    (h : NoSelfTransfer t.log → DelegationsIndexed t.owners t.delegates (tokenIndexed t.log))
    (hself : NoSelfTransfer t'.log) :
    DelegationsIndexed t'.owners t'.delegates (tokenIndexed t'.log) := by
  cases hstep with
  | mint creator to_ tokenId t₁ hmoved hquiet hlog =>
    rw [hlog] at hself ⊢
    have h₁ := (h ((hself.older [_, _]).quietly hquiet)).of_same (sameHolders_of_quiet hquiet)
    have hself₂ : creator = to_ → creator = 0 := by
      rintro rfl
      by_contra hne
      exact hself creator tokenId hne List.mem_cons_self
    have h₂ : DelegationsIndexed (Function.update t.owners tokenId creator) t.delegates
        ((tokenIndexed t₁.log).handleTransfer 0 creator tokenId) :=
      h₁.transfer hmoved.owner (fun _ => rfl)
    have h₃ := h₂.transfer (Function.update_self tokenId creator t.owners) hself₂
    rw [Function.update_idem] at h₃
    rw [hmoved.owners, delegates_of_delegateMap hmoved.delegateMap]
    exact h₃
  | move from_ to_ tokenId t₁ _ hmoved hquiet hlog =>
    rw [hlog] at hself ⊢
    have h₁ := (h ((hself.older [_]).quietly hquiet)).of_same (sameHolders_of_quiet hquiet)
    have hself₂ : from_ = to_ → from_ = 0 := by
      rintro rfl
      by_contra hne
      exact hself from_ tokenId hne List.mem_cons_self
    rw [hmoved.owners, delegates_of_delegateMap hmoved.delegateMap]
    exact h₁.transfer hmoved.owner hself₂
  | delegate delegator delegatee t₁ hne hok hdelegated hquiet hlog =>
    have hself₁ := hself.quietly hquiet
    rw [hlog] at hself₁
    have hbefore := h (hself₁.older [_])
    have hnew : t.delegates delegator ≠ delegatee ∨
        ((tokenIndexed t.log).account delegator).nouns = [] := by
      by_cases hsame : t.delegates delegator = delegatee
      · right
        -- Without a balance there is nothing to represent.
        have hnone : selfTransfers delegator t.log = 0 :=
          selfTransfers_eq_zero.mpr fun tokenId => hself₁.older [_] delegator tokenId hne
        have hbalance := hbalances delegator hne
        rw [hbefore.balance delegator hne, hok.2 hsame, hnone] at hbalance
        exact List.length_eq_zero_iff.mp (by exact_mod_cast hbalance)
      · exact .inl hsame
    have h₁ := hbefore.change hne hnew
    rw [hdelegated.owners, delegates_of_delegated hdelegated hok.1]
    refine DelegationsIndexed.of_same ?_ (sameHolders_of_quiet hquiet)
    rw [hlog]
    exact h₁
  | quiet howners _ _ hdelegateMap _ hquiet =>
    rw [howners, delegates_of_delegateMap hdelegateMap]
    exact (h (hself.quietly hquiet)).of_same (sameHolders_of_quiet hquiet)

theorem empty_delegationsIndexed :
    DelegationsIndexed Token.empty.owners Token.empty.delegates Store.empty := by
  have hnone : ∀ a : Address, a ≠ 0 → ∀ tokenId : Nat, tokenId ∈ ([] : List Nat) ↔
      Token.empty.owners tokenId = a :=
    fun a ha tokenId => iff_of_false List.not_mem_nil (fun heq => ha heq.symm)
  exact ⟨⟨fun a _ => List.nodup_nil, hnone, nofun, fun tokenId hne => absurd rfl hne⟩,
    fun a _ => rfl, rfl, fun a => rfl, fun a _ hne => absurd rfl hne, fun d _ => List.nodup_nil,
    fun d hd tokenId => iff_of_false List.not_mem_nil (fun heq => hd heq.symm)⟩

variable {H : Type} {c : Crypto H} {n : Clocked NounsToken}

theorem delegationsIndexed_of_reachable
    (h : Reachable NounsToken.Deployed (NounsToken.NextDelegating c Representable) n)
    (hself : NoSelfTransfer n.token.log) :
    DelegationsIndexed n.token.owners n.token.delegates (tokenIndexed n.token.log) := by
  let P := fun t : Token => BalancesIndexed t ∧
    (NoSelfTransfer t.log → DelegationsIndexed t.owners t.delegates (tokenIndexed t.log))
  have hP : P n.token.toToken := by
    refine NounsToken.delegating_invariant h ?_ ?_ ?_
    · intro t t' hbalances hdelegateMap delegator delegatee hok
      rw [Representable, delegates_of_delegateMap hdelegateMap, hbalances]
      exact hok
    · exact ⟨fun a _ => rfl, fun _ => empty_delegationsIndexed⟩
    · intro now t t' ht hstep
      exact ⟨LedgerStep.balancesIndexed hstep ht.1, LedgerStep.delegationsIndexed hstep ht.1 ht.2⟩
  exact hP.2 hself

/-- Every delegate represents the Nouns that are delegated to it, each once. -/
def MirrorsDelegations (s : Store) (t : Token) : Prop :=
  ∀ d, d ≠ 0 → (s.delegate d).nounsRepresented.Nodup ∧
    ∀ tokenId, tokenId ∈ (s.delegate d).nounsRepresented ↔
      t.owners tokenId ≠ 0 ∧ t.delegates (t.owners tokenId) = d

theorem getOrCreateDynamicQuorumParams_votes (s : Store) (block : Option Nat) :
    (s.getOrCreateDynamicQuorumParams block).1.votes = s.votes := by
  unfold getOrCreateDynamicQuorumParams
  split
  · rfl
  · split <;> rfl

/-- A vote stores the Nouns that its voter represents. -/
theorem handleVoteCast_nouns {block : Block} {voter : Address} {proposalId support votes : Nat}
    {reason : String} (h : s.handleVoteCast block voter proposalId support votes reason = some s') :
    ∃ vote, s'.votes.load (voter, proposalId) = some vote ∧
      vote.nouns = (s.delegate voter).nounsRepresented := by
  simp only [handleVoteCast, Option.bind_eq_bind, Option.bind_eq_some_iff, Option.pure_def,
    Option.some.injEq] at h
  obtain ⟨_, -, _, -, rfl⟩ := h
  rw [saveProposal, getOrCreateDynamicQuorumParams_votes, saveVote]
  exact ⟨_, load_save_self, congrArg (·.2.nounsRepresented) (getOrCreateDelegate_eq s voter)⟩

/-- In a run in which nobody transfers a Noun to itself and nobody with Nouns delegates to the
delegate it has, the Nouns represented are those of the token. -/
theorem delegations_mirrored
    (h : Reachable NounsToken.Deployed (NounsToken.NextDelegating c Representable) n)
    (hself : NoSelfTransfer n.token.log) {events : List Event}
    (hevents : tokenEvents events = n.token.log) (hindexed : indexed events = some s) :
    MirrorsDelegations s n.token.toToken ∧
      ∀ block voter proposalId support votes reason s',
        s.handleVoteCast block voter proposalId support votes reason = some s' →
        ∃ vote, s'.votes.load (voter, proposalId) = some vote ∧
          vote.nouns = (s.delegate voter).nounsRepresented := by
  have hsame := sameHolders_of_indexed hindexed
  rw [hevents] at hsame
  have hdelegations := (delegationsIndexed_of_reachable h hself).of_same hsame
  refine ⟨fun d hd => ⟨hdelegations.distinct d hd, fun tokenId => ?_⟩,
    fun block voter proposalId support votes reason s' => handleVoteCast_nouns⟩
  rw [hdelegations.represented d hd]
  refine ⟨fun hdelegate => ⟨fun hzero => ?_, hdelegate⟩, And.right⟩
  rw [hzero, hdelegations.zero] at hdelegate
  exact hd hdelegate.symm

/-- The minter (7) mints Noun 1 and delegates to 5, which represents it. -/
theorem delegations_mirrored_after_delegation :
    ∃ n : Clocked NounsToken,
      Reachable NounsToken.Deployed
        (NounsToken.NextDelegating Crypto.transparent Representable) n ∧
      n.token.delegates 7 = 5 ∧ ((tokenIndexed n.token.log).delegate 5).nounsRepresented = [1] ∧
      MirrorsDelegations (tokenIndexed n.token.log) n.token.toToken := by
  have h₀ : Reachable NounsToken.Deployed
      (NounsToken.NextDelegating Crypto.transparent Representable) ⟨1, 1, NounsToken.deploy 9 8 7⟩ :=
    .start ⟨9, 8, 7, rfl⟩
  have h₁ := h₀.step (.call (fun _ => 0) (fun _ => .ok ()) ⟨7, by decide⟩ .mint nofun rfl)
  have h₂ := h₁.step (.call (fun _ => 0) (fun _ => .ok ()) ⟨7, by decide⟩ (.delegate 5) (by
    intro delegator delegatee hdelegating
    cases hdelegating
    exact ⟨by decide, by decide⟩) rfl)
  refine ⟨_, h₂, rfl, by decide, ?_⟩
  exact (delegations_mirrored h₂ (by decide) (indexed_tokenEvents _).1 (indexed_tokenEvents _).2).1

/-- The minter (7) mints Noun 1 and delegates to itself, as it does already: it represents Noun 1
twice. -/
theorem delegations_not_mirrored_after_redelegation :
    ∃ n : Clocked NounsToken,
      Reachable NounsToken.Deployed (NounsToken.Next Crypto.transparent fun _ _ => True) n ∧
      NoSelfTransfer n.token.log ∧ n.token.balances 7 = 1 ∧ n.token.delegates 7 = 7 ∧
      ((tokenIndexed n.token.log).delegate 7).nounsRepresented = [1, 1] ∧
      ∃ events s, tokenEvents events = n.token.log ∧ indexed events = some s ∧
        ¬ MirrorsDelegations s n.token.toToken := by
  have h₀ : Reachable NounsToken.Deployed (NounsToken.Next Crypto.transparent fun _ _ => True)
      ⟨1, 1, NounsToken.deploy 9 8 7⟩ := .start ⟨9, 8, 7, rfl⟩
  have h₁ := h₀.step (.call (fun _ => 0) (fun _ => .ok ()) ⟨7, by decide⟩ .mint trivial rfl)
  have h₂ := h₁.step (.call (fun _ => 0) (fun _ => .ok ()) ⟨7, by decide⟩ (.delegate 7) trivial rfl)
  refine ⟨_, h₂, by decide, rfl, rfl, by decide, _, _, (indexed_tokenEvents _).1,
    (indexed_tokenEvents _).2, ?_⟩
  intro hmirror
  have hdistinct := (hmirror 7 (by decide)).1
  revert hdistinct
  decide

end Nouns.Subgraph

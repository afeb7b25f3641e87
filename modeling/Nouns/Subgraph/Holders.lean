import Nouns.Subgraph.Frames
import Nouns.Token.Logs

/-!
# Holders — the indexed holders and the chain

A transfer from an account to itself is the one event that `handleTransfer` gets wrong: the copy of
the receiver was loaded before the sender was saved.  From then on the indexed balance is one too
high.  The zero address is credited with every burn, and counted as a holder at the first.
-/

open EntityStore EntityStore.Table Transition Relation

namespace Nouns.Subgraph

open Token

/-- The store after these events of the token, of which the latest comes first. -/
def tokenIndexed : List TokenEvent → Store
  | [] => Store.empty
  | e :: log => (tokenIndexed log).handleTokenEvent e

namespace Store

variable {s s' s₁ : Store}

/-! ## Quiet events -/

/-- The two stores agree on holders and on the Nouns that delegates represent. -/
structure SameHolders (s s' : Store) : Prop where
  account : ∀ a, s'.account a = s.account a
  nouns : s'.nouns = s.nouns
  represented : ∀ d, (s'.delegate d).nounsRepresented = (s.delegate d).nounsRepresented
  totalTokenHolders :
    s'.getGovernanceEntity.totalTokenHolders = s.getGovernanceEntity.totalTokenHolders
  currentTokenHolders :
    s'.getGovernanceEntity.currentTokenHolders = s.getGovernanceEntity.currentTokenHolders

theorem SameHolders.refl (s : Store) : SameHolders s s :=
  ⟨fun _ => rfl, rfl, fun _ => rfl, rfl, rfl⟩

theorem SameHolders.trans (h : SameHolders s s₁) (h' : SameHolders s₁ s') : SameHolders s s' where
  account := fun a => (h'.account a).trans (h.account a)
  nouns := h'.nouns.trans h.nouns
  represented := fun d => (h'.represented d).trans (h.represented d)
  totalTokenHolders := h'.totalTokenHolders.trans h.totalTokenHolders
  currentTokenHolders := h'.currentTokenHolders.trans h.currentTokenHolders

theorem handleDelegateVotesChanged_same (delegate : Address) (previousBalance newBalance : Nat) :
    SameHolders s (s.handleDelegateVotesChanged delegate previousBalance newBalance) := by
  refine ⟨fun a => ?_, ?_, fun d => ?_, ?_, ?_⟩
  · simp only [handleDelegateVotesChanged, getOrCreateDelegate_eq, account, saveGovernance,
      saveDelegate, countDelegate_accounts]
  · simp only [handleDelegateVotesChanged, getOrCreateDelegate_eq, saveGovernance, saveDelegate,
      countDelegate_nouns]
  · simp only [handleDelegateVotesChanged, getOrCreateDelegate_eq, Store.delegate, saveGovernance,
      saveDelegate, countDelegate_delegates, save_save, get_save]
    by_cases hd : d = delegate
    · rw [if_pos hd, hd]
    · rw [if_neg hd]
  · simp only [handleDelegateVotesChanged, getGovernanceEntity, saveGovernance, Option.getD_some]
    split_ifs <;> rfl
  · simp only [handleDelegateVotesChanged, getGovernanceEntity, saveGovernance, Option.getD_some]
    split_ifs <;> rfl

theorem handleTokenEvent_same {e : TokenEvent} (he : Quiet e) : SameHolders s (s.handleTokenEvent e) := by
  cases e with
  | Transfer from_ to_ tokenId => exact he.elim
  | DelegateChanged delegator fromDelegate toDelegate => exact he.elim
  | DelegateVotesChanged delegate previousBalance newBalance =>
    exact handleDelegateVotesChanged_same delegate previousBalance newBalance
  | _ => exact .refl s

end Store

open Store

theorem sameHolders_of_quiet {t t' : Token} (h : QuietlyLogged t t') :
    SameHolders (tokenIndexed t.log) (tokenIndexed t'.log) := by
  obtain ⟨quiet, hquiet, hlog⟩ := h
  rw [hlog]
  clear hlog
  induction quiet with
  | nil => exact .refl _
  | cons e quiet ih =>
    rw [List.forall_mem_cons] at hquiet
    exact (ih hquiet.2).trans (handleTokenEvent_same hquiet.1)

/-! ## Balances -/

/-- A transfer of `a` to itself. -/
def isSelfTransfer (a : Address) : TokenEvent → Bool
  | .Transfer from_ to_ _ => from_ = a ∧ to_ = a
  | _ => false

/-- How often `a` transferred a Noun to itself. -/
def selfTransfers (a : Address) (log : List TokenEvent) : Nat := log.countP (isSelfTransfer a)

theorem selfTransfers_eq_zero {a : Address} {log : List TokenEvent} :
    selfTransfers a log = 0 ↔ ∀ tokenId, .Transfer a a tokenId ∉ log := by
  rw [selfTransfers, List.countP_eq_zero]
  constructor
  · intro h tokenId hmem
    exact h _ hmem (by simp [isSelfTransfer])
  · intro h e he hself
    cases e with
    | Transfer from_ to_ tokenId =>
      simp only [isSelfTransfer, decide_eq_true_eq] at hself
      obtain ⟨rfl, rfl⟩ := hself
      exact h tokenId he
    | _ => simp [isSelfTransfer] at hself

theorem selfTransfers_quiet {t t' : Token} (h : QuietlyLogged t t') (a : Address) :
    selfTransfers a t'.log = selfTransfers a t.log := by
  obtain ⟨quiet, hquiet, hlog⟩ := h
  have hnone : quiet.countP (isSelfTransfer a) = 0 := by
    rw [List.countP_eq_zero]
    intro e he hself
    have hq := hquiet e he
    cases e with
    | Transfer from_ to_ tokenId => exact hq
    | _ => simp [isSelfTransfer] at hself
  rw [selfTransfers, hlog, List.countP_append, hnone, Nat.zero_add, selfTransfers]

theorem selfTransfers_transfer (a from_ to_ : Address) (tokenId : Nat) (log : List TokenEvent) :
    selfTransfers a (.Transfer from_ to_ tokenId :: log) =
      selfTransfers a log + if from_ = a ∧ to_ = a then 1 else 0 := by
  rw [selfTransfers, List.countP_cons, selfTransfers]
  simp [isSelfTransfer]

/-- What a transfer does to the balance of an account other than the zero address. -/
theorem Store.handleTransfer_balance {s : Store} {a : Address} (ha : a ≠ 0) (from_ to_ : Address)
    (tokenId : Nat) :
    ((s.handleTransfer from_ to_ tokenId).account a).tokenBalanceRaw +
        (if from_ = a then 1 else 0 : Nat) =
      (s.account a).tokenBalanceRaw + (if to_ = a then 1 else 0 : Nat) +
        (if from_ = a ∧ to_ = a then 1 else 0 : Nat) := by
  rw [handleTransfer_account]
  by_cases hto : to_ = a
  · subst hto
    simp [credited]
  · by_cases hfrom : from_ = a
    · subst hfrom
      simp [Ne.symm hto, hto, ha, debited]
    · simp [Ne.symm hto, hto, hfrom, Ne.symm hfrom]

/-- The indexed balance is the balance and the transfers to itself. -/
def BalancesIndexed (t : Token) : Prop :=
  ∀ a, a ≠ 0 → ((tokenIndexed t.log).account a).tokenBalanceRaw =
    t.balances a + selfTransfers a t.log

theorem LedgerStep.balancesIndexed {ok : Token → Address → Address → Prop} {now : Nat}
    {t t' : Token} (hstep : LedgerStep ok now t t') (h : BalancesIndexed t) : BalancesIndexed t' := by
  intro a ha
  have hbefore := h a ha
  cases hstep with
  | mint creator to_ tokenId t₁ hmoved hquiet hlog =>
    have hsame := (sameHolders_of_quiet hquiet).account a
    have hself := selfTransfers_quiet hquiet a
    have hbalance := hmoved.balances a ha
    have h₁ := handleTransfer_balance (s := tokenIndexed t₁.log) ha 0 creator tokenId
    have h₂ := handleTransfer_balance
      (s := (tokenIndexed t₁.log).handleTransfer 0 creator tokenId) ha creator to_ tokenId
    have hzero : ∀ b : Address, ¬ (0 = a ∧ b = a) := fun b h => ha h.1.symm
    rw [if_neg ha.symm] at hbalance
    rw [if_neg ha.symm, if_neg (hzero creator), hsame, hbefore] at h₁
    rw [hlog, selfTransfers_transfer, selfTransfers_transfer, hself, if_neg (hzero creator)]
    change (((tokenIndexed t₁.log).handleTransfer 0 creator tokenId).handleTransfer creator to_
      tokenId |>.account a).tokenBalanceRaw = _
    omega
  | move from_ to_ tokenId t₁ _ hmoved hquiet hlog =>
    have hsame := (sameHolders_of_quiet hquiet).account a
    have hself := selfTransfers_quiet hquiet a
    have hbalance := hmoved.balances a ha
    have h₁ := handleTransfer_balance (s := tokenIndexed t₁.log) ha from_ to_ tokenId
    rw [hsame, hbefore] at h₁
    rw [hlog, selfTransfers_transfer, hself]
    change ((tokenIndexed t₁.log).handleTransfer from_ to_ tokenId |>.account a).tokenBalanceRaw = _
    omega
  | delegate delegator delegatee t₁ _ _ hdelegated hquiet hlog =>
    have hchanged : ((tokenIndexed t₁.log).account a).tokenBalanceRaw =
        ((tokenIndexed t.log).account a).tokenBalanceRaw := by
      rw [hlog]
      refine (congrArg Account.tokenBalanceRaw (handleDelegateChanged_account ..)).trans ?_
      by_cases hd : a = delegator
      · rw [if_pos hd, hd]
      · rw [if_neg hd]
    have hself : selfTransfers a t₁.log = selfTransfers a t.log := by
      rw [hlog, selfTransfers, List.countP_cons]
      simp [isSelfTransfer, selfTransfers]
    rw [(sameHolders_of_quiet hquiet).account a, hchanged, hbefore, hdelegated.balances,
      selfTransfers_quiet hquiet, hself]
  | quiet _ hbalances _ _ _ hquiet =>
    rw [(sameHolders_of_quiet hquiet).account a, hbefore, hbalances, selfTransfers_quiet hquiet]

/-! ## Lists of Nouns -/

/-- The lists of Nouns and the owners of Nouns are those of the ledger. -/
structure NounsIndexed (owners : Nat → Address) (s : Store) : Prop where
  nodup : ∀ a, a ≠ 0 → (s.account a).nouns.Nodup
  nouns : ∀ a, a ≠ 0 → ∀ tokenId, tokenId ∈ (s.account a).nouns ↔ owners tokenId = a
  owner : ∀ tokenId noun, s.nouns.load tokenId = some noun → noun.owner = owners tokenId
  existing : ∀ tokenId, owners tokenId ≠ 0 → s.nouns.load tokenId ≠ none

theorem NounsIndexed.of_same {owners : Nat → Address} {s s' : Store} (h : NounsIndexed owners s)
    (hsame : SameHolders s s') : NounsIndexed owners s' where
  nodup := fun a ha => by rw [hsame.account a]; exact h.nodup a ha
  nouns := fun a ha => by rw [hsame.account a]; exact h.nouns a ha
  owner := by rw [hsame.nouns]; exact h.owner
  existing := by rw [hsame.nouns]; exact h.existing

theorem NounsIndexed.transfer {owners : Nat → Address} {s : Store} (h : NounsIndexed owners s)
    {from_ to_ : Address} {tokenId : Nat} (howner : owners tokenId = from_)
    (hself : from_ = to_ → from_ = 0) :
    NounsIndexed (Function.update owners tokenId to_) (s.handleTransfer from_ to_ tokenId) := by
  -- The receiver did not hold the Noun before.
  have hnew : ∀ a, a ≠ 0 → a = to_ → tokenId ∉ (s.account a).nouns := by
    intro a ha hto hmem
    have hfrom : from_ = a := howner ▸ (h.nouns a ha tokenId).mp hmem
    exact ha (hfrom ▸ hself (hfrom.trans hto))
  refine ⟨fun a ha => ?_, fun a ha id => ?_, fun id noun hload => ?_, fun id hne => ?_⟩
  · rw [handleTransfer_account]
    by_cases hto : a = to_
    · rw [if_pos hto, credited, List.nodup_append]
      refine ⟨hto ▸ h.nodup a ha, List.nodup_singleton tokenId, ?_⟩
      intro id hid id' hid' heq
      rw [List.mem_singleton] at hid'
      exact hnew a ha hto (hto ▸ heq.trans hid' ▸ hid)
    · rw [if_neg hto]
      split
      · rename_i hfrom
        exact hfrom.1 ▸ (h.nodup a ha).filter _
      · exact h.nodup a ha
  · rw [handleTransfer_account]
    by_cases hid : id = tokenId
    · subst hid
      rw [Function.update_self]
      by_cases hto : a = to_
      · rw [if_pos hto, credited]
        simp [hto]
      · rw [if_neg hto]
        split
        · simp [debited, Ne.symm hto]
        · rename_i hfrom
          have hne : owners id ≠ a := by
            rw [howner]
            exact fun heq => hfrom ⟨heq.symm, heq.symm ▸ ha⟩
          simp [h.nouns a ha, hne, Ne.symm hto]
    · rw [Function.update_of_ne hid, ← h.nouns a ha]
      by_cases hto : a = to_
      · rw [if_pos hto, credited, hto]
        simp [hid]
      · rw [if_neg hto]
        split
        · rename_i hfrom
          rw [hfrom.1]
          simp [debited, hid]
        · rfl
  · rw [handleTransfer_nouns, load_save] at hload
    by_cases hid : id = tokenId
    · rw [if_pos hid] at hload
      rw [← Option.some.inj hload, hid, Function.update_self]
    · rw [if_neg hid] at hload
      rw [Function.update_of_ne hid]
      exact h.owner id noun hload
  · rw [handleTransfer_nouns, load_save]
    by_cases hid : id = tokenId
    · rw [if_pos hid]
      exact Option.some_ne_none _
    · rw [if_neg hid]
      rw [Function.update_of_ne hid] at hne
      exact h.existing id hne

theorem NounsIndexed.delegate {owners : Nat → Address} {s : Store} (h : NounsIndexed owners s)
    (delegator fromDelegate toDelegate : Address) :
    NounsIndexed owners (s.handleDelegateChanged delegator fromDelegate toDelegate) := by
  have hnouns : ∀ a, ((s.handleDelegateChanged delegator fromDelegate toDelegate).account a).nouns =
      (s.account a).nouns := by
    intro a
    rw [handleDelegateChanged_account]
    by_cases ha : a = delegator
    · rw [if_pos ha, ha]
    · rw [if_neg ha]
  refine ⟨fun a ha => ?_, fun a ha => ?_, ?_, ?_⟩
  · rw [hnouns]
    exact h.nodup a ha
  · rw [hnouns]
    exact h.nouns a ha
  · rw [handleDelegateChanged_nouns]
    exact h.owner
  · rw [handleDelegateChanged_nouns]
    exact h.existing

/-- No account other than the zero address transferred a Noun to itself. -/
def NoSelfTransfer (log : List TokenEvent) : Prop :=
  ∀ a tokenId, a ≠ 0 → .Transfer a a tokenId ∉ log

/-- The event is not a transfer of an account to itself. -/
def differentHolders : TokenEvent → Bool
  | .Transfer from_ to_ _ => from_ = to_ → from_ = 0
  | _ => true

instance (log : List TokenEvent) : Decidable (NoSelfTransfer log) :=
  decidable_of_iff (∀ e ∈ log, differentHolders e = true) <| by
    constructor
    · intro h a tokenId ha hmem
      have hdifferent := h _ hmem
      simp only [differentHolders, decide_eq_true_eq] at hdifferent
      exact ha (hdifferent trivial)
    · intro h e he
      cases e with
      | Transfer from_ to_ tokenId =>
        simp only [differentHolders, decide_eq_true_eq]
        rintro rfl
        by_contra hne
        exact h from_ tokenId hne he
      | _ => rfl

theorem NoSelfTransfer.older (new : List TokenEvent) {log : List TokenEvent}
    (h : NoSelfTransfer (new ++ log)) : NoSelfTransfer log :=
  fun a tokenId ha hmem => h a tokenId ha (List.mem_append_right new hmem)

theorem NoSelfTransfer.quietly {t t' : Token} (h : NoSelfTransfer t'.log)
    (hquiet : QuietlyLogged t t') : NoSelfTransfer t.log := by
  obtain ⟨quiet, -, hlog⟩ := hquiet
  rw [hlog] at h
  exact h.older quiet

/-- The lists of Nouns stay right as long as nobody transfers to itself. -/
theorem LedgerStep.nounsIndexed {ok : Token → Address → Address → Prop} {now : Nat} {t t' : Token}
    (hstep : LedgerStep ok now t t')
    (h : NoSelfTransfer t.log → NounsIndexed t.owners (tokenIndexed t.log))
    (hself : NoSelfTransfer t'.log) : NounsIndexed t'.owners (tokenIndexed t'.log) := by
  cases hstep with
  | mint creator to_ tokenId t₁ hmoved hquiet hlog =>
    rw [hlog] at hself ⊢
    have h₁ := (h ((hself.older [_, _]).quietly hquiet)).of_same
      (sameHolders_of_quiet hquiet)
    have hself₂ : creator = to_ → creator = 0 := by
      rintro rfl
      by_contra hne
      exact hself creator tokenId hne List.mem_cons_self
    have h₂ : NounsIndexed (Function.update t.owners tokenId creator)
        ((tokenIndexed t₁.log).handleTransfer 0 creator tokenId) :=
      h₁.transfer hmoved.owner (fun _ => rfl)
    have h₃ := h₂.transfer (Function.update_self tokenId creator t.owners) hself₂
    rw [Function.update_idem] at h₃
    rw [hmoved.owners]
    exact h₃
  | move from_ to_ tokenId t₁ _ hmoved hquiet hlog =>
    rw [hlog] at hself ⊢
    have h₁ := (h ((hself.older [_]).quietly hquiet)).of_same (sameHolders_of_quiet hquiet)
    have hself₂ : from_ = to_ → from_ = 0 := by
      rintro rfl
      by_contra hne
      exact hself from_ tokenId hne List.mem_cons_self
    rw [hmoved.owners]
    exact h₁.transfer hmoved.owner hself₂
  | delegate delegator delegatee t₁ _ _ hdelegated hquiet hlog =>
    have hself₁ := hself.quietly hquiet
    rw [hlog] at hself₁
    have h₁ := (h (hself₁.older [_])).delegate delegator (t.delegates delegator) delegatee
    rw [hdelegated.owners]
    refine NounsIndexed.of_same ?_ (sameHolders_of_quiet hquiet)
    rw [hlog]
    exact h₁
  | quiet howners _ _ _ _ hquiet =>
    rw [howners]
    exact (h (hself.quietly hquiet)).of_same (sameHolders_of_quiet hquiet)

/-! ## Other events in between -/

theorem Store.SameHolders.symm {s s' : Store} (h : SameHolders s s') : SameHolders s' s where
  account := fun a => (h.account a).symm
  nouns := h.nouns.symm
  represented := fun d => (h.represented d).symm
  totalTokenHolders := h.totalTokenHolders.symm
  currentTokenHolders := h.currentTokenHolders.symm

theorem Store.SameHolders.handleTransfer {s s' : Store} (h : SameHolders s s')
    (from_ to_ : Address) (tokenId : Nat) :
    SameHolders (s.handleTransfer from_ to_ tokenId) (s'.handleTransfer from_ to_ tokenId) := by
  have hwithout : ∀ d, (s'.withoutNoun from_ tokenId d).nounsRepresented =
      (s.withoutNoun from_ tokenId d).nounsRepresented := by
    intro d
    unfold withoutNoun
    rw [h.account]
    split
    · simp only [h.represented]
    · exact h.represented d
  refine ⟨fun a => ?_, ?_, fun d => ?_, ?_, ?_⟩
  · rw [handleTransfer_account, handleTransfer_account, h.account, h.account, h.account]
  · rw [handleTransfer_nouns, handleTransfer_nouns, h.nouns]
  · rw [handleTransfer_delegate, handleTransfer_delegate, h.account]
    split
    · simp only [hwithout]
    · exact hwithout d
  · rw [handleTransfer_totalTokenHolders, handleTransfer_totalTokenHolders, h.totalTokenHolders]
  · rw [handleTransfer_currentTokenHolders, handleTransfer_currentTokenHolders,
      h.currentTokenHolders, h.account, h.account]

theorem Store.SameHolders.handleDelegateChanged {s s' : Store} (h : SameHolders s s')
    (delegator fromDelegate toDelegate : Address) :
    SameHolders (s.handleDelegateChanged delegator fromDelegate toDelegate)
      (s'.handleDelegateChanged delegator fromDelegate toDelegate) := by
  refine ⟨fun a => ?_, ?_, fun d => ?_, ?_, ?_⟩
  · rw [handleDelegateChanged_account, handleDelegateChanged_account, h.account, h.account]
  · rw [handleDelegateChanged_nouns, handleDelegateChanged_nouns, h.nouns]
  · rw [handleDelegateChanged_delegate, handleDelegateChanged_delegate, h.account]
    split
    · simp only [h.represented]
    · split
      · simp only [h.represented]
      · exact h.represented d
  · rw [handleDelegateChanged_totalTokenHolders, handleDelegateChanged_totalTokenHolders,
      h.totalTokenHolders]
  · rw [handleDelegateChanged_currentTokenHolders, handleDelegateChanged_currentTokenHolders,
      h.currentTokenHolders]

theorem Store.SameHolders.handleTokenEvent {s s' : Store} (h : SameHolders s s') (e : TokenEvent) :
    SameHolders (s.handleTokenEvent e) (s'.handleTokenEvent e) := by
  cases e with
  | Transfer from_ to_ tokenId => exact h.handleTransfer from_ to_ tokenId
  | DelegateChanged delegator fromDelegate toDelegate =>
    exact h.handleDelegateChanged delegator fromDelegate toDelegate
  | DelegateVotesChanged delegate previousBalance newBalance =>
    exact ((handleDelegateVotesChanged_same delegate previousBalance newBalance).symm.trans h).trans
      (handleDelegateVotesChanged_same delegate previousBalance newBalance)
  | _ => exact h

theorem Store.LeavesToken.sameHolders {s s' : Store} (h : LeavesToken s s') : SameHolders s s' where
  account := fun a => by rw [account, h.accounts, account]
  nouns := h.nouns
  represented := fun d => by rw [h.delegate]
  totalTokenHolders := h.totalTokenHolders
  currentTokenHolders := h.currentTokenHolders

/-- Holders depend on the events of the token alone. -/
theorem sameHolders_of_indexed {events : List Event} {s : Store} (h : indexed events = some s) :
    SameHolders (tokenIndexed (tokenEvents events)) s := by
  induction events generalizing s with
  | nil =>
    rw [← Option.some.inj h]
    exact .refl _
  | cons e events ih =>
    obtain ⟨s₁, h₁, h⟩ := Option.bind_eq_some_iff.mp h
    cases e with
    | token e =>
      rw [← Option.some.inj h]
      exact (ih h₁).handleTokenEvent e
    | dao block e => exact (ih h₁).trans (handleDAOEvent_leavesToken h).sameHolders
    | proposalCreatedV1 block id proposer txs startBlock endBlock proposalThreshold quorumVotes =>
      rw [← Option.some.inj h]
      exact (ih h₁).trans (handleProposalCreated_leavesToken s₁ _).sameHolders

/-! ## Holders over whole runs -/

/-- The indexed holders are those of the token.  A Noun that was burned keeps an entity, whose owner
is the zero address. -/
structure MirrorsHolders (s : Store) (t : Token) : Prop where
  balance : ∀ a, a ≠ 0 → (s.account a).tokenBalanceRaw = t.balances a
  nouns : NounsIndexed t.owners s

variable {H : Type} {c : Crypto H} {n : Clocked NounsToken}
  {admits : NounsToken → NounsTokenCall → Prop}

theorem balancesIndexed_of_reachable (h : Reachable NounsToken.Deployed (NounsToken.Next c admits) n) :
    BalancesIndexed n.token.toToken := by
  refine NounsToken.ledger_invariant h ?_ (fun now t t' ht hstep => LedgerStep.balancesIndexed hstep ht)
  intro a _
  rfl

theorem nounsIndexed_of_reachable (h : Reachable NounsToken.Deployed (NounsToken.Next c admits) n)
    (hself : NoSelfTransfer n.token.log) :
    NounsIndexed n.token.owners (tokenIndexed n.token.log) := by
  revert hself
  refine NounsToken.ledger_invariant
    (P := fun t => NoSelfTransfer t.log → NounsIndexed t.owners (tokenIndexed t.log)) h ?_
    (fun now t t' ht hstep => LedgerStep.nounsIndexed hstep ht)
  intro _
  refine ⟨fun a _ => List.nodup_nil, fun a ha tokenId => ?_, nofun, fun tokenId hne => absurd rfl hne⟩
  exact iff_of_false List.not_mem_nil (fun heq => ha heq.symm)

/-- In every state of a run, with any other events in between, the indexed holders are those of the
token if and only if no account transferred a Noun to itself so far, in a transfer or as the owner of
the token that a Noun is minted to. -/
theorem holders_mirrored_iff
    (h : Reachable NounsToken.Deployed (NounsToken.Next c fun _ _ => True) n) {events : List Event}
    (hevents : tokenEvents events = n.token.log) {s : Store} (hindexed : indexed events = some s) :
    MirrorsHolders s n.token.toToken ↔ NoSelfTransfer n.token.log := by
  have hsame := sameHolders_of_indexed hindexed
  rw [hevents] at hsame
  have hbalances := balancesIndexed_of_reachable h
  constructor
  · intro hmirror a tokenId ha
    have hbalance := hbalances a ha
    rw [← hsame.account, hmirror.balance a ha] at hbalance
    have hnone : selfTransfers a n.token.log = 0 := by omega
    exact selfTransfers_eq_zero.mp hnone tokenId
  · intro hself
    refine ⟨fun a ha => ?_, (nounsIndexed_of_reachable h hself).of_same hsame⟩
    have hnone : selfTransfers a n.token.log = 0 :=
      selfTransfers_eq_zero.mpr fun tokenId => hself a tokenId ha
    rw [hsame.account, hbalances a ha, hnone]
    rfl

/-- The events of the token alone. -/
theorem indexed_tokenEvents (log : List TokenEvent) :
    tokenEvents (log.map .token) = log ∧ indexed (log.map .token) = some (tokenIndexed log) := by
  induction log with
  | nil => exact ⟨rfl, rfl⟩
  | cons e log ih =>
    refine ⟨?_, ?_⟩
    · rw [List.map_cons]
      exact congrArg (e :: ·) ih.1
    · rw [List.map_cons, indexed, ih.2]
      rfl

/-- The minter (7) mints Nouns 0 (to the founders, 8) and 1 and passes its own to 8. -/
theorem holders_mirrored_after_transfer :
    ∃ n : Clocked NounsToken,
      Reachable NounsToken.Deployed (NounsToken.Next Crypto.transparent fun _ _ => True) n ∧
      n.token.balances 8 = 2 ∧ MirrorsHolders (tokenIndexed n.token.log) n.token.toToken := by
  have h₀ : Reachable NounsToken.Deployed (NounsToken.Next Crypto.transparent fun _ _ => True)
      ⟨1, 1, NounsToken.deploy 9 8 7⟩ := .start ⟨9, 8, 7, rfl⟩
  have h₁ := h₀.step (.call (fun _ => 0) (fun _ => .ok ()) ⟨7, by decide⟩ .mint trivial rfl)
  have h₂ := h₁.step (.call (fun _ => 0) (fun _ => .ok ()) ⟨7, by decide⟩ (.transferFrom 7 8 1)
    trivial rfl)
  refine ⟨_, h₂, rfl, ?_⟩
  refine (holders_mirrored_iff h₂ (indexed_tokenEvents _).1 (indexed_tokenEvents _).2).mpr ?_
  decide

/-- The minter (7) mints Noun 1 and transfers it to itself: its indexed balance is 2. -/
theorem holders_not_mirrored_after_self_transfer :
    ∃ n : Clocked NounsToken,
      Reachable NounsToken.Deployed (NounsToken.Next Crypto.transparent fun _ _ => True) n ∧
      n.token.balances 7 = 1 ∧ ((tokenIndexed n.token.log).account 7).tokenBalanceRaw = 2 ∧
      ((tokenIndexed n.token.log).account 7).nouns = [1, 1] ∧
      ∃ events s, tokenEvents events = n.token.log ∧ indexed events = some s ∧
        ¬ MirrorsHolders s n.token.toToken := by
  have h₀ : Reachable NounsToken.Deployed (NounsToken.Next Crypto.transparent fun _ _ => True)
      ⟨1, 1, NounsToken.deploy 9 8 7⟩ := .start ⟨9, 8, 7, rfl⟩
  have h₁ := h₀.step (.call (fun _ => 0) (fun _ => .ok ()) ⟨7, by decide⟩ .mint trivial rfl)
  have h₂ := h₁.step (.call (fun _ => 0) (fun _ => .ok ()) ⟨7, by decide⟩ (.transferFrom 7 7 1)
    trivial rfl)
  refine ⟨_, h₂, rfl, by decide, by decide, _, _, (indexed_tokenEvents _).1,
    (indexed_tokenEvents _).2, ?_⟩
  intro hmirror
  have hbalance := hmirror.balance 7 (by decide)
  revert hbalance
  decide

end Nouns.Subgraph

import Nouns.Fork.Ballots
import Nouns.Governance.Genesis
import Nouns.Governance.Refinement
import Nouns.Lib.Transition

/-!
# QueueIntegrity — the actions of a queued proposal of a fork DAO

`cancel` refuses executed proposals only.  A proposal that is canceled again withdraws entries it
gave up before, and which another proposal may have taken since.  As long as that does not happen,
every queued proposal has its entries on the timelock, and for itself.
-/

open Fallible Transition

namespace Nouns

variable {H : Type}

/-- A loop that returns has read every action. -/
theorem ProposalTxs.forEachAction_reads {σ : Type} {txs : ProposalTxs} {eta : Nat}
    {f : σ → Transaction → Tx σ} {s s' : σ} (h : txs.forEachAction eta f s = .ok s') :
    ∀ i < txs.targets.length, ∃ tx, txs.action eta i = .ok tx := by
  intro i hi
  unfold forEachAction at h
  have hmem : i ∈ List.range txs.targets.length := List.mem_range.mpr hi
  generalize List.range txs.targets.length = l at h hmem
  induction l generalizing s with
  | nil => cases hmem
  | cons j l ih =>
    rw [List.foldlM_cons, bind_eq_ok] at h
    obtain ⟨s₁, h₁, hrest⟩ := h
    obtain ⟨tx, htx, -⟩ := bind_eq_ok.mp h₁
    rcases List.mem_cons.mp hmem with rfl | hmem
    · exact ⟨tx, htx⟩
    · exact ih hrest hmem

/-! ## States of a proposal -/

/-- The vote is over and was won. -/
structure ForkProposal.Won (p : ForkProposal) (now : Nat) : Prop where
  start : p.startBlock < now
  end_ : p.endBlock < now
  votes : ¬ (p.forVotes ≤ p.againstVotes ∨ p.forVotes < p.quorumVotes)

theorem ForkProposal.Won.mono {p : ForkProposal} {now now' : Nat} (h : p.Won now)
    (hle : now ≤ now') : p.Won now' :=
  ⟨Nat.lt_of_lt_of_le h.start hle, Nat.lt_of_lt_of_le h.end_ hle, h.votes⟩

/-- The proposal was queued and not canceled since. -/
structure ForkProposal.Holding (p : ForkProposal) : Prop where
  eta : p.eta ≠ 0
  canceled : p.canceled = false

/-- What was queued is as before. -/
structure ForkProposal.SameQueued (p p' : ForkProposal) : Prop where
  queued : p.eta ≠ 0 → p' = p
  other : p.eta = 0 → p'.eta = 0 ∧ (p.executed = false → p'.executed = false)

theorem ForkProposal.SameQueued.refl (p : ForkProposal) : SameQueued p p :=
  ⟨fun _ => rfl, fun h => ⟨h, fun hnot => hnot⟩⟩

namespace StorageV1Fork

variable {env : ForkEnv H} {ds : StorageV1Fork} {id : Nat}

def actions (ds : StorageV1Fork) (id : Nat) : List Transaction :=
  (ds.proposals id).actions (ds.proposals id).eta

theorem eta_of_mem {tx : Transaction} (h : tx ∈ ds.actions id) : tx.eta = (ds.proposals id).eta :=
  ProposalTxs.eta_of_mem_actions h

theorem state_queued (h : ds.state env id = .ok .Queued) :
    id ≤ ds.proposalCount ∧ (ds.proposals id).Holding ∧ (ds.proposals id).executed = false ∧
      env.timestamp < (ds.proposals id).eta + ExecutorVersion.NounsDAOExecutorV2.GRACE_PERIOD := by
  obtain ⟨hid, h⟩ := state_eq_ok.mp h
  split_ifs at h with hcanceled hstart hend hvotes heta hexecuted htime
  exact ⟨hid, ⟨heta, by simpa using hcanceled⟩, by simpa using hexecuted, Nat.not_le.mp htime⟩

theorem state_succeeded (h : ds.state env id = .ok .Succeeded) :
    id ≤ ds.proposalCount ∧ (ds.proposals id).Won env.blockNumber ∧
      (ds.proposals id).eta = 0 := by
  obtain ⟨hid, h⟩ := state_eq_ok.mp h
  split_ifs at h with hcanceled hstart hend hvotes heta
  exact ⟨hid, ⟨Nat.not_le.mp hstart, Nat.not_le.mp hend, hvotes⟩, heta⟩

theorem state_canceled (hid : id ≤ ds.proposalCount) (h : (ds.proposals id).canceled = true) :
    ds.state env id = .ok .Canceled :=
  state_eq_ok.mpr ⟨hid, if_pos h⟩

/-- Whoever holds its entries and was executed is refused by `cancel`. -/
theorem state_executed (hid : id ≤ ds.proposalCount) (hwon : (ds.proposals id).Won env.blockNumber)
    (hholding : (ds.proposals id).Holding) (h : (ds.proposals id).executed = true) :
    ds.state env id = .ok .Executed := by
  refine state_eq_ok.mpr ⟨hid, ?_⟩
  rw [if_neg (by simp [hholding.canceled]), if_neg (Nat.not_le.mpr hwon.start),
    if_neg (Nat.not_le.mpr hwon.end_), if_neg hwon.votes, if_neg hholding.eta, if_pos h]

theorem state_of_holding (hid : id ≤ ds.proposalCount)
    (hwon : (ds.proposals id).Won env.blockNumber) (hholding : (ds.proposals id).Holding)
    (hnot : (ds.proposals id).executed = false)
    (htime : env.timestamp <
      (ds.proposals id).eta + ExecutorVersion.NounsDAOExecutorV2.GRACE_PERIOD) :
    ds.state env id = .ok .Queued := by
  refine state_eq_ok.mpr ⟨hid, ?_⟩
  rw [if_neg (by simp [hholding.canceled]), if_neg (Nat.not_le.mpr hwon.start),
    if_neg (Nat.not_le.mpr hwon.end_), if_neg hwon.votes, if_neg hholding.eta,
    if_neg (by simp [hnot]), if_neg (Nat.not_le.mpr htime)]

variable [DecidableEq H] {ds' : StorageV1Fork} {e e' : Executor H} {sender : Address}

theorem queueOrRevertInternal_ok {tx : Transaction} (h : queueOrRevertInternal env e tx = .ok e') :
    e.isQueued env.crypto tx = false ∧
      e' = (e.setQueued env.crypto tx true).emit (.QueueTransaction tx) := by
  simp only [queueOrRevertInternal, Executor.queueTransaction, bind_eq_ok, require_eq_ok,
    pure_eq_ok] at h
  obtain ⟨_, hfresh, _, -, _, -, rfl⟩ := h
  exact ⟨hfresh, rfl⟩

theorem queue_ok (h : ds.queue env e id = .ok (ds', e')) :
    ds.state env id = .ok .Succeeded ∧
      (∀ i < (ds.proposals id).targets.length,
        ∃ tx, (ds.proposals id).action (env.timestamp + e.delay) i = .ok tx) ∧
      TxQueue.QueuedAll env.crypto ((ds.proposals id).actions (env.timestamp + e.delay)) e.toQueue
        e'.toQueue ∧
      ds'.proposalCount = ds.proposalCount ∧
      ds'.proposals = Function.update ds.proposals id
        { ds.proposals id with eta := env.timestamp + e.delay } := by
  simp only [queue, bind_eq_ok, require_eq_ok, pure_eq_ok, Prod.mk.injEq] at h
  obtain ⟨_, hstate, _, rfl, e₁, hloop, rfl, rfl⟩ := h
  refine ⟨hstate, ProposalTxs.forEachAction_reads hloop, ?_, rfl, rfl⟩
  exact .of_loop (fun _ _ _ => queueOrRevertInternal_ok) (ProposalTxs.forEachAction_ok hloop)

theorem cancel_ok (h : ds.cancel env e sender id = .ok (ds', e')) :
    (∃ s, ds.state env id = .ok s ∧ s ≠ .Executed) ∧
      TxQueue.CanceledAll env.crypto (ds.actions id) e.toQueue e'.toQueue ∧
      ds'.proposalCount = ds.proposalCount ∧
      ds'.proposals = Function.update ds.proposals id
        { ds.proposals id with canceled := true } := by
  simp only [cancel, bind_eq_ok, require_eq_ok] at h
  obtain ⟨s, hstate, _, hs, h⟩ := h
  refine ⟨⟨s, hstate, hs⟩, ?_⟩
  -- whether or not the votes of the proposer are looked up
  split at h
  · simp only [bind_eq_ok, pure_eq_ok, Prod.mk.injEq] at h
    obtain ⟨_, -, _, -, e₁, hloop, rfl, rfl⟩ := h
    exact ⟨.of_loop (ProposalTxs.forEachAction_ok hloop), rfl, rfl⟩
  · simp only [bind_eq_ok, pure_eq_ok, Prod.mk.injEq] at h
    obtain ⟨e₁, hloop, rfl, rfl⟩ := h
    exact ⟨.of_loop (ProposalTxs.forEachAction_ok hloop), rfl, rfl⟩

end StorageV1Fork

/-! ## The invariant -/

/-- The proposal whose execution waits in this frame. -/
def ForkFrame.executing? (f : ForkFrame) : Option Nat :=
  match f.continuation with
  | .execute proposalId _ _ => some proposalId
  | _ => none

/-- The proposal that is canceled. -/
def ForkAction.cancels? : ForkAction → Option Nat
  | .callDAO _ (.cancel id) => some id
  | _ => none

namespace ForkWorld

variable {d : ForkDeployment H} {w w' : ForkWorld H} {id : Nat}

def executing (w : ForkWorld H) : List Nat := w.frames.filterMap ForkFrame.executing?

/-- Proposals `a` and `b` have no action with its eta in common. -/
def Apart (w : ForkWorld H) (a b : Nat) : Prop := ∀ tx ∈ w.dao.actions a, tx ∉ w.dao.actions b

/-- Queued proposals have their entries, and each for itself. -/
structure Held (d : ForkDeployment H) (w : ForkWorld H) : Prop where
  won : ∀ id, (w.dao.proposals id).eta ≠ 0 →
    id ≤ w.dao.proposalCount ∧ (w.dao.proposals id).Won w.blockNumber
  readable : ∀ id, (w.dao.proposals id).eta ≠ 0 → ∀ i < (w.dao.proposals id).targets.length,
    ∃ tx, (w.dao.proposals id).action (w.dao.proposals id).eta i = .ok tx
  executed : ∀ id, (w.dao.proposals id).executed = true → (w.dao.proposals id).Holding ∧
    ∀ tx ∈ w.dao.actions id, tx.eta ≤ w.timestamp
  marked : ∀ id, (w.dao.proposals id).Holding → (w.dao.proposals id).executed = false →
    w.timestamp < (w.dao.proposals id).eta + ExecutorVersion.NounsDAOExecutorV2.GRACE_PERIOD →
    ∀ tx ∈ w.dao.actions id, w.executor.isQueued d.crypto tx = true
  apart : ∀ a b, a ≠ b → (w.dao.proposals a).Holding → (w.dao.proposals b).Holding → w.Apart a b
  running : ∀ id ∈ w.executing, (w.dao.proposals id).executed = true

/-- Nothing is queued, canceled or executed. -/
structure Quiet (w w' : ForkWorld H) : Prop where
  blockNumber : w.blockNumber ≤ w'.blockNumber
  timestamp : w.timestamp ≤ w'.timestamp
  proposalCount : w.dao.proposalCount ≤ w'.dao.proposalCount
  proposals : ∀ id, (w.dao.proposals id).SameQueued (w'.dao.proposals id)
  queued : w'.executor.queuedTransactions = w.executor.queuedTransactions
  executing : ∀ id ∈ w'.executing, id ∈ w.executing

theorem Quiet.of_same (hblock : w.blockNumber ≤ w'.blockNumber) (htime : w.timestamp ≤ w'.timestamp)
    (hcount : w'.dao.proposalCount = w.dao.proposalCount)
    (hproposals : w'.dao.proposals = w.dao.proposals)
    (hqueued : w'.executor.queuedTransactions = w.executor.queuedTransactions)
    (hexecuting : ∀ id ∈ w'.executing, id ∈ w.executing) : Quiet w w' := by
  refine ⟨hblock, htime, Nat.le_of_eq hcount.symm, ?_, hqueued, hexecuting⟩
  intro id
  rw [hproposals]
  exact .refl _

theorem Held.eta_of_executed (h : w.Held d) (hid : (w.dao.proposals id).executed = true) :
    (w.dao.proposals id).eta ≠ 0 :=
  (h.executed id hid).1.eta

theorem Quiet.held (hq : Quiet w w') (h : w.Held d) : w'.Held d := by
  -- a proposal that has an eta had it before, and is the same
  have hsame : ∀ id, (w'.dao.proposals id).eta ≠ 0 →
      w'.dao.proposals id = w.dao.proposals id ∧ w'.dao.actions id = w.dao.actions id := by
    intro id heta
    have hold : (w.dao.proposals id).eta ≠ 0 := by
      intro hzero
      exact heta ((hq.proposals id).other hzero).1
    have heq := (hq.proposals id).queued hold
    exact ⟨heq, by rw [StorageV1Fork.actions, StorageV1Fork.actions, heq]⟩
  have hexecuted : ∀ id, (w'.dao.proposals id).executed = true →
      (w.dao.proposals id).executed = true ∧ w'.dao.proposals id = w.dao.proposals id := by
    intro id hid
    by_cases heta : (w.dao.proposals id).eta = 0
    · have hnot : (w.dao.proposals id).executed = false := by
        by_contra hexec
        exact h.eta_of_executed (by simpa using hexec) heta
      rw [((hq.proposals id).other heta).2 hnot] at hid
      cases hid
    · have heq := (hq.proposals id).queued heta
      rw [heq] at hid
      exact ⟨hid, heq⟩
  refine ⟨?_, ?_, ?_, ?_, ?_, ?_⟩
  · intro id heta
    obtain ⟨heq, -⟩ := hsame id heta
    rw [heq] at heta ⊢
    obtain ⟨hid, hwon⟩ := h.won id heta
    exact ⟨Nat.le_trans hid hq.proposalCount, hwon.mono hq.blockNumber⟩
  · intro id heta
    obtain ⟨heq, -⟩ := hsame id heta
    rw [heq] at heta ⊢
    exact h.readable id heta
  · intro id hid
    obtain ⟨hold, heq⟩ := hexecuted id hid
    obtain ⟨hholding, hdue⟩ := h.executed id hold
    rw [StorageV1Fork.actions, heq]
    exact ⟨hholding, fun tx htx => Nat.le_trans (hdue tx htx) hq.timestamp⟩
  · intro id hholding hnot htime tx htx
    obtain ⟨heq, hactions⟩ := hsame id hholding.eta
    rw [heq] at hholding hnot htime
    rw [hactions] at htx
    have hmarked := h.marked id hholding hnot (Nat.lt_of_le_of_lt hq.timestamp htime) tx htx
    rw [Executor.isQueued, hq.queued]
    exact hmarked
  · intro a b hne ha hb
    obtain ⟨heqa, hactionsa⟩ := hsame a ha.eta
    obtain ⟨heqb, hactionsb⟩ := hsame b hb.eta
    rw [heqa] at ha
    rw [heqb] at hb
    rw [Apart, hactionsa, hactionsb]
    exact h.apart a b hne ha hb
  · intro id hid
    have hold := h.running id (hq.executing id hid)
    rw [(hq.proposals id).queued (h.eta_of_executed hold)]
    exact hold

/-- Proposal `id` is executed, or its execution goes on; entries of other proposals stay. -/
theorem Held.execute (h : w.Held d) (hid : (w.dao.proposals id).Holding)
    (hblock : w'.blockNumber = w.blockNumber) (htime : w'.timestamp = w.timestamp)
    (hcount : w'.dao.proposalCount = w.dao.proposalCount)
    (hproposals : w'.dao.proposals = Function.update w.dao.proposals id
      { w.dao.proposals id with executed := true })
    (hqueue : ∀ tx, tx ∉ w.dao.actions id →
      w'.executor.isQueued d.crypto tx = w.executor.isQueued d.crypto tx)
    (hexecuting : ∀ x ∈ w'.executing, x = id ∨ x ∈ w.executing)
    (hdue : ∀ tx ∈ w.dao.actions id, tx.eta ≤ w.timestamp) : w'.Held d := by
  have hsame : ∀ b, b ≠ id → w'.dao.proposals b = w.dao.proposals b := by
    intro b hb
    rw [hproposals, Function.update_of_ne hb]
  have hself : w'.dao.proposals id = { w.dao.proposals id with executed := true } := by
    rw [hproposals, Function.update_self]
  have hactions : ∀ b, w'.dao.actions b = w.dao.actions b := by
    intro b
    by_cases hb : b = id
    · rw [hb, StorageV1Fork.actions, hself]
      rfl
    · rw [StorageV1Fork.actions, hsame b hb]
      rfl
  have hholding : ∀ b, (w'.dao.proposals b).Holding → (w.dao.proposals b).Holding := by
    intro b hb
    by_cases hbid : b = id
    · rw [hbid]
      exact hid
    · rwa [hsame b hbid] at hb
  refine ⟨?_, ?_, ?_, ?_, ?_, ?_⟩
  · intro b heta
    rw [hcount, hblock]
    by_cases hb : b = id
    · subst hb
      obtain ⟨hle, hwon⟩ := h.won b hid.eta
      rw [hself]
      exact ⟨hle, hwon.start, hwon.end_, hwon.votes⟩
    · rw [hsame b hb] at heta ⊢
      exact h.won b heta
  · intro b heta
    by_cases hb : b = id
    · subst hb
      rw [hself]
      exact h.readable b hid.eta
    · rw [hsame b hb] at heta ⊢
      exact h.readable b heta
  · intro b hb
    rw [hactions, htime]
    by_cases hbid : b = id
    · subst hbid
      rw [hself]
      exact ⟨⟨hid.eta, hid.canceled⟩, hdue⟩
    · rw [hsame b hbid] at hb ⊢
      exact h.executed b hb
  · intro b hb hnot hlt tx htx
    rw [hactions] at htx
    by_cases hbid : b = id
    · rw [hbid, hself] at hnot
      cases hnot
    · rw [hsame b hbid] at hb hnot hlt
      rw [htime] at hlt
      rw [hqueue tx (h.apart b id hbid hb hid tx htx)]
      exact h.marked b hb hnot hlt tx htx
  · intro a b hne ha hb
    rw [Apart, hactions, hactions]
    exact h.apart a b hne (hholding a ha) (hholding b hb)
  · intro x hx
    rcases hexecuting x hx with rfl | hx
    · rw [hself]
    · by_cases hxid : x = id
      · rw [hxid, hself]
      · rw [hsame x hxid]
        exact h.running x hx

/-- Proposal `id` gives up its entries. -/
theorem Held.cancel (h : w.Held d) (hblock : w'.blockNumber = w.blockNumber)
    (htime : w'.timestamp = w.timestamp) (hcount : w'.dao.proposalCount = w.dao.proposalCount)
    (hnot : (w.dao.proposals id).executed = false)
    (hproposals : w'.dao.proposals = Function.update w.dao.proposals id
      { w.dao.proposals id with canceled := true })
    (hqueue : ∀ tx, tx ∉ w.dao.actions id →
      w'.executor.isQueued d.crypto tx = w.executor.isQueued d.crypto tx)
    (hexecuting : ∀ x ∈ w'.executing, x ∈ w.executing)
    (hapart : ∀ b, b ≠ id → (w.dao.proposals b).Holding → (w.dao.proposals b).executed = false →
      w.timestamp < (w.dao.proposals b).eta + ExecutorVersion.NounsDAOExecutorV2.GRACE_PERIOD →
      w.Apart b id) : w'.Held d := by
  have hsame : ∀ b, b ≠ id → w'.dao.proposals b = w.dao.proposals b := by
    intro b hb
    rw [hproposals, Function.update_of_ne hb]
  have hself : w'.dao.proposals id = { w.dao.proposals id with canceled := true } := by
    rw [hproposals, Function.update_self]
  have hactions : ∀ b, w'.dao.actions b = w.dao.actions b := by
    intro b
    by_cases hb : b = id
    · rw [hb, StorageV1Fork.actions, hself]
      rfl
    · rw [StorageV1Fork.actions, hsame b hb]
      rfl
  -- what holds its entries is another proposal
  have hother : ∀ b, (w'.dao.proposals b).Holding → b ≠ id := by
    rintro b hb rfl
    have hcanceled := hb.canceled
    rw [hself] at hcanceled
    cases hcanceled
  refine ⟨?_, ?_, ?_, ?_, ?_, ?_⟩
  · intro b heta
    rw [hcount, hblock]
    by_cases hb : b = id
    · subst hb
      rw [hself] at heta ⊢
      obtain ⟨hle, hwon⟩ := h.won b heta
      exact ⟨hle, hwon.start, hwon.end_, hwon.votes⟩
    · rw [hsame b hb] at heta ⊢
      exact h.won b heta
  · intro b heta
    by_cases hb : b = id
    · subst hb
      rw [hself] at heta ⊢
      exact h.readable b heta
    · rw [hsame b hb] at heta ⊢
      exact h.readable b heta
  · intro b hb
    rw [hactions, htime]
    by_cases hbid : b = id
    · rw [hbid, hself] at hb
      exact absurd hb (by simp [hnot])
    · rw [hsame b hbid] at hb ⊢
      exact h.executed b hb
  · intro b hb hexecuted hlt tx htx
    have hbid := hother b hb
    rw [hactions] at htx
    rw [hsame b hbid] at hb hexecuted hlt
    rw [htime] at hlt
    rw [hqueue tx (hapart b hbid hb hexecuted hlt tx htx)]
    exact h.marked b hb hexecuted hlt tx htx
  · intro a b hne ha hb
    have ha' := ha
    have hb' := hb
    rw [hsame a (hother a ha)] at ha'
    rw [hsame b (hother b hb)] at hb'
    rw [Apart, hactions, hactions]
    exact h.apart a b hne ha' hb'
  · intro x hx
    have hold := h.running x (hexecuting x hx)
    by_cases hxid : x = id
    · rw [hxid, hnot] at hold
      cases hold
    · rw [hsame x hxid]
      exact hold

/-- Proposal `id` gets entries that nobody had. -/
theorem Held.queue (h : w.Held d) {eta : Nat} (hblock : w'.blockNumber = w.blockNumber)
    (htime : w'.timestamp = w.timestamp) (hcount : w'.dao.proposalCount = w.dao.proposalCount)
    (hid : id ≤ w.dao.proposalCount) (hwon : (w.dao.proposals id).Won w.blockNumber)
    (hnone : (w.dao.proposals id).eta = 0)
    (hlater : w.timestamp < eta)
    (hproposals : w'.dao.proposals = Function.update w.dao.proposals id
      { w.dao.proposals id with eta })
    (hreads : ∀ i < (w.dao.proposals id).targets.length,
      ∃ tx, (w.dao.proposals id).action eta i = .ok tx)
    (hfresh : ∀ tx ∈ (w.dao.proposals id).actions eta, w.executor.isQueued d.crypto tx = false)
    (hqueued : ∀ tx ∈ (w.dao.proposals id).actions eta, w'.executor.isQueued d.crypto tx = true)
    (hothers : ∀ tx, tx ∉ (w.dao.proposals id).actions eta →
      w'.executor.isQueued d.crypto tx = w.executor.isQueued d.crypto tx)
    (hexecuting : ∀ x ∈ w'.executing, x ∈ w.executing) : w'.Held d := by
  have hsame : ∀ b, b ≠ id → w'.dao.proposals b = w.dao.proposals b ∧
      w'.dao.actions b = w.dao.actions b := by
    intro b hb
    have heq : w'.dao.proposals b = w.dao.proposals b := by
      rw [hproposals, Function.update_of_ne hb]
    exact ⟨heq, by rw [StorageV1Fork.actions, StorageV1Fork.actions, heq]⟩
  have hself : w'.dao.proposals id = { w.dao.proposals id with eta } := by
    rw [hproposals, Function.update_self]
  have hactions : w'.dao.actions id = (w.dao.proposals id).actions eta := by
    rw [StorageV1Fork.actions, hself]
  have hnot : (w.dao.proposals id).executed = false := by
    by_contra hexec
    exact h.eta_of_executed (by simpa using hexec) hnone
  -- an entry at an eta to come would still be marked
  have hapart : ∀ b, b ≠ id → (w.dao.proposals b).Holding → ∀ tx ∈ (w.dao.proposals id).actions eta,
      tx ∉ w.dao.actions b := by
    intro b hb hholding tx htx hmem
    have heta : (w.dao.proposals b).eta = eta :=
      (StorageV1Fork.eta_of_mem hmem).symm.trans (ProposalTxs.eta_of_mem_actions htx)
    cases hexec : (w.dao.proposals b).executed with
    | true =>
      have hdue := (h.executed b hexec).2 tx hmem
      rw [ProposalTxs.eta_of_mem_actions htx] at hdue
      omega
    | false =>
      have hmarked := h.marked b hholding hexec (by omega) tx hmem
      rw [hfresh tx htx] at hmarked
      cases hmarked
  refine ⟨?_, ?_, ?_, ?_, ?_, ?_⟩
  · intro b heta
    rw [hcount, hblock]
    by_cases hb : b = id
    · subst hb
      rw [hself]
      exact ⟨hid, hwon.start, hwon.end_, hwon.votes⟩
    · rw [(hsame b hb).1] at heta ⊢
      exact h.won b heta
  · intro b heta
    by_cases hb : b = id
    · subst hb
      rw [hself]
      exact hreads
    · rw [(hsame b hb).1] at heta ⊢
      exact h.readable b heta
  · intro b hb
    by_cases hbid : b = id
    · rw [hbid, hself] at hb
      exact absurd hb (by simp [hnot])
    · rw [(hsame b hbid).1] at hb ⊢
      rw [(hsame b hbid).2, htime]
      exact h.executed b hb
  · intro b hb hexecuted hlt tx htx
    by_cases hbid : b = id
    · rw [hbid, hactions] at htx
      exact hqueued tx htx
    · rw [(hsame b hbid).1] at hb hexecuted hlt
      rw [(hsame b hbid).2] at htx
      rw [htime] at hlt
      rw [hothers tx (fun hmem => hapart b hbid hb tx hmem htx)]
      exact h.marked b hb hexecuted hlt tx htx
  · intro a b hne ha hb tx hta htb
    by_cases haid : a = id
    · have hbid : b ≠ id := fun heq => hne (haid.trans heq.symm)
      rw [haid, hactions] at hta
      rw [(hsame b hbid).1] at hb
      rw [(hsame b hbid).2] at htb
      exact hapart b hbid hb tx hta htb
    · rw [(hsame a haid).1] at ha
      rw [(hsame a haid).2] at hta
      by_cases hbid : b = id
      · rw [hbid, hactions] at htb
        exact hapart a haid ha tx htb hta
      · rw [(hsame b hbid).1] at hb
        rw [(hsame b hbid).2] at htb
        exact h.apart a b hne ha hb tx hta htb
  · intro x hx
    have hold := h.running x (hexecuting x hx)
    by_cases hxid : x = id
    · rw [hxid, hnot] at hold
      cases hold
    · rw [(hsame x hxid).1]
      exact hold

/-! ## Steps -/

theorem executing_cons {f : ForkFrame} {frames : List ForkFrame} (hf : f.executing? = none)
    (hframes : w'.frames = f :: frames) (hrest : frames = w.frames) :
    ∀ x ∈ w'.executing, x ∈ w.executing := by
  intro x hx
  rw [executing, hframes, List.filterMap_cons, hf] at hx
  rw [executing, ← hrest]
  exact hx

theorem payERC20_quiet {quitting : Quitting} {rest : List (Address × Nat)}
    (h : w.payERC20 d quitting rest = .ok w') : Quiet w w' := by
  induction rest with
  | nil =>
    rw [← pure_eq_ok.mp h]
    exact .of_same (Nat.le_refl _) (Nat.le_refl _) rfl rfl rfl (fun _ hx => hx)
  | cons payment rest ih =>
    obtain ⟨erc20token, amount⟩ := payment
    simp only [payERC20] at h
    split at h
    · simp only [bind_eq_ok, pure_eq_ok] at h
      obtain ⟨_, -, w₁, hsend, rfl⟩ := h
      obtain ⟨erc20, rfl⟩ := sendToken_ok hsend
      exact .of_same (Nat.le_refl _) (Nat.le_refl _) rfl rfl rfl (executing_cons rfl rfl rfl)
    · exact ih h

theorem quitInternal_quiet {sender : Address} {tokenIds : List Nat}
    {erc20TokensToInclude : List Address}
    (h : w.quitInternal d sender tokenIds erc20TokensToInclude = .ok w') : Quiet w w' := by
  simp only [quitInternal, bind_eq_ok, pure_eq_ok] at h
  obtain ⟨_, -, supply, -, nouns, -, _, -, _, -, w₁, hsend, rfl⟩ := h
  obtain ⟨eth, rfl⟩ := sendValue_ok hsend
  exact .of_same (Nat.le_refl _) (Nat.le_refl _) rfl rfl rfl (executing_cons rfl rfl rfl)

theorem nonReentrant_quiet {f : ForkWorld H → Tx (ForkWorld H)}
    (hf : ∀ w w', f w = .ok w' → Quiet w w') (h : w.nonReentrant f = .ok w') : Quiet w w' := by
  simp only [nonReentrant, bind_eq_ok] at h
  obtain ⟨_, -, h⟩ := h
  obtain ⟨hblock, htime, hcount, hproposals, hqueued, hexecuting⟩ := hf _ _ h
  exact ⟨hblock, htime, hcount, hproposals, hqueued, hexecuting⟩

/-- A change to the storage that leaves queued proposals alone. -/
theorem Quiet.of_storage {ds : StorageV1Fork} (hcount : w.dao.proposalCount ≤ ds.proposalCount)
    (hproposals : ∀ id, (w.dao.proposals id).SameQueued (ds.proposals id)) :
    Quiet w { w with dao := ds } :=
  ⟨Nat.le_refl _, Nat.le_refl _, hcount, hproposals, rfl, fun _ hx => hx⟩

/-- The slot of a new proposal was not queued. -/
theorem propose_quiet {sender : Address} {txs : ProposalTxs} {description : String}
    {ds : StorageV1Fork} (hheld : w.Held d)
    (h : w.dao.propose (w.env d) sender txs description = .ok (ds, id)) :
    Quiet w { w with dao := ds } := by
  simp only [StorageV1Fork.propose, bind_eq_ok, pure_eq_ok, Prod.mk.injEq] at h
  obtain ⟨_, -, supply, -, votes, -, _, -, _, -, _, -, _, -, _, -, rfl, -⟩ := h
  refine .of_storage (Nat.le_succ _) ?_
  intro b
  by_cases hb : b = w.dao.proposalCount + 1
  · have heta : (w.dao.proposals b).eta = 0 := by
      by_contra hne
      have := (hheld.won b hne).1
      omega
    refine ⟨fun hne => absurd heta hne, fun _ => ?_⟩
    simp [StorageV1Fork.emit, StorageV1Fork.setProposal, hb]
  · simp only [StorageV1Fork.emit, StorageV1Fork.setProposal, Function.update_of_ne hb]
    exact .refl _

/-- Votes are cast before a proposal can be queued. -/
theorem castVoteWithReason_quiet {sender : Address} {support : Nat} {reason : String}
    {ds : StorageV1Fork} (hheld : w.Held d)
    (h : w.dao.castVoteWithReason (w.env d) sender id support reason = .ok ds) :
    Quiet w { w with dao := ds } := by
  simp only [StorageV1Fork.castVoteWithReason, StorageV1Fork.castVoteInternal, bind_eq_ok,
    require_eq_ok, pure_eq_ok] at h
  obtain ⟨⟨ds₁, votes⟩, ⟨_, hstate, _, rfl, _, hsupport, _, -, votes', -, heq⟩, rfl⟩ := h
  cases heq
  have heta : (w.dao.proposals id).eta = 0 := by
    by_contra hne
    obtain ⟨-, hwon⟩ := hheld.won id hne
    have hend := (StorageV1Fork.active_of_state hstate).2
    exact absurd hwon.end_ (Nat.not_lt.mpr hend)
  refine .of_storage (Nat.le_refl _) ?_
  intro b
  simp only [StorageV1Fork.emit, StorageV1Fork.setProposal]
  by_cases hb : b = id
  · subst hb
    refine ⟨fun hne => absurd heta hne, fun _ => ?_⟩
    rw [Function.update_self, StorageV1Fork.countVotes_eq _ hsupport]
    exact ⟨heta, fun hnot => hnot⟩
  · rw [Function.update_of_ne hb]
    exact .refl _

variable [DecidableEq H]

/-- The execution of `id` takes entries of its own off the timelock, and begins when they are due. -/
theorem executeFrom_queue (hinj : Function.Injective d.crypto.keccak256) {i : Nat}
    (h : w.executeFrom d id i = .ok w') :
    w'.blockNumber = w.blockNumber ∧ w'.timestamp = w.timestamp ∧
      w'.dao.proposalCount = w.dao.proposalCount ∧ w'.dao.proposals = w.dao.proposals ∧
      (∀ tx, tx ∉ w.dao.actions id →
        w'.executor.isQueued d.crypto tx = w.executor.isQueued d.crypto tx) ∧
      (∀ x ∈ w'.executing, x = id ∨ x ∈ w.executing) ∧
      (i = 0 → ∀ tx ∈ w.dao.actions id, tx.eta ≤ w.timestamp) := by
  simp only [executeFrom] at h
  split at h
  · rename_i hi
    simp only [Executor.beginTransaction, bind_eq_ok, require_eq_ok, pure_eq_ok] at h
    obtain ⟨tx, htx, e, ⟨_, -, _, -, _, hdue, _, -, rfl⟩, w₁, hsend, rfl⟩ := h
    obtain ⟨eth, rfl⟩ := sendValue_ok hsend
    have hmem : tx ∈ w.dao.actions id := ProposalTxs.mem_actions.mpr ⟨i, hi, htx⟩
    refine ⟨rfl, rfl, rfl, rfl, ?_, ?_, ?_⟩
    · intro tx' htx'
      change (w.executor.setQueued d.crypto tx false).isQueued d.crypto tx' = _
      rw [Executor.isQueued_setQueued _ hinj, if_neg]
      rintro rfl
      exact htx' hmem
    · intro x hx
      simp only [executing, List.filterMap_cons, ForkFrame.executing?, List.mem_cons] at hx
      exact hx
    · intro _ tx' htx'
      rw [StorageV1Fork.eta_of_mem htx', ← ProposalTxs.action_eta htx]
      exact hdue
  · rename_i hi
    rw [← pure_eq_ok.mp h]
    refine ⟨rfl, rfl, rfl, rfl, fun _ _ => rfl, fun x hx => .inr hx, ?_⟩
    rintro rfl tx htx
    -- there is no action at all
    obtain ⟨j, hj, -⟩ := ProposalTxs.mem_actions.mp htx
    omega

omit [DecidableEq H] in
theorem not_mem_hash (hinj : Function.Injective d.crypto.keccak256) {txs : List Transaction}
    {tx : Transaction} (h : tx ∉ txs) :
    ∀ tx' ∈ txs, Executor.txHash d.crypto tx' ≠ Executor.txHash d.crypto tx := by
  intro tx' htx' heq
  cases hinj heq
  exact h htx'

/-- The step withdraws no entry in the name of a proposal that gave it up before, unless no queued
proposal has it. -/
def KeepsQueues (d : ForkDeployment H) (w : ForkWorld H) (a : ForkAction) : Prop :=
  ∀ id ∈ a.cancels?, w.dao.state (w.env d) id = .ok .Canceled →
    ∀ b, b ≠ id → w.dao.state (w.env d) b = .ok .Queued → w.Apart b id

theorem callDAO_held (hinj : Function.Injective d.crypto.keccak256) {sender : Account}
    {call : ForkDAOCall} (hheld : w.Held d) (hkeeps : w.KeepsQueues d (.callDAO sender call))
    (h : w.callDAO d sender call = .ok w') : w'.Held d := by
  cases call with
  | propose txs description =>
    obtain ⟨ds, hds, rfl⟩ := withStorage_ok h
    obtain ⟨⟨ds, id⟩, hpropose, rfl⟩ := map_eq_ok.mp hds
    exact (propose_quiet hheld hpropose).held hheld
  | queue id =>
    simp only [callDAO, withTimelock, bind_eq_ok, pure_eq_ok] at h
    obtain ⟨⟨ds, e⟩, hqueue, rfl⟩ := h
    obtain ⟨hstate, hreads, hq, hcount, hproposals⟩ := StorageV1Fork.queue_ok hqueue
    obtain ⟨hid, hwon, hnone⟩ := StorageV1Fork.state_succeeded hstate
    have hlater : w.timestamp < w.timestamp + w.executor.delay := by
      have := w.executor.delay.2.1
      simp only [MINIMUM_DELAY, days] at this
      omega
    exact hheld.queue rfl rfl hcount hid hwon hnone hlater hproposals hreads hq.fresh hq.queued
      (fun tx htx => hq.others _ (not_mem_hash hinj htx)) (fun _ hx => hx)
  | execute id =>
    simp only [callDAO, execute, bind_eq_ok, require_eq_ok] at h
    obtain ⟨_, hstate, _, rfl, h⟩ := h
    obtain ⟨hid, hholding, hnot, -⟩ := StorageV1Fork.state_queued hstate
    obtain ⟨hblock, htime, hcount, hproposals, hqueue, hexecuting, hdue⟩ := executeFrom_queue hinj h
    have hactions : StorageV1Fork.actions (w.dao.setProposal id
        { w.dao.proposals id with executed := true }) id = w.dao.actions id := by
      simp [StorageV1Fork.actions, StorageV1Fork.setProposal]
    rw [hactions] at hqueue hdue
    exact hheld.execute hholding hblock htime hcount hproposals hqueue hexecuting (hdue rfl)
  | cancel id =>
    simp only [callDAO, withTimelock, bind_eq_ok, pure_eq_ok] at h
    obtain ⟨⟨ds, e⟩, hcancel, rfl⟩ := h
    obtain ⟨⟨s, hstate, hs⟩, hq, hcount, hproposals⟩ := StorageV1Fork.cancel_ok hcancel
    have hid := StorageV1Fork.state_le hstate
    have hnot : (w.dao.proposals id).executed = false := by
      by_contra hexec
      have hexec : (w.dao.proposals id).executed = true := by simpa using hexec
      obtain ⟨hholding, -⟩ := hheld.executed id hexec
      rw [StorageV1Fork.state_executed hid (hheld.won id hholding.eta).2 hholding hexec] at hstate
      cases hstate
      exact hs rfl
    refine hheld.cancel rfl rfl hcount hnot hproposals
      (fun tx htx => hq.others _ (not_mem_hash hinj htx)) (fun _ hx => hx) ?_
    intro b hb hholding hexecuted htime
    by_cases hcanceled : (w.dao.proposals id).canceled = true
    · exact hkeeps id rfl (StorageV1Fork.state_canceled hid hcanceled) b hb
        (StorageV1Fork.state_of_holding (hheld.won b hholding.eta).1 (hheld.won b hholding.eta).2
          hholding hexecuted htime)
    · by_cases heta : (w.dao.proposals id).eta = 0
      · -- without an eta there is no entry
        intro tx htx htx'
        have heq := (StorageV1Fork.eta_of_mem htx).symm.trans (StorageV1Fork.eta_of_mem htx')
        exact hholding.eta (heq.trans heta)
      · exact hheld.apart b id hb hholding ⟨heta, by simpa using hcanceled⟩
  | castVote id support =>
    obtain ⟨ds, hds, rfl⟩ := withStorage_ok h
    exact (castVoteWithReason_quiet hheld hds).held hheld
  | castVoteWithReason id support reason =>
    obtain ⟨ds, hds, rfl⟩ := withStorage_ok h
    exact (castVoteWithReason_quiet hheld hds).held hheld
  | castVoteBySig id support sig =>
    obtain ⟨ds, hds, rfl⟩ := withStorage_ok h
    simp only [StorageV1Fork.castVoteBySig, bind_eq_ok] at hds
    obtain ⟨_, -, hds⟩ := hds
    exact (castVoteWithReason_quiet hheld hds).held hheld
  | admin call =>
    obtain ⟨ds, hds, rfl⟩ := withStorage_ok h
    obtain ⟨hcount, hproposals, -, -⟩ := StorageV1Fork.adminCall_same hds
    have hquiet : Quiet w { w with dao := ds } :=
      .of_same (Nat.le_refl _) (Nat.le_refl _) hcount hproposals rfl (fun _ hx => hx)
    exact hquiet.held hheld
  | quit tokenIds =>
    exact (nonReentrant_quiet (fun _ _ hq => quitInternal_quiet hq) h).held hheld
  | quitWith tokenIds erc20TokensToInclude =>
    simp only [callDAO, quitWith] at h
    refine (nonReentrant_quiet ?_ h).held hheld
    intro w₁ w₂ hq
    simp only [bind_eq_ok] at hq
    obtain ⟨_, -, _, -, hq⟩ := hq
    exact quitInternal_quiet hq

/-- Executions go on, and so do payments. -/
theorem resume_held (hinj : Function.Injective d.crypto.keccak256) {f : ForkFrame}
    {frames : List ForkFrame} (hheld : w.Held d) (hframes : w.frames = f :: frames)
    (h : ({ w with frames } : ForkWorld H).resume d f.continuation = .ok w') : w'.Held d := by
  have hpop : ∀ x ∈ ForkWorld.executing { w with frames }, x ∈ w.executing := by
    intro x hx
    simp only [executing, hframes, List.filterMap_cons]
    simp only [executing] at hx
    split
    · exact hx
    · exact List.mem_cons_of_mem _ hx
  cases hk : f.continuation with
  | execute id i tx =>
    rw [hk] at h
    have hexec : (w.dao.proposals id).executed = true := by
      refine hheld.running id ?_
      simp [executing, hframes, ForkFrame.executing?, hk]
    obtain ⟨hholding, hdue⟩ := hheld.executed id hexec
    obtain ⟨hblock, htime, hcount, hproposals, hqueue, hexecuting, -⟩ := executeFrom_queue hinj h
    refine hheld.execute hholding hblock htime hcount ?_ hqueue ?_ hdue
    · have hself : ({ w.dao.proposals id with executed := true } : ForkProposal) =
          w.dao.proposals id := by
        rw [← hexec]
      rw [hself, Function.update_eq_self]
      exact hproposals
    · intro x hx
      exact (hexecuting x hx).imp_right (hpop x)
  | sendETH quitting rest amount =>
    rw [hk] at h
    obtain ⟨hblock, htime, hcount, hproposals, hqueued, hexecuting⟩ := payERC20_quiet h
    have hquiet : Quiet w w' :=
      ⟨hblock, htime, hcount, hproposals, hqueued, fun x hx => hpop x (hexecuting x hx)⟩
    exact hquiet.held hheld
  | sendERC20 quitting rest erc20token amount =>
    rw [hk] at h
    obtain ⟨hblock, htime, hcount, hproposals, hqueued, hexecuting⟩ := payERC20_quiet h
    have hquiet : Quiet w w' :=
      ⟨hblock, htime, hcount, hproposals, hqueued, fun x hx => hpop x (hexecuting x hx)⟩
    exact hquiet.held hheld

omit [DecidableEq H] in
/-- Entering a contract only marks the frame. -/
theorem enter_executing {sender callee : Address} (h : w.enter d sender callee = .ok w') :
    ∃ frames, w' = { w with frames } ∧ w'.executing = w.executing := by
  simp only [enter] at h
  split at h
  · simp only [bind_eq_ok, pure_eq_ok] at h
    obtain ⟨_, -, rfl⟩ := h
    exact ⟨w.frames, rfl, rfl⟩
  · rename_i frame frames hframes
    split at h
    · simp only [bind_eq_ok, pure_eq_ok] at h
      obtain ⟨_, -, rfl⟩ := h
      refine ⟨_, rfl, ?_⟩
      simp only [executing, hframes, List.filterMap_cons]
      rfl
    · simp only [bind_eq_ok, pure_eq_ok] at h
      obtain ⟨_, -, rfl⟩ := h
      exact ⟨w.frames, rfl, rfl⟩

theorem step_held (hinj : Function.Injective d.crypto.keccak256) {a : ForkAction} (hheld : w.Held d)
    (hkeeps : w.KeepsQueues d a) (h : w.step d a = .ok w') : w'.Held d := by
  -- a call enters its contract first, which changes no proposal and no entry
  have henter : ∀ {sender callee w₁}, w.enter d sender callee = .ok w₁ → Quiet w w₁ := by
    intro sender callee w₁ henter
    obtain ⟨frames, rfl, hexecuting⟩ := enter_executing henter
    exact .of_same (Nat.le_refl _) (Nat.le_refl _) rfl rfl rfl (fun x hx => hexecuting ▸ hx)
  cases a with
  | advance blockNumber timestamp =>
    simp only [step, bind_eq_ok, require_eq_ok, pure_eq_ok] at h
    obtain ⟨_, ⟨-, hblock, htime⟩, rfl⟩ := h
    have hquiet : Quiet w { w with blockNumber, timestamp } :=
      .of_same hblock htime rfl rfl rfl (fun _ hx => hx)
    exact hquiet.held hheld
  | callDAO sender call =>
    simp only [step, bind_eq_ok] at h
    obtain ⟨w₁, h₁, h⟩ := h
    have hheld₁ := (henter h₁).held hheld
    obtain ⟨frames, rfl, -⟩ := enter_executing h₁
    exact callDAO_held hinj hheld₁ hkeeps h
  | callToken sender call =>
    simp only [step, callToken, bind_eq_ok, pure_eq_ok] at h
    obtain ⟨w₁, h₁, nouns, -, rfl⟩ := h
    have hheld₁ := (henter h₁).held hheld
    exact ⟨hheld₁.won, hheld₁.readable, hheld₁.executed, hheld₁.marked, hheld₁.apart,
      hheld₁.running⟩
  | callExecutor sender call =>
    simp only [step, callExecutor, bind_eq_ok, pure_eq_ok] at h
    obtain ⟨w₁, h₁, e, hcall, rfl⟩ := h
    have hheld₁ := (henter h₁).held hheld
    have hqueued : e.queuedTransactions = w₁.executor.queuedTransactions := by
      obtain ⟨delay, _, rfl⟩ | ⟨admin, rfl⟩ | ⟨pendingAdmin, rfl⟩ := Executor.call_cases hcall
      · rfl
      · rfl
      · rfl
    have hquiet : Quiet w₁ { w₁ with executor := e } :=
      .of_same (Nat.le_refl _) (Nat.le_refl _) rfl rfl hqueued (fun _ hx => hx)
    exact hquiet.held hheld₁
  | return_ =>
    simp only [step] at h
    split at h
    · exact absurd h throw_ne_ok
    · rename_i f frames hframes
      exact resume_held hinj hheld hframes h

/-! ## Runs -/

/-- A new DAO, which administers its timelock. -/
structure StartGoverned (d : ForkDeployment H) (w : ForkWorld H) : Prop where
  proposals : ∀ id, w.dao.proposals id = ForkProposal.empty
  frames : w.frames = []
  admin : w.executor.admin = d.dao

/-- Steps that `admits` allows, while the DAO administers its timelock. -/
def NextGoverned (d : ForkDeployment H) (admits : ForkWorld H → ForkAction → Prop)
    (w w' : ForkWorld H) : Prop :=
  Next d admits w w' ∧ w'.executor.admin = d.dao

theorem held_of_reachable (hinj : Function.Injective d.crypto.keccak256)
    (h : Reachable (StartGoverned d) (NextGoverned d (KeepsQueues d)) w) : w.Held d := by
  refine h.invariant ?_ ?_
  · intro w hw
    have hnone : ∀ id, (w.dao.proposals id).eta = 0 := by
      intro id
      rw [hw.proposals]
      rfl
    refine ⟨?_, ?_, ?_, ?_, ?_, ?_⟩
    · exact fun id heta => absurd (hnone id) heta
    · exact fun id heta => absurd (hnone id) heta
    · intro id hid
      rw [hw.proposals] at hid
      cases hid
    · exact fun id hid => absurd (hnone id) hid.eta
    · exact fun a b _ ha => absurd (hnone a) ha.eta
    · simp [executing, hw.frames]
  · rintro w w' - hheld ⟨hn, -⟩
    cases hn with
    | step a hkeeps hstep => exact step_held hinj hheld hkeeps hstep
    | outside hout =>
      obtain ⟨escrow, eth, erc20, outside, rfl⟩ := hout.same
      exact ⟨hheld.won, hheld.readable, hheld.executed, hheld.marked, hheld.apart, hheld.running⟩

/-- In runs that never cancel a canceled proposal again while a queued one shares an action with it,
all actions of every queued proposal are on the timelock. -/
theorem queued_actions_on_timelock (hinj : Function.Injective d.crypto.keccak256)
    (h : Reachable (StartGoverned d) (NextGoverned d (KeepsQueues d)) w) (id : Nat)
    (hid : w.dao.state (w.env d) id = .ok .Queued) :
    ∀ i < (w.dao.proposals id).targets.length,
      ∃ tx, (w.dao.proposals id).action (w.dao.proposals id).eta i = .ok tx ∧
        w.executor.isQueued d.crypto tx = true := by
  intro i hi
  have hheld := held_of_reachable hinj h
  obtain ⟨-, hholding, hnot, htime⟩ := StorageV1Fork.state_queued hid
  obtain ⟨tx, htx⟩ := hheld.readable id hholding.eta i hi
  exact ⟨tx, htx, hheld.marked id hholding hnot htime tx (ProposalTxs.mem_actions.mpr ⟨i, hi, htx⟩)⟩

theorem sample_startGoverned : StartGoverned .sample ForkWorld.sample :=
  ⟨fun _ => rfl, rfl, rfl⟩

/-- Both 7 and 8 have a token, propose to call address 50, and win. -/
def twoProposals : List ForkAction :=
  let seven : Account := ⟨7, Address.seven_ne_zero⟩
  let eight : Account := ⟨8, Address.eight_ne_zero⟩
  [.callToken seven .mint, .callToken seven .mint, .callToken seven (.transferFrom 7 8 5),
    .advance 2 2, .callDAO seven (.propose .sample ""), .callDAO eight (.propose .sample ""),
    .advance 4 4, .callDAO seven (.castVote 1 1), .callDAO seven (.castVote 2 1),
    .advance 7204 100000]

/-- Proposal 1 is canceled after it was queued, and proposal 2 takes the entry it gave up. -/
theorem queued_actions_on_timelock_after_cancel :
    ∃ w, Reachable (StartGoverned .sample) (NextGoverned .sample (KeepsQueues .sample)) w ∧
      w.dao.state (w.env .sample) 1 = .ok .Canceled ∧
      w.dao.state (w.env .sample) 2 = .ok .Queued ∧
      ∃ tx, (w.dao.proposals 2).action (w.dao.proposals 2).eta 0 = .ok tx ∧
        w.executor.isQueued .transparent tx = true := by
  have hrun : Yields (evaluate (step .sample)
      (fun w a w' => w'.executor.admin = 200 ∧
        ∀ id ∈ a.cancels?, w.dao.state (w.env .sample) id ≠ .ok .Canceled)
      .callFailed ForkWorld.sample
      (twoProposals ++ [.callDAO ⟨5, by decide⟩ (.queue 1), .callDAO ⟨7, by decide⟩ (.cancel 1),
        .callDAO ⟨5, by decide⟩ (.queue 2)]))
      (fun w => w.dao.state (w.env .sample) 1 = .ok .Canceled ∧
        w.dao.state (w.env .sample) 2 = .ok .Queued ∧ 0 < (w.dao.proposals 2).targets.length) := by
    decide +kernel
  obtain ⟨w, hw, hcanceled, hqueued, hlen⟩ := hrun
  have hr : Reachable (StartGoverned .sample) (NextGoverned .sample (KeepsQueues .sample)) w := by
    refine ⟨_, sample_startGoverned, evaluate_steps ?_ hw⟩
    rintro w a w' hstep ⟨hadmin, hnot⟩
    exact ⟨.step a (fun id hid hc => absurd hc (hnot id hid)) hstep, hadmin⟩
  exact ⟨w, hr, hcanceled, hqueued, queued_actions_on_timelock (fun _ _ h => h) hr 2 hqueued 0 hlen⟩

/-- Proposals 1 and 2 have one action in common and are queued in one block, the second after the
first was canceled.  When the first is canceled again, the entry of the second is gone. -/
theorem second_cancel_unqueues_other :
    Function.Injective ForkDeployment.sample.crypto.keccak256 ∧
    ∃ w, Reachable (StartGoverned .sample) (NextGoverned .sample (fun _ _ => True)) w ∧
      w.dao.state (w.env .sample) 2 = .ok .Queued ∧
      ∃ tx, (w.dao.proposals 2).action (w.dao.proposals 2).eta 0 = .ok tx ∧
        w.executor.isQueued .transparent tx = false := by
  have hrun : Yields (evaluate (step .sample) (fun _ _ w' => w'.executor.admin = 200) .callFailed
      ForkWorld.sample
      (twoProposals ++ [.callDAO ⟨5, by decide⟩ (.queue 1), .callDAO ⟨7, by decide⟩ (.cancel 1),
        .callDAO ⟨5, by decide⟩ (.queue 2), .callDAO ⟨7, by decide⟩ (.cancel 1)]))
      (fun w => w.dao.state (w.env .sample) 2 = .ok .Queued ∧
        Yields ((w.dao.proposals 2).action (w.dao.proposals 2).eta 0) (fun tx =>
          w.executor.isQueued .transparent tx = false)) := by
    decide +kernel
  obtain ⟨w, hw, hqueued, htx⟩ := hrun
  refine ⟨fun _ _ h => h, w, ⟨_, sample_startGoverned, evaluate_steps ?_ hw⟩, hqueued, htx⟩
  exact fun w a w' hstep hadmin => ⟨.step a trivial hstep, hadmin⟩

end ForkWorld

end Nouns

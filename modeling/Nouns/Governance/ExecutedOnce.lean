import Nouns.Governance.QueueIntegrity

/-!
# ExecutedOnce — an executed proposal ran on the timelock that queued it

An action leaves the queue when its call begins, and its eta has come by then; whatever is queued
later has a later eta.  So a timelock never begins the same action twice, and an execution that goes
through the proposal's own timelock runs each of its actions there, once.
-/

open Fallible Transition

namespace Nouns

variable {H : Type}

/-- What a timelock ran before is off its queue. -/
structure TxQueue.Settled (c : Crypto H) (timestamp : Nat) (q : TxQueue H) : Prop where
  nodup : q.runs.Nodup
  spent : ∀ tx ∈ q.runs, tx.eta ≤ timestamp ∧ q.queued (Executor.txHash c tx) = false

namespace Gov

variable {d : Deployment H} {g g' : Gov H} {id i : Nat} {l : Label} {timelock : Address}

/-- The actions in progress on a timelock, and those it ran. -/
def started (g : Gov H) (timelock : Address) : List Transaction :=
  (g.executing.filter (fun x => x.timelock = timelock)).map Execution.tx ++
    (g.queues timelock).runs

/-- The first `i` actions of a proposal ran. -/
def RanBefore (g : Gov H) (id : Nat) (timelock : Address) (i : Nat) : Prop :=
  ∀ j < i, ∀ tx, (g.store.proposals id).action (g.store.proposals id).eta j = .ok tx →
    tx ∈ (g.queues timelock).runs

/-- Executions run on the proposal's own timelock only. -/
def OwnTimelock (g : Gov H) : Label → Prop
  | .execute id timelock => timelock = g.ownTimelock id
  | _ => True

instance (g : Gov H) (l : Label) : Decidable (g.OwnTimelock l) :=
  match l with
  | .execute id timelock => inferInstanceAs (Decidable (timelock = g.ownTimelock id))
  | .quorum _ | .veto _ | .resume | .fork | .other => .isTrue trivial

/-- The actions that began so far, each of them once. -/
structure Begun (d : Deployment H) (g : Gov H) : Prop where
  queueings : ∀ id, (g.store.proposals id).eta ≠ 0 → ∀ tx ∈ g.actions id,
    tx ∈ (g.queues (g.ownTimelock id)).queueings
  nodup : ∀ a, (g.started a).Nodup
  spent : ∀ a, ∀ tx ∈ g.started a, tx.eta ≤ g.timestamp ∧
    (g.queues a).queued (Executor.txHash d.crypto tx) = false
  running : ∀ x ∈ g.executing, (g.store.proposals x.proposalId).executed = true ∧
    x.timelock = g.ownTimelock x.proposalId ∧ g.RanBefore x.proposalId x.timelock x.i ∧
    (g.store.proposals x.proposalId).action (g.store.proposals x.proposalId).eta x.i = .ok x.tx
  distinct : (g.executing.map Execution.proposalId).Nodup

/-- The actions of `id` ran, unless its execution is still in progress. -/
def Ran (g : Gov H) (id : Nat) : Prop :=
  (g.store.proposals id).executed = true → (∀ x ∈ g.executing, x.proposalId ≠ id) →
    ∀ tx ∈ g.actions id, tx ∈ (g.queues (g.ownTimelock id)).runs

/-- The execution of `id` is between two actions, and `i` comes next. -/
structure Between (d : Deployment H) (g : Gov H) (id i : Nat) : Prop where
  begun : g.Begun d
  executed : (g.store.proposals id).executed = true
  idle : ∀ x ∈ g.executing, x.proposalId ≠ id
  before : g.RanBefore id (g.ownTimelock id) i
  ran : ∀ b, b ≠ id → g.Ran b

/-! ## Beginning an action -/

section Continue

variable [DecidableEq H]

theorem Between.begun_next (h : g.Between d id i) {tx : Transaction}
    (haction : (g.store.proposals id).action (g.store.proposals id).eta i = .ok tx)
    (hq : (g.queues (g.ownTimelock id)).queued (Executor.txHash d.crypto tx) = true)
    (heta : tx.eta ≤ g.timestamp) :
    Begun d { g.setQueue (g.ownTimelock id) { g.queues (g.ownTimelock id) with
      queued := Function.update (g.queues (g.ownTimelock id)).queued
        (Executor.txHash d.crypto tx) false }
      with executing := ⟨id, g.ownTimelock id, i, tx⟩ :: g.executing } := by
  generalize hg' : ({ g.setQueue (g.ownTimelock id) { g.queues (g.ownTimelock id) with
      queued := Function.update (g.queues (g.ownTimelock id)).queued
        (Executor.txHash d.crypto tx) false }
      with executing := ⟨id, g.ownTimelock id, i, tx⟩ :: g.executing } : Gov H) = g'
  have hstore : g'.store = g.store := by rw [← hg']; rfl
  have hexec : g'.executing = ⟨id, g.ownTimelock id, i, tx⟩ :: g.executing := by rw [← hg']
  have hown : ∀ b, g'.ownTimelock b = g.ownTimelock b := by
    intro b
    rw [ownTimelock, hstore]
    rfl
  have hruns : ∀ a, (g'.queues a).runs = (g.queues a).runs := by
    intro a
    rw [← hg']
    by_cases ha : a = g.ownTimelock id
    · simp [setQueue, ha]
    · simp [setQueue, ha]
  have hqueueings : ∀ a, (g'.queues a).queueings = (g.queues a).queueings := by
    intro a
    rw [← hg']
    by_cases ha : a = g.ownTimelock id
    · simp [setQueue, ha]
    · simp [setQueue, ha]
  have hstarted : ∀ a, g'.started a =
      if a = g.ownTimelock id then tx :: g.started a else g.started a := by
    intro a
    unfold started
    rw [hexec, hruns]
    by_cases ha : a = g.ownTimelock id
    · simp [ha]
    · simp [ha, Ne.symm ha]
  have hfresh : tx ∉ g.started (g.ownTimelock id) := by
    intro hmem
    rw [(h.begun.spent _ tx hmem).2] at hq
    cases hq
  refine ⟨?_, ?_, ?_, ?_, ?_⟩
  · intro b hb tx' htx'
    rw [hstore] at hb
    rw [hown, hqueueings]
    refine h.begun.queueings b hb tx' ?_
    rwa [actions, hstore] at htx'
  · intro a
    rw [hstarted]
    split
    · rename_i ha
      rw [ha]
      exact List.nodup_cons.mpr ⟨hfresh, h.begun.nodup _⟩
    · exact h.begun.nodup a
  · intro a tx' htx'
    rw [hstarted] at htx'
    have htime : g'.timestamp = g.timestamp := by rw [← hg']; rfl
    rw [htime]
    split at htx'
    · rename_i ha
      subst ha
      rw [← hg']
      simp only [setQueue, Function.update_self]
      by_cases heq : Executor.txHash d.crypto tx' = Executor.txHash d.crypto tx
      · rw [heq, Function.update_self]
        refine ⟨?_, rfl⟩
        rcases List.mem_cons.mp htx' with rfl | hmem
        · exact heta
        · exact (h.begun.spent _ tx' hmem).1
      · rw [Function.update_of_ne heq]
        rcases List.mem_cons.mp htx' with rfl | hmem
        · exact absurd rfl heq
        · exact h.begun.spent _ tx' hmem
    · rename_i ha
      rw [← hg']
      simp only [setQueue, Function.update_of_ne ha]
      exact h.begun.spent a tx' htx'
  · intro x hx
    have hbefore : ∀ b a k, g.RanBefore b a k → g'.RanBefore b a k := by
      intro b a k hran j hj tx' htx'
      rw [hruns]
      rw [hstore] at htx'
      exact hran j hj tx' htx'
    rw [hexec] at hx
    rw [hown, hstore]
    rcases List.mem_cons.mp hx with rfl | hx
    · exact ⟨h.executed, rfl, hbefore _ _ _ h.before, haction⟩
    · obtain ⟨h₁, h₂, h₃, h₄⟩ := h.begun.running x hx
      exact ⟨h₁, h₂, hbefore _ _ _ h₃, h₄⟩
  · rw [hexec, List.map_cons, List.nodup_cons]
    refine ⟨?_, h.begun.distinct⟩
    intro hmem
    obtain ⟨x, hx, heq⟩ := List.mem_map.mp hmem
    exact h.idle x hx heq

/-- The execution goes on with action `i`, or is over. -/
theorem Between.continues (h : g.Between d id i)
    (hcont : g.Continues d id (g.ownTimelock id) i g') : g'.Begun d ∧ ∀ b, g'.Ran b := by
  cases hcont with
  | next tx hi haction hq heta =>
    refine ⟨h.begun_next haction hq heta, ?_⟩
    intro b hb hnone tx' htx'
    have hbid : b ≠ id := by
      rintro rfl
      exact hnone _ List.mem_cons_self rfl
    have hran := h.ran b hbid hb (fun x hx => hnone x (List.mem_cons_of_mem _ hx)) tx' htx'
    change tx' ∈ ((g.setQueue _ _).queues (g.ownTimelock b)).runs
    by_cases ha : g.ownTimelock b = g.ownTimelock id
    · rw [ha] at hran ⊢
      simpa [setQueue] using hran
    · simpa [setQueue, ha] using hran
  | done hi =>
    refine ⟨h.begun, ?_⟩
    intro b hb hnone
    by_cases hbid : b = id
    · subst hbid
      intro tx htx
      obtain ⟨j, hj, haction⟩ := ProposalTxs.mem_actions.mp htx
      exact h.before j (by omega) tx haction
    · exact h.ran b hbid hb hnone

end Continue

/-! ## Starting and resuming an execution -/

/-- Marking a proposal as executed changes nothing of what ran. -/
theorem between_of_execute (hbegun : g.Begun d) (hran : ∀ b, g.Ran b)
    (hold : (g.store.proposals id).Holding) :
    Between d (g.setProposal id { g.store.proposals id with executed := true }) id 0 := by
  generalize hg' : g.setProposal id { g.store.proposals id with executed := true } = g'
  have hp : g'.store.proposals id = { g.store.proposals id with executed := true } := by
    simp [← hg', setProposal]
  have hother : ∀ b, b ≠ id → g'.store.proposals b = g.store.proposals b := by
    intro b hb
    simp [← hg', setProposal, hb]
  have hqueues : g'.queues = g.queues := by rw [← hg']; rfl
  have hexec : g'.executing = g.executing := by rw [← hg']; rfl
  have htime : g'.timestamp = g.timestamp := by rw [← hg']; rfl
  have hown : ∀ b, g'.ownTimelock b = g.ownTimelock b := by
    intro b
    by_cases hb : b = id
    · rw [ownTimelock, hb, hp, ← hg']
      rfl
    · rw [ownTimelock, hother b hb, ← hg']
      rfl
  have hactions : ∀ b, g'.actions b = g.actions b := by
    intro b
    by_cases hb : b = id
    · rw [actions, hb, hp]
      rfl
    · rw [actions, hother b hb]
      rfl
  have hidle : ∀ x ∈ g.executing, x.proposalId ≠ id := by
    intro x hx heq
    have hexecuted := (hbegun.running x hx).1
    rw [heq, hold.executed] at hexecuted
    cases hexecuted
  refine ⟨⟨?_, ?_, ?_, ?_, ?_⟩, by rw [hp], ?_, fun j hj => absurd hj (Nat.not_lt_zero j), ?_⟩
  · intro b hb tx htx
    rw [hown, hqueues]
    refine hbegun.queueings b ?_ tx (hactions b ▸ htx)
    by_cases hbid : b = id
    · rw [hbid]
      exact hold.eta
    · rwa [hother b hbid] at hb
  · intro a
    rw [started, hexec, hqueues]
    exact hbegun.nodup a
  · intro a tx htx
    rw [started, hexec, hqueues] at htx
    rw [htime, hqueues]
    exact hbegun.spent a tx htx
  · intro x hx
    rw [hexec] at hx
    have hxid := hidle x hx
    rw [RanBefore, hqueues, hown, hother _ hxid]
    exact hbegun.running x hx
  · rw [hexec]
    exact hbegun.distinct
  · rw [hexec]
    exact hidle
  · intro b hb hexecuted hnone tx htx
    rw [hown, hqueues]
    rw [hother b hb] at hexecuted
    rw [hexec] at hnone
    exact hran b hexecuted hnone tx (hactions b ▸ htx)

/-- The call of an action returned: it counts as run. -/
theorem between_of_return {x : Execution} {rest : List Execution} (hbegun : g.Begun d)
    (hran : ∀ b, g.Ran b) (hexec : g.executing = x :: rest) :
    Between d { g.setQueue x.timelock { g.queues x.timelock with
      runs := x.tx :: (g.queues x.timelock).runs } with executing := rest } x.proposalId
      (x.i + 1) := by
  generalize hg' : ({ g.setQueue x.timelock { g.queues x.timelock with
    runs := x.tx :: (g.queues x.timelock).runs } with executing := rest } : Gov H) = g'
  have hstore : g'.store = g.store := by rw [← hg']; rfl
  have hexec' : g'.executing = rest := by rw [← hg']
  have htime : g'.timestamp = g.timestamp := by rw [← hg']; rfl
  have hown : ∀ b, g'.ownTimelock b = g.ownTimelock b := by
    intro b
    rw [ownTimelock, hstore]
    rfl
  have hactions : ∀ b, g'.actions b = g.actions b := by
    intro b
    rw [actions, hstore]
    rfl
  have hqueued : ∀ a, (g'.queues a).queued = (g.queues a).queued := by
    intro a
    rw [← hg']
    by_cases ha : a = x.timelock
    · simp [setQueue, ha]
    · simp [setQueue, ha]
  have hqueueings : ∀ a, (g'.queues a).queueings = (g.queues a).queueings := by
    intro a
    rw [← hg']
    by_cases ha : a = x.timelock
    · simp [setQueue, ha]
    · simp [setQueue, ha]
  have hruns : ∀ a, (g'.queues a).runs =
      if a = x.timelock then x.tx :: (g.queues a).runs else (g.queues a).runs := by
    intro a
    rw [← hg']
    by_cases ha : a = x.timelock
    · simp [setQueue, ha]
    · simp [setQueue, ha]
  have hmem : ∀ a tx, tx ∈ (g.queues a).runs → tx ∈ (g'.queues a).runs := by
    intro a tx htx
    rw [hruns]
    split
    · exact List.mem_cons_of_mem _ htx
    · exact htx
  -- The action moves from the front of the list to the ones that ran.
  have hperm : ∀ a, (g'.started a).Perm (g.started a) := by
    intro a
    unfold started
    rw [hexec', hexec, hruns]
    by_cases ha : a = x.timelock
    · subst ha
      simp only [if_true, decide_true, List.filter_cons_of_pos, List.map_cons]
      exact List.perm_middle
    · simp [ha, Ne.symm ha]
  have hdistinct := hbegun.distinct
  rw [hexec, List.map_cons, List.nodup_cons] at hdistinct
  obtain ⟨hx₁, hx₂, hx₃, hx₄⟩ := hbegun.running x (hexec ▸ List.mem_cons_self)
  have hbefore : ∀ b a k, g.RanBefore b a k → g'.RanBefore b a k := by
    intro b a k h j hj tx htx
    rw [hstore] at htx
    exact hmem a tx (h j hj tx htx)
  refine ⟨⟨?_, ?_, ?_, ?_, ?_⟩, by rw [hstore]; exact hx₁, ?_, ?_, ?_⟩
  · intro b hb tx htx
    rw [hown, hqueueings]
    rw [hstore] at hb
    exact hbegun.queueings b hb tx (hactions b ▸ htx)
  · intro a
    exact (hperm a).nodup_iff.mpr (hbegun.nodup a)
  · intro a tx htx
    rw [htime, hqueued]
    exact hbegun.spent a tx ((hperm a).mem_iff.mp htx)
  · intro y hy
    rw [hexec'] at hy
    obtain ⟨hy₁, hy₂, hy₃, hy₄⟩ := hbegun.running y (hexec ▸ List.mem_cons_of_mem x hy)
    rw [hstore, hown]
    exact ⟨hy₁, hy₂, hbefore _ _ _ hy₃, hy₄⟩
  · rw [hexec']
    exact hdistinct.2
  · intro y hy heq
    rw [hexec'] at hy
    exact hdistinct.1 (List.mem_map.mpr ⟨y, hy, heq⟩)
  · intro j hj tx htx
    rw [hown, ← hx₂]
    rw [hstore] at htx
    rcases Nat.lt_succ_iff_lt_or_eq.mp hj with hlt | rfl
    · exact hmem _ tx (hx₃ j hlt tx htx)
    · rw [hx₄] at htx
      cases htx
      rw [hruns, if_pos rfl]
      exact List.mem_cons_self
  · intro b hb hexecuted hnone tx htx
    rw [hstore] at hexecuted
    rw [hexec'] at hnone
    rw [hown]
    refine hmem _ tx (hran b hexecuted ?_ tx (hactions b ▸ htx))
    intro y hy
    rw [hexec] at hy
    rcases List.mem_cons.mp hy with rfl | hy
    · exact fun heq => hb heq.symm
    · exact hnone y hy

/-! ## Steps that run nothing -/

/-- Executed proposals stay as they are, and nothing that ran is queued again. -/
structure Rests (d : Deployment H) (g g' : Gov H) : Prop where
  executing : g'.executing = g.executing
  timestamp : g.timestamp ≤ g'.timestamp
  runs : ∀ a, (g'.queues a).runs = (g.queues a).runs
  unqueued : ∀ a tx, tx.eta ≤ g.timestamp →
    (g.queues a).queued (Executor.txHash d.crypto tx) = false →
    (g'.queues a).queued (Executor.txHash d.crypto tx) = false
  executed : ∀ b, (g'.store.proposals b).executed = (g.store.proposals b).executed
  same : ∀ b, (g.store.proposals b).executed = true → g'.ownTimelock b = g.ownTimelock b ∧
    (g'.store.proposals b).toProposalTxs = (g.store.proposals b).toProposalTxs ∧
    (g'.store.proposals b).eta = (g.store.proposals b).eta
  queueings : ∀ b, (g'.store.proposals b).eta ≠ 0 → ∀ tx ∈ g'.actions b,
    tx ∈ (g'.queues (g'.ownTimelock b)).queueings

theorem Rests.begun (h : Rests d g g') (hbegun : g.Begun d) : g'.Begun d := by
  have hstarted : ∀ a, g'.started a = g.started a := by
    intro a
    rw [started, h.executing, h.runs]
    rfl
  refine ⟨h.queueings, ?_, ?_, ?_, ?_⟩
  · intro a
    rw [hstarted]
    exact hbegun.nodup a
  · intro a tx htx
    rw [hstarted] at htx
    obtain ⟨heta, hq⟩ := hbegun.spent a tx htx
    exact ⟨Nat.le_trans heta h.timestamp, h.unqueued a tx heta hq⟩
  · intro x hx
    rw [h.executing] at hx
    obtain ⟨h₁, h₂, h₃, h₄⟩ := hbegun.running x hx
    obtain ⟨hown, htxs, heta⟩ := h.same _ h₁
    rw [RanBefore, h.executed, h.runs, hown, htxs, heta]
    exact ⟨h₁, h₂, h₃, h₄⟩
  · rw [h.executing]
    exact hbegun.distinct

theorem Rests.ran (h : Rests d g g') (hran : ∀ b, g.Ran b) (b : Nat) : g'.Ran b := by
  intro hexecuted hnone tx htx
  rw [h.executed] at hexecuted
  rw [h.executing] at hnone
  obtain ⟨hown, htxs, heta⟩ := h.same b hexecuted
  rw [actions, htxs, heta] at htx
  rw [h.runs, hown]
  exact hran b hexecuted hnone tx htx

theorem rests_of_quiet (hwf : g.Wf) (hlocks : SameTimelocks g g')
    (htime : g.timestamp ≤ g'.timestamp)
    (hsame : ∀ id, (g.store.proposals id).SameQueued (g'.store.proposals id))
    (hqueues : g'.queues = g.queues) (hexec : g'.executing = g.executing)
    (hbegun : g.Begun d) : Rests d g g' := by
  refine ⟨hexec, htime, fun a => by rw [hqueues], fun a tx _ hq => by rw [hqueues]; exact hq,
    fun b => (hsame b).executed, ?_, ?_⟩
  · intro b hb
    have heta := hwf.eta_of_executed hb
    exact ⟨(quiet_same hlocks (hsame b) heta).1, (hsame b).txs heta, (hsame b).eta⟩
  · intro b hb tx htx
    rw [(hsame b).eta] at hb
    obtain ⟨hown, hactions⟩ := quiet_same hlocks (hsame b) hb
    rw [hqueues, hown]
    exact hbegun.queueings b hb tx (hactions ▸ htx)

theorem rests_of_withdraw {p : Proposal} {q : TxQueue H}
    (hg : g' = (g.setProposal id p).setQueue (g.ownTimelock id) q)
    (heta : p.eta = (g.store.proposals id).eta)
    (hexecuted : p.executed = (g.store.proposals id).executed)
    (htxs : p.toProposalTxs = (g.store.proposals id).toProposalTxs)
    (hflag : p.executeOnTimelockV1 = (g.store.proposals id).executeOnTimelockV1)
    (hq : TxQueue.CanceledAll d.crypto (g.actions id) (g.queues (g.ownTimelock id)) q)
    (hbegun : g.Begun d) : Rests d g g' := by
  have hp : g'.store.proposals id = p := by simp [hg, setQueue, setProposal]
  have hother : ∀ b, b ≠ id → g'.store.proposals b = g.store.proposals b := by
    intro b hb
    simp [hg, setQueue, setProposal, hb]
  have hlocks : SameTimelocks g g' := by
    rw [hg]
    exact ⟨rfl, rfl⟩
  have hsame : ∀ b, (g'.store.proposals b).executed = (g.store.proposals b).executed ∧
      g'.ownTimelock b = g.ownTimelock b ∧
      (g'.store.proposals b).toProposalTxs = (g.store.proposals b).toProposalTxs ∧
      (g'.store.proposals b).eta = (g.store.proposals b).eta := by
    intro b
    by_cases hb : b = id
    · subst hb
      rw [ownTimelock, hp]
      exact ⟨hexecuted, hlocks.getProposalTimelock_eq hflag, htxs, heta⟩
    · rw [ownTimelock, hother b hb]
      exact ⟨rfl, hlocks.getProposalTimelock_eq rfl, rfl, rfl⟩
  have hqueues : ∀ a, g'.queues a = if a = g.ownTimelock id then q else g.queues a := by
    intro a
    rw [hg]
    by_cases ha : a = g.ownTimelock id
    · simp [setQueue, ha]
    · simp [setQueue, ha, setProposal]
  refine ⟨by rw [hg]; rfl, Nat.le_of_eq (by rw [hg]; rfl), ?_, ?_, fun b => (hsame b).1,
    fun b _ => (hsame b).2, ?_⟩
  · intro a
    rw [hqueues]
    split
    · rename_i ha
      rw [ha, hq.runs]
    · rfl
  · intro a tx _ hfree
    rw [hqueues]
    split
    · rename_i ha
      subst ha
      by_cases hmem : ∃ tx' ∈ g.actions id,
          Executor.txHash d.crypto tx' = Executor.txHash d.crypto tx
      · obtain ⟨tx', htx', heq⟩ := hmem
        rw [← heq]
        exact hq.canceled tx' htx'
      · rw [hq.others _ (fun tx' htx' heq => hmem ⟨tx', htx', heq⟩)]
        exact hfree
    · exact hfree
  · intro b hb tx htx
    obtain ⟨-, hown, htxs, hetab⟩ := hsame b
    rw [actions, htxs, hetab] at htx
    rw [hetab] at hb
    have hmem := hbegun.queueings b hb tx htx
    rw [hown, hqueues]
    split
    · rename_i ha
      rw [hq.queueings, ← ha]
      exact hmem
    · exact hmem

theorem rests_of_queue (hwf : g.Wf) (hinj : Function.Injective d.crypto.keccak256) {delay : Delay}
    {q : TxQueue H} (hstate : g.state d id = .ok .Succeeded)
    (hq : TxQueue.QueuedAll d.crypto ((g.store.proposals id).actions (g.timestamp + delay))
      (g.queues (g.ownTimelock id)) q)
    (hg : g' = (g.setProposal id { g.store.proposals id with
      eta := g.timestamp + delay }).setQueue (g.ownTimelock id) q)
    (hbegun : g.Begun d) : Rests d g g' := by
  have hdelay : 0 < (delay : Nat) := Nat.lt_of_lt_of_le (by decide) delay.2.1
  have hp : g'.store.proposals id = { g.store.proposals id with eta := g.timestamp + delay } := by
    simp [hg, setQueue, setProposal]
  have hother : ∀ b, b ≠ id → g'.store.proposals b = g.store.proposals b := by
    intro b hb
    simp [hg, setQueue, setProposal, hb]
  have hlocks : SameTimelocks g g' := by
    rw [hg]
    exact ⟨rfl, rfl⟩
  have hown : ∀ b, g'.ownTimelock b = g.ownTimelock b := by
    intro b
    refine hlocks.getProposalTimelock_eq ?_
    by_cases hb : b = id
    · rw [hb, hp]
    · rw [hother b hb]
  have hnotexec : (g.store.proposals id).executed ≠ true := by
    obtain ⟨_, -, hin⟩ := hwf.isIn hstate
    cases hin with
    | succeeded _ _ _ hz => exact fun hx => hwf.eta_of_executed hx hz
  have hqueues : ∀ a, g'.queues a = if a = g.ownTimelock id then q else g.queues a := by
    intro a
    rw [hg]
    by_cases ha : a = g.ownTimelock id
    · simp [setQueue, ha]
    · simp [setQueue, ha, setProposal]
  refine ⟨by rw [hg]; rfl, Nat.le_of_eq (by rw [hg]; rfl), ?_, ?_, ?_, ?_, ?_⟩
  · intro a
    rw [hqueues]
    split
    · rename_i ha
      rw [ha, hq.runs]
    · rfl
  · intro a tx heta hfree
    rw [hqueues]
    split
    · rename_i ha
      subst ha
      rw [hq.others]
      · exact hfree
      · intro tx' htx' heq
        have heq' : tx' = tx := Preimage.transaction.inj (hinj heq)
        have hlater := ProposalTxs.eta_of_mem_actions htx'
        rw [heq'] at hlater
        omega
    · exact hfree
  · intro b
    by_cases hb : b = id
    · rw [hb, hp]
    · rw [hother b hb]
  · intro b hb
    have hbid : b ≠ id := by
      rintro rfl
      exact hnotexec hb
    exact ⟨hown b, by rw [hother b hbid], by rw [hother b hbid]⟩
  · intro b hb tx htx
    rw [hown, hqueues]
    by_cases hbid : b = id
    · subst hbid
      rw [if_pos rfl]
      rw [actions, hp] at htx
      exact (hq.queueings tx).mpr (.inl htx)
    · rw [actions, hother b hbid] at htx
      rw [hother b hbid] at hb
      have hmem := hbegun.queueings b hb tx htx
      split
      · rename_i ha
        rw [ha] at hmem
        exact (hq.queueings tx).mpr (.inr hmem)
      · exact hmem

theorem QueueStep.ranOnce [DecidableEq H] (hstep : QueueStep d g g' l) (hwf : g.Wf)
    (hlocks : SameTimelocks g g') (hinj : Function.Injective d.crypto.keccak256)
    (hown : g.OwnTimelock l) (hbegun : g.Begun d) (hran : ∀ b, g.Ran b) :
    g'.Begun d ∧ ∀ b, g'.Ran b := by
  cases hstep with
  | quiet l hqueues hexec htime hsame =>
    have hrests := rests_of_quiet hwf hlocks htime hsame hqueues hexec hbegun
    exact ⟨hrests.begun hbegun, hrests.ran hran⟩
  | queue id delay q hstate hq hg =>
    have hrests := rests_of_queue hwf hinj hstate hq hg hbegun
    exact ⟨hrests.begun hbegun, hrests.ran hran⟩
  | cancel id q halive hq hg =>
    have hrests := rests_of_withdraw hg rfl rfl rfl rfl hq hbegun
    exact ⟨hrests.begun hbegun, hrests.ran hran⟩
  | veto id q hq hg =>
    have hrests := rests_of_withdraw hg rfl rfl rfl rfl hq hbegun
    exact ⟨hrests.begun hbegun, hrests.ran hran⟩
  | execute id timelock hstate hcont =>
    have hbetween := between_of_execute hbegun hran (holding_of_queued hwf hstate)
    refine hbetween.continues ?_
    have hsame : (g.setProposal id { g.store.proposals id with executed := true }).ownTimelock id =
        g.ownTimelock id := by
      simp only [ownTimelock, setProposal, Function.update_self,
        ProposalStorage.getProposalTimelock]
    rw [hsame, ← show timelock = g.ownTimelock id from hown]
    exact hcont
  | resume x rest hexec hcont =>
    have hbetween := between_of_return hbegun hran hexec
    have hx := (hbegun.running x (hexec ▸ List.mem_cons_self)).2.1
    refine hbetween.continues ?_
    change Continues d _ x.proposalId (g.ownTimelock x.proposalId) (x.i + 1) g'
    rw [← hx]
    exact hcont

end Gov

/-! ## Runs -/

theorem Executor.count_runs (e : Executor H) (tx : Transaction) :
    e.toQueue.runs.count tx = e.log.count (.ExecuteTransaction tx) := by
  simp only [toQueue]
  induction e.log with
  | nil => rfl
  | cons ev log ih =>
    cases ev with
    | ExecuteTransaction tx' =>
      simp [ExecutorEvent.run?, List.count_cons, ih]
    | _ => simp [List.filterMap_cons, ExecutorEvent.run?, ih]

theorem Executor.mem_queueings {e : Executor H} {tx : Transaction}
    (h : tx ∈ e.toQueue.queueings) : .QueueTransaction tx ∈ e.log := by
  obtain ⟨ev, hev, heq⟩ := List.mem_filterMap.mp h
  cases ev with
  | QueueTransaction tx' =>
    cases heq
    exact hev
  | _ => cases heq

namespace World

/-- The DAO is in the loop over the actions of proposal `id`. -/
def IsExecuting (w : World H) (id : Nat) : Prop :=
  ∃ f ∈ w.frames, ∃ x, f.execution? = some x ∧ x.proposalId = id

/-- No proposals yet, and no timelock has run something that is still queued. -/
def StartSettled (d : Deployment H) (w : World H) : Prop :=
  w.StartGoverned d ∧ ∀ a, (w.executors a).toQueue.Settled d.crypto w.timestamp

variable [DecidableEq H] {d : Deployment H} {w : World H}

/-- Steps that run a proposal on no timelock but its own. -/
abbrev NextOwn (d : Deployment H) : World H → World H → Prop :=
  NextGoverned d (fun w a => w.gov.OwnTimelock (w.label a))

theorem ranOnce_of_reachable (hinj : Function.Injective d.crypto.keccak256)
    (h : Reachable (StartSettled d) (NextOwn d) w) : w.gov.Begun d ∧ ∀ b, w.gov.Ran b := by
  refine h.invariant (P := fun w => w.gov.Begun d ∧ ∀ b, w.gov.Ran b) ?_ ?_
  · rintro w ⟨hw, hsettled⟩
    have hproposal : ∀ id, w.gov.store.proposals id = Proposal.empty := hw.1.proposals
    have hexec : w.gov.executing = [] := by
      simp only [gov, hw.1.frames, List.filterMap_nil]
    have hstarted : ∀ a, w.gov.started a = (w.executors a).toQueue.runs := by
      intro a
      rw [Gov.started, hexec]
      rfl
    refine ⟨⟨?_, ?_, ?_, ?_, ?_⟩, ?_⟩
    · intro id heta
      rw [hproposal] at heta
      exact absurd rfl heta
    · intro a
      rw [hstarted]
      exact (hsettled a).nodup
    · intro a tx htx
      rw [hstarted] at htx
      exact (hsettled a).spent tx htx
    · intro x hx
      rw [hexec] at hx
      cases hx
    · rw [hexec]
      exact List.nodup_nil
    · intro b hb
      rw [hproposal] at hb
      cases hb
  · rintro w w' hr ⟨hbegun, hran⟩ hn
    obtain ⟨hwf, -, hgov⟩ := governed_of_reachable (hr.mono (fun _ h => h.1) (fun _ _ h => h))
    obtain ⟨l, hown, hstep⟩ := hn.1.queueStep (K := fun g l => g.OwnTimelock l) trivial hwf
    exact hstep.ranOnce hwf (hgov.sameTimelocks hn.2) hinj hown hbegun hran

/-- In runs that execute proposals on their own timelock only, every action of an executed proposal
was queued there, ran there exactly once, and is no longer queued. -/
theorem executed_actions_ran_once (hinj : Function.Injective d.crypto.keccak256)
    (h : Reachable (StartSettled d) (NextOwn d) w) (id : Nat)
    (hexecuted : (w.dao.proposals id).executed = true) (hidle : ¬ w.IsExecuting id) :
    ∀ i < (w.dao.proposals id).targets.length,
      ∃ tx, (w.dao.proposals id).action (w.dao.proposals id).eta i = .ok tx ∧
        let e := w.executors (w.dao.getProposalTimelock (w.dao.proposals id))
        .QueueTransaction tx ∈ e.log ∧ e.log.count (.ExecuteTransaction tx) = 1 ∧
          e.isQueued d.crypto tx = false := by
  intro i hi
  obtain ⟨hbegun, hran⟩ := ranOnce_of_reachable hinj h
  have hwf := (governed_of_reachable (h.mono (fun _ h => h.1) (fun _ _ h => h))).1
  obtain ⟨tx, htx⟩ := (hwf.aligned id).action_ok (w.dao.proposals id).eta hi
  have hmem : tx ∈ w.gov.actions id := ProposalTxs.mem_actions.mpr ⟨i, hi, htx⟩
  have hruns := hran id hexecuted (by
    intro x hx heq
    obtain ⟨f, hf, hfx⟩ := List.mem_filterMap.mp hx
    exact hidle ⟨f, hf, x, hfx, heq⟩) tx hmem
  have hstarted : tx ∈ w.gov.started (w.gov.ownTimelock id) := List.mem_append_right _ hruns
  refine ⟨tx, htx, ?_, ?_, (hbegun.spent _ tx hstarted).2⟩
  · exact Executor.mem_queueings (hbegun.queueings id (hwf.eta_of_executed hexecuted) tx hmem)
  · rw [← Executor.count_runs]
    exact List.count_eq_one_of_mem (hbegun.nodup _).of_append_right hruns

instance (w : World H) (id : Nat) : Decidable (w.IsExecuting id) :=
  decidable_of_iff (∃ f ∈ w.frames, (f.execution?.map Execution.proposalId) = some id) (by
    simp [IsExecuting])

theorem sample_settled : World.sample.StartSettled .sample :=
  ⟨⟨World.sample_fresh, by decide⟩, fun _ => ⟨List.nodup_nil, by simp [World.sample, Executor.sample,
    Executor.toQueue]⟩⟩

/-- Proposal 1 is queued, and executed two days later. -/
theorem executed_actions_ran_once_after_delay :
    ∃ w, Reachable (StartSettled .sample) (NextOwn .sample) w ∧
      (w.dao.proposals 1).executed = true ∧
      ∃ tx, (w.dao.proposals 1).action (w.dao.proposals 1).eta 0 = .ok tx ∧
        let e := w.executors (w.dao.getProposalTimelock (w.dao.proposals 1))
        .QueueTransaction tx ∈ e.log ∧ e.log.count (.ExecuteTransaction tx) = 1 ∧
          e.isQueued .transparent tx = false := by
  have hrun : Yields (World.sample.run .sample
      (fun w a w' => w'.Governed .sample ∧ w.gov.OwnTimelock (w.label a))
      (twoProposals ++ [.ofDAO ⟨5, by decide⟩ (.queue 1), .advance 7205 272800,
        .ofDAO ⟨5, by decide⟩ (.execute 1), .return_ 0 0]))
      (fun w => (w.dao.proposals 1).executed = true ∧ ¬ w.IsExecuting 1 ∧
        0 < (w.dao.proposals 1).targets.length) := by
    decide +kernel
  obtain ⟨w, hw, hexecuted, hidle, hlen⟩ := hrun
  have hr : Reachable (StartSettled .sample) (NextOwn .sample) w := by
    refine ⟨World.sample, sample_settled, run_steps ?_ hw⟩
    exact fun w a w' hstep hw' => ⟨.step a hw'.2 hstep, hw'.1⟩
  exact ⟨w, hr, hexecuted, executed_actions_ran_once (fun _ _ h => h) hr 1 hexecuted hidle 0 hlen⟩

/-- Proposal 2 asks for the same action on the first timelock, and both are queued in one block.
`executeOnTimelockV1` then executes proposal 1 there: on its own timelock its action never ran, and
is still queued. -/
theorem executed_on_other_timelock :
    Function.Injective Deployment.sample.crypto.keccak256 ∧
    ∃ w, Reachable (StartSettled .sample) (NextGoverned .sample (fun _ _ => True)) w ∧
      (w.dao.proposals 1).executed = true ∧ ¬ w.IsExecuting 1 ∧
      ∃ tx, (w.dao.proposals 1).action (w.dao.proposals 1).eta 0 = .ok tx ∧
        let e := w.executors (w.dao.getProposalTimelock (w.dao.proposals 1))
        e.log.count (.ExecuteTransaction tx) = 0 ∧ e.isQueued .transparent tx = true := by
  have hrun : Yields (World.sample.run .sample (fun _ _ w' => w'.Governed .sample)
      [.callToken ⟨7, by decide⟩ .mint, .advance 2 2,
        .ofDAO ⟨7, by decide⟩ (.propose .sample ""),
        .ofDAO ⟨8, by decide⟩ (.proposeOnTimelockV1 .sample ""), .advance 4 4,
        .ofDAO ⟨7, by decide⟩ (.castVote 1 1), .ofDAO ⟨7, by decide⟩ (.castVote 2 1),
        .advance 7204 100000, .ofDAO ⟨5, by decide⟩ (.queue 1), .ofDAO ⟨5, by decide⟩ (.queue 2),
        .advance 7205 272800, .ofDAO ⟨5, by decide⟩ (.executeOnTimelockV1 1), .return_ 0 0])
      (fun w => (w.dao.proposals 1).executed = true ∧ ¬ w.IsExecuting 1 ∧
        Yields ((w.dao.proposals 1).action (w.dao.proposals 1).eta 0) (fun tx =>
          let e := w.executors (w.dao.getProposalTimelock (w.dao.proposals 1))
          e.log.count (.ExecuteTransaction tx) = 0 ∧ e.isQueued .transparent tx = true)) := by
    decide +kernel
  obtain ⟨w, hw, hexecuted, hidle, htx⟩ := hrun
  refine ⟨fun _ _ h => h, w, ⟨World.sample, sample_settled, run_steps ?_ hw⟩, hexecuted, hidle, htx⟩
  exact fun w a w' hstep hgov => ⟨.step a trivial hstep, hgov⟩

end World

end Nouns

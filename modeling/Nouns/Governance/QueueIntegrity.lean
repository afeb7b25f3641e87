import Nouns.Governance.Timelocks

/-!
# QueueIntegrity — the actions of a queued proposal are on its timelock

A timelock knows its entries by content and eta only, so proposals with equal actions can stand for
one entry.  As long as no step withdraws an entry in the name of a proposal that gave it up before,
or runs a proposal on a timelock it was not queued on, every queued proposal has its entries for
itself.
-/

open Fallible Transition

namespace Nouns

variable {H : Type}

namespace Gov

variable {d : Deployment H} {g g' : Gov H} {a b id : Nat} {l : Label}

/-- Proposals `a` and `b` have no action with its eta in common. -/
def Apart (g : Gov H) (a b : Nat) : Prop := ∀ tx ∈ g.actions a, tx ∉ g.actions b

/-- Every other queued proposal on `timelock` is apart from `id`. -/
def ApartOn (d : Deployment H) (g : Gov H) (id : Nat) (timelock : Address) : Prop :=
  ∀ b, b ≠ id → g.state d b = .ok .Queued → g.ownTimelock b = timelock → g.Apart id b

/-- The step takes no entry from a queued proposal: a veto of a canceled or vetoed proposal, and an
execution on a timelock other than the proposal's own, only go ahead when no queued proposal shares
an action with it there. -/
def KeepsQueues (d : Deployment H) (g : Gov H) : Label → Prop
  | .veto id => g.state d id = .ok .Canceled ∨ g.state d id = .ok .Vetoed →
      g.ApartOn d id (g.ownTimelock id)
  | .execute id timelock => timelock ≠ g.ownTimelock id → g.ApartOn d id timelock
  | _ => True

/-- Queued proposals have their entries, and each for itself. -/
structure Held (d : Deployment H) (g : Gov H) : Prop where
  marked : ∀ id, g.state d id = .ok .Queued → ∀ tx ∈ g.actions id,
    (g.queues (g.ownTimelock id)).queued (Executor.txHash d.crypto tx) = true
  apart : ∀ id, (g.store.proposals id).Holding ∨ (g.store.proposals id).executed = true →
    g.ApartOn d id (g.ownTimelock id)
  due : ∀ id, (g.store.proposals id).executed = true → ∀ tx ∈ g.actions id, tx.eta ≤ g.timestamp
  running : ∀ x ∈ g.executing, (g.store.proposals x.proposalId).executed = true ∧
    g.ApartOn d x.proposalId x.timelock

theorem eta_of_mem {tx : Transaction} (h : tx ∈ g.actions id) :
    tx.eta = (g.store.proposals id).eta :=
  ProposalTxs.eta_of_mem_actions h

theorem Wf.eta_of_executed (hwf : g.Wf) (h : (g.store.proposals id).executed = true) :
    (g.store.proposals id).eta ≠ 0 :=
  (hwf.timeline id).executed h

/-- The proposal was queued, and kept its entries or was executed. -/
def Taken (g : Gov H) (id : Nat) : Prop :=
  (g.store.proposals id).Holding ∨ (g.store.proposals id).executed = true

theorem Taken.eta (hwf : g.Wf) (h : g.Taken id) : (g.store.proposals id).eta ≠ 0 :=
  h.elim Proposal.Holding.eta hwf.eta_of_executed

/-! ## Steps that queue nothing -/

/-- Nothing is queued anew, and queued proposals keep their entries. -/
structure Keeps (d : Deployment H) (g g' : Gov H) : Prop where
  queued : ∀ b, g'.state d b = .ok .Queued → g.state d b = .ok .Queued
  taken : ∀ b, g'.Taken b → g.Taken b ∧ g'.ownTimelock b = g.ownTimelock b ∧
    g'.actions b = g.actions b
  due : ∀ b, (g'.store.proposals b).executed = true → ∀ tx ∈ g.actions b, tx.eta ≤ g'.timestamp
  marked : ∀ b, g'.state d b = .ok .Queued → ∀ tx ∈ g.actions b,
    (g'.queues (g.ownTimelock b)).queued (Executor.txHash d.crypto tx) = true
  running : ∀ x ∈ g'.executing, (g'.store.proposals x.proposalId).executed = true ∧
    g.ApartOn d x.proposalId x.timelock

theorem Keeps.apartOn (h : Keeps d g g') (hwf' : g'.Wf) {timelock : Address} (hid : g'.Taken id)
    (hapart : g.ApartOn d id timelock) : g'.ApartOn d id timelock := by
  intro b hne hb hown tx htx
  obtain ⟨-, hown_b, hactions_b⟩ := h.taken b (.inl (holding_of_queued hwf' hb))
  rw [hactions_b]
  rw [(h.taken id hid).2.2] at htx
  exact hapart b hne (h.queued b hb) (hown_b ▸ hown) tx htx

theorem Keeps.held (h : Keeps d g g') (hwf' : g'.Wf) (hheld : g.Held d) : g'.Held d := by
  refine ⟨?_, ?_, ?_, ?_⟩
  · intro id hid tx htx
    obtain ⟨-, hown, hactions⟩ := h.taken id (.inl (holding_of_queued hwf' hid))
    rw [hown]
    exact h.marked id hid tx (hactions ▸ htx)
  · intro id hid
    obtain ⟨htaken, hown, -⟩ := h.taken id hid
    rw [hown]
    exact h.apartOn hwf' hid (hheld.apart id htaken)
  · intro id hid tx htx
    exact h.due id hid tx ((h.taken id (.inr hid)).2.2 ▸ htx)
  · intro x hx
    obtain ⟨hexecuted, hapart⟩ := h.running x hx
    exact ⟨hexecuted, h.apartOn hwf' (.inr hexecuted) hapart⟩

section Steps

variable (hwf : g.Wf) (hwf' : g'.Wf) (hwon : g.Won) (hwon' : g'.Won)

include hwf hwf' hwon hwon' in
theorem queued_of_same (hlocks : SameTimelocks g g') (htime : g.timestamp ≤ g'.timestamp)
    (hsame : (g.store.proposals b).SameQueued (g'.store.proposals b))
    (h : g'.state d b = .ok .Queued) : g.state d b = .ok .Queued := by
  obtain ⟨hold', ht'⟩ := (queued_iff hwf' hwon').mp h
  have hold := hsame.holding hold'
  refine (queued_iff hwf hwon).mpr ⟨hold, ?_⟩
  rw [hsame.eta, (quiet_same hlocks hsame hold.eta).1] at ht'
  exact Nat.lt_of_le_of_lt htime ht'

include hwf in
theorem taken_of_same (hlocks : SameTimelocks g g')
    (hsame : (g.store.proposals b).SameQueued (g'.store.proposals b)) (h : g'.Taken b) :
    g.Taken b ∧ g'.ownTimelock b = g.ownTimelock b ∧ g'.actions b = g.actions b := by
  have htaken : g.Taken b := h.imp hsame.holding (hsame.executed ▸ ·)
  exact ⟨htaken, quiet_same hlocks hsame (htaken.eta hwf)⟩

include hwf hwf' hwon hwon' in
theorem keeps_of_quiet (hlocks : SameTimelocks g g') (htime : g.timestamp ≤ g'.timestamp)
    (hsame : ∀ id, (g.store.proposals id).SameQueued (g'.store.proposals id))
    (hqueues : g'.queues = g.queues) (hexec : g'.executing = g.executing) (h : g.Held d) :
    Keeps d g g' := by
  have hqueued : ∀ b, g'.state d b = .ok .Queued → g.state d b = .ok .Queued :=
    fun b => queued_of_same hwf hwf' hwon hwon' hlocks htime (hsame b)
  refine ⟨hqueued, fun b => taken_of_same hwf hlocks (hsame b), ?_, ?_, ?_⟩
  · intro b hb tx htx
    exact Nat.le_trans (h.due b ((hsame b).executed ▸ hb) tx htx) htime
  · intro b hb tx htx
    rw [hqueues]
    exact h.marked b (hqueued b hb) tx htx
  · intro x hx
    obtain ⟨hexecuted, hapart⟩ := h.running x (hexec ▸ hx)
    exact ⟨(hsame _).executed.trans hexecuted, hapart⟩

/-! ## Withdrawing entries -/

include hwf hwf' hwon hwon' in
theorem keeps_of_withdraw (hinj : Function.Injective d.crypto.keccak256) {p : Proposal}
    {q : TxQueue H} (hg : g' = (g.setProposal id p).setQueue (g.ownTimelock id) q)
    (hdead : ¬ p.Alive) (heta : p.eta = (g.store.proposals id).eta)
    (hexecuted : p.executed = (g.store.proposals id).executed)
    (htxs : p.toProposalTxs = (g.store.proposals id).toProposalTxs)
    (hflag : p.executeOnTimelockV1 = (g.store.proposals id).executeOnTimelockV1)
    (hq : TxQueue.CanceledAll d.crypto (g.actions id) (g.queues (g.ownTimelock id)) q)
    (hapart : g.ApartOn d id (g.ownTimelock id)) (h : g.Held d) : Keeps d g g' := by
  have hp : g'.store.proposals id = p := by simp [hg, setQueue, setProposal]
  have hother : ∀ b, b ≠ id → g'.store.proposals b = g.store.proposals b := by
    intro b hb
    simp [hg, setQueue, setProposal, hb]
  have hlocks : SameTimelocks g g' := by
    rw [hg]
    exact ⟨rfl, rfl⟩
  have htime : g'.timestamp = g.timestamp := by rw [hg]; rfl
  have hne : ∀ b, g'.state d b = .ok .Queued → b ≠ id := by
    rintro b hb rfl
    rw [← hp] at hdead
    exact hdead (holding_of_queued hwf' hb).alive
  have hqueued : ∀ b, g'.state d b = .ok .Queued → g.state d b = .ok .Queued := by
    intro b hb
    refine queued_of_same hwf hwf' hwon hwon' hlocks (Nat.le_of_eq htime.symm) ?_ hb
    rw [hother b (hne b hb)]
    exact .refl _
  have hexecuted' : ∀ b, (g'.store.proposals b).executed = (g.store.proposals b).executed := by
    intro b
    by_cases hb : b = id
    · rw [hb, hp, hexecuted]
    · rw [hother b hb]
  refine ⟨hqueued, ?_, ?_, ?_, ?_⟩
  · intro b hb
    by_cases hbid : b = id
    · subst hbid
      refine ⟨?_, hlocks.getProposalTimelock_eq (by rw [hp, hflag]), ?_⟩
      · rcases hb with hb | hb
        · rw [← hp] at hdead
          exact absurd hb.alive hdead
        · exact .inr (hexecuted' b ▸ hb)
      · rw [actions, actions, hp, htxs, heta]
    · refine taken_of_same hwf hlocks ?_ hb
      rw [hother b hbid]
      exact .refl _
  · intro b hb tx htx
    rw [htime]
    exact h.due b (hexecuted' b ▸ hb) tx htx
  · intro b hb tx htx
    have hmarked := h.marked b (hqueued b hb) tx htx
    by_cases hown : g.ownTimelock b = g.ownTimelock id
    · have hnot : ∀ tx' ∈ g.actions id, Executor.txHash d.crypto tx' ≠
          Executor.txHash d.crypto tx := by
        intro tx' htx' heq
        have heq' : tx' = tx := Preimage.transaction.inj (hinj heq)
        exact hapart b (hne b hb) (hqueued b hb) hown tx' htx' (heq' ▸ htx)
      rw [hg, hown]
      simp only [setQueue, Function.update_self]
      rw [hq.others _ hnot, ← hown]
      exact hmarked
    · rw [hg]
      simp only [setQueue, Function.update_of_ne hown]
      exact hmarked
  · intro x hx
    rw [hg] at hx
    obtain ⟨hx₁, hx₂⟩ := h.running x hx
    exact ⟨(hexecuted' _).trans hx₁, hx₂⟩

/-- A proposal that was not queued has no entry at all. -/
theorem apartOn_of_eta {timelock : Address} (hwf : g.Wf) (heta : (g.store.proposals id).eta = 0) :
    g.ApartOn d id timelock := by
  intro b _ hb _ tx htx htx'
  have hetab := (holding_of_queued hwf hb).eta
  rw [← eta_of_mem htx', eta_of_mem htx] at hetab
  exact hetab heta

/-- A proposal that is neither canceled nor vetoed holds its entries alone. -/
theorem Held.apartOn_of_alive (h : g.Held d) (hwf : g.Wf)
    (halive : (g.store.proposals id).Alive) : g.ApartOn d id (g.ownTimelock id) := by
  by_cases heta : (g.store.proposals id).eta = 0
  · exact apartOn_of_eta hwf heta
  · by_cases hx : (g.store.proposals id).executed = true
    · exact h.apart id (.inr hx)
    · exact h.apart id (.inl ⟨heta, Bool.eq_false_iff.mpr hx, halive⟩)

theorem Held.apartOn_of_veto (h : g.Held d) (hwf : g.Wf) (hkeeps : g.KeepsQueues d (.veto id)) :
    g.ApartOn d id (g.ownTimelock id) := by
  by_cases heta : (g.store.proposals id).eta = 0
  · exact apartOn_of_eta hwf heta
  · by_cases halive : (g.store.proposals id).Alive
    · exact h.apartOn_of_alive hwf halive
    · -- The state of a proposal that is not alive is one of the two that the condition names.
      obtain ⟨s, hs⟩ := hwf.stateInternal_ok (hwf.le_of_eta heta) (g.clock d)
      obtain ⟨b, -, hin⟩ := hwf.isIn hs
      refine hkeeps ?_
      by_cases hv : (g.store.proposals id).vetoed = true
      · exact .inr (hin.unique (.vetoed hv) ▸ hs)
      · have hv' := Bool.eq_false_iff.mpr hv
        have hc : (g.store.proposals id).canceled = true := by
          by_contra hc
          exact halive ⟨hv', Bool.eq_false_iff.mpr hc⟩
        exact .inl (hin.unique (.canceled hv' hc) ▸ hs)

/-! ## Executing -/

include hwf hwf' hwon hwon' in
/-- The execution of `id` goes on from `g₁`, which differs from `g` in nothing that is still
queued. -/
theorem keeps_of_continues [DecidableEq H] (hinj : Function.Injective d.crypto.keccak256) {g₁ : Gov H} {i : Nat}
    {timelock : Address} (hcont : g₁.Continues d id timelock i g')
    (hstore : g₁.store = (g.setProposal id { g.store.proposals id with executed := true }).store)
    (htime : g₁.timestamp = g.timestamp)
    (hqueues : ∀ a, (g₁.queues a).queued = (g.queues a).queued)
    (hexec : ∀ x ∈ g₁.executing, x ∈ g.executing) (htaken : g.Taken id)
    (hdue : ∀ tx ∈ g.actions id, tx.eta ≤ g.timestamp) (hapart : g.ApartOn d id timelock)
    (h : g.Held d) : Keeps d g g' := by
  obtain ⟨hstore', -, htime'⟩ := hcont.same
  rw [hstore] at hstore'
  have htime'' : g'.timestamp = g.timestamp := htime'.trans htime
  have hp : g'.store.proposals id = { g.store.proposals id with executed := true } := by
    simp [hstore', setProposal]
  have hother : ∀ b, b ≠ id → g'.store.proposals b = g.store.proposals b := by
    intro b hb
    simp [hstore', setProposal, hb]
  have hlocks : SameTimelocks g g' := by
    unfold SameTimelocks
    rw [hstore']
    exact ⟨rfl, rfl⟩
  have hne : ∀ b, g'.state d b = .ok .Queued → b ≠ id := by
    rintro b hb rfl
    have hx := (holding_of_queued hwf' hb).executed
    rw [hp] at hx
    cases hx
  have hqueued : ∀ b, g'.state d b = .ok .Queued → g.state d b = .ok .Queued := by
    intro b hb
    refine queued_of_same hwf hwf' hwon hwon' hlocks (Nat.le_of_eq htime''.symm) ?_ hb
    rw [hother b (hne b hb)]
    exact .refl _
  have hexecuted : ∀ b, (g.store.proposals b).executed = true →
      (g'.store.proposals b).executed = true := by
    intro b hb
    by_cases hbid : b = id
    · rw [hbid, hp]
    · rw [hother b hbid]
      exact hb
  refine ⟨hqueued, ?_, ?_, ?_, ?_⟩
  · intro b hb
    by_cases hbid : b = id
    · subst hbid
      exact ⟨htaken, hlocks.getProposalTimelock_eq (by rw [hp]), by rw [actions, actions, hp]⟩
    · refine taken_of_same hwf hlocks ?_ hb
      rw [hother b hbid]
      exact .refl _
  · intro b hb tx htx
    rw [htime'']
    by_cases hbid : b = id
    · exact hdue tx (hbid ▸ htx)
    · rw [hother b hbid] at hb
      exact h.due b hb tx htx
  · intro b hb tx htx
    have hmarked := h.marked b (hqueued b hb) tx htx
    rw [← hqueues] at hmarked
    cases hcont with
    | done hi => exact hmarked
    | next tx' hi haction hq heta =>
      have hmem : tx' ∈ g.actions id := by
        rw [hstore] at hi haction
        simp only [setProposal, Function.update_self] at hi haction
        exact ProposalTxs.mem_actions.mpr ⟨i, hi, haction⟩
      by_cases hown : g.ownTimelock b = timelock
      · have hnot : Executor.txHash d.crypto tx ≠ Executor.txHash d.crypto tx' := by
          intro heq
          have heq' : tx = tx' := Preimage.transaction.inj (hinj heq)
          exact hapart b (hne b hb) (hqueued b hb) hown tx' hmem (heq' ▸ htx)
        rw [hown] at hmarked ⊢
        simp only [setQueue, Function.update_self, Function.update_of_ne hnot]
        exact hmarked
      · simp only [setQueue, Function.update_of_ne hown]
        exact hmarked
  · intro x hx
    cases hcont with
    | done hi =>
      obtain ⟨hx₁, hx₂⟩ := h.running x (hexec x hx)
      exact ⟨hexecuted _ hx₁, hx₂⟩
    | next tx' hi haction hq heta =>
      rcases List.mem_cons.mp hx with rfl | hx
      · exact ⟨by rw [hp], hapart⟩
      · obtain ⟨hx₁, hx₂⟩ := h.running x (hexec x hx)
        exact ⟨hexecuted _ hx₁, hx₂⟩

/-- Execution begins with the check that the proposal's eta has come. -/
theorem Continues.due [DecidableEq H] {timelock : Address} (hcont : g.Continues d id timelock 0 g') :
    ∀ tx ∈ g.actions id, tx.eta ≤ g.timestamp := by
  intro tx htx
  cases hcont with
  | next tx' hi haction hq heta =>
    rw [eta_of_mem htx, ← ProposalTxs.action_eta haction]
    exact heta
  | done hi =>
    obtain ⟨i, hlt, -⟩ := ProposalTxs.mem_actions.mp htx
    exact absurd hlt (by omega)

theorem setExecuted_of_executed (h : (g.store.proposals id).executed = true) :
    (g.setProposal id { g.store.proposals id with executed := true }).store = g.store := by
  have hp : { g.store.proposals id with executed := true } = g.store.proposals id := by
    rw [← h]
  simp [setProposal, hp]

/-! ## Queueing -/

include hwf hwf' hwon hwon' in
theorem held_of_queue (hinj : Function.Injective d.crypto.keccak256) {delay : Delay}
    {q : TxQueue H} (hstate : g.state d id = .ok .Succeeded)
    (hq : TxQueue.QueuedAll d.crypto ((g.store.proposals id).actions (g.timestamp + delay))
      (g.queues (g.ownTimelock id)) q)
    (hg : g' = (g.setProposal id { g.store.proposals id with
      eta := g.timestamp + delay }).setQueue (g.ownTimelock id) q)
    (h : g.Held d) : g'.Held d := by
  have hdelay : 0 < (delay : Nat) := Nat.lt_of_lt_of_le (by decide) delay.2.1
  have hp : g'.store.proposals id = { g.store.proposals id with eta := g.timestamp + delay } := by
    simp [hg, setQueue, setProposal]
  have hother : ∀ b, b ≠ id → g'.store.proposals b = g.store.proposals b := by
    intro b hb
    simp [hg, setQueue, setProposal, hb]
  have hlocks : SameTimelocks g g' := by
    rw [hg]
    exact ⟨rfl, rfl⟩
  have htime : g'.timestamp = g.timestamp := by rw [hg]; rfl
  have hown : ∀ b, g'.ownTimelock b = g.ownTimelock b := by
    intro b
    refine hlocks.getProposalTimelock_eq ?_
    by_cases hb : b = id
    · rw [hb, hp]
    · rw [hother b hb]
  have hactions : ∀ b, b ≠ id → g'.actions b = g.actions b := by
    intro b hb
    rw [actions, actions, hother b hb]
  have hqueued : ∀ b, b ≠ id → g'.state d b = .ok .Queued → g.state d b = .ok .Queued := by
    intro b hb hstate
    refine queued_of_same hwf hwf' hwon hwon' hlocks (Nat.le_of_eq htime.symm) ?_ hstate
    rw [hother b hb]
    exact .refl _
  have hid : g'.actions id = (g.store.proposals id).actions (g.timestamp + delay) := by
    rw [actions, hp]
  have hnew : ∀ tx ∈ g'.actions id, tx.eta = g.timestamp + delay := by
    intro tx htx
    rw [eta_of_mem htx, hp]
  have hnotexec : (g.store.proposals id).executed = false := by
    obtain ⟨_, -, hin⟩ := hwf.isIn hstate
    cases hin with
    | succeeded _ _ _ hz =>
      by_contra hx
      exact hwf.eta_of_executed (Bool.eq_true_of_not_eq_false hx) hz
  have hexecuted : ∀ b, (g'.store.proposals b).executed = true →
      b ≠ id ∧ (g.store.proposals b).executed = true := by
    intro b hb
    have hbid : b ≠ id := by
      rintro rfl
      rw [hp] at hb
      change (g.store.proposals b).executed = true at hb
      rw [hnotexec] at hb
      cases hb
    exact ⟨hbid, hother b hbid ▸ hb⟩
  -- Two proposals on one timelock, of which the second is queued now or was before.
  have hapart : ∀ b, g.Taken b → b ≠ id → g.ownTimelock id = g.ownTimelock b → g'.Apart b id := by
    intro b hb hbid howns tx htx htx'
    rw [hactions b hbid] at htx
    have hetatx := hnew tx htx'
    rcases hb with hb | hb
    · -- The eta is still to come, so `b` is queued and its entry was not free.
      have hqb : g.state d b = .ok .Queued := by
        refine (queued_iff hwf hwon).mpr ⟨hb, ?_⟩
        rw [← eta_of_mem htx]
        omega
      have hmarked := h.marked b hqb tx htx
      have hfree := hq.fresh tx (hid ▸ htx')
      rw [howns, hmarked] at hfree
      cases hfree
    · have hdue := h.due b hb tx htx
      omega
  refine ⟨?_, ?_, ?_, ?_⟩
  · intro b hb tx htx
    rw [hown]
    by_cases hbid : b = id
    · subst hbid
      rw [hg]
      simp only [setQueue, Function.update_self]
      exact hq.queued tx (hid ▸ htx)
    · rw [hactions b hbid] at htx
      have hmarked := h.marked b (hqueued b hbid hb) tx htx
      by_cases howns : g.ownTimelock b = g.ownTimelock id
      · rw [hg, howns]
        simp only [setQueue, Function.update_self]
        by_cases hmem : tx ∈ (g.store.proposals id).actions (g.timestamp + delay)
        · exact hq.queued tx hmem
        · rw [hq.others _ ?_, ← howns]
          · exact hmarked
          · intro tx' htx' heq
            exact hmem (Preimage.transaction.inj (hinj heq) ▸ htx')
      · rw [hg]
        simp only [setQueue, Function.update_of_ne howns]
        exact hmarked
  · intro a ha b hba hb howns
    rw [hown, hown] at howns
    by_cases haid : a = id
    · subst haid
      intro tx htx htx'
      exact hapart b (.inl (holding_of_queued hwf (hqueued b hba hb))) hba howns.symm tx htx' htx
    · have hataken : g.Taken a := by
        unfold Taken
        rw [← hother a haid]
        exact ha
      by_cases hbid : b = id
      · subst hbid
        exact hapart a hataken haid howns
      · unfold Apart
        rw [hactions a haid, hactions b hbid]
        exact h.apart a hataken b hba (hqueued b hbid hb) howns
  · intro b hb tx htx
    obtain ⟨hbid, hb⟩ := hexecuted b hb
    rw [hactions b hbid] at htx
    rw [htime]
    exact h.due b hb tx htx
  · intro x hx
    have hx₀ : x ∈ g.executing := by
      rw [hg] at hx
      exact hx
    obtain ⟨hx₁, hx₂⟩ := h.running x hx₀
    have hxid : x.proposalId ≠ id := by
      intro heq
      rw [heq, hnotexec] at hx₁
      cases hx₁
    refine ⟨hother _ hxid ▸ hx₁, ?_⟩
    intro b hbx hb howns
    rw [hown] at howns
    by_cases hbid : b = id
    · subst hbid
      -- The running proposal is due, the one queued now is not.
      intro tx htx htx'
      rw [hactions _ hxid] at htx
      have hdue := h.due _ hx₁ tx htx
      have hetatx := hnew tx htx'
      omega
    · unfold Apart
      rw [hactions _ hxid, hactions b hbid]
      exact hx₂ b hbx (hqueued b hbid hb) howns

end Steps

theorem QueueStep.held [DecidableEq H] (hstep : QueueStep d g g' l) (hwf : g.Wf) (hwf' : g'.Wf)
    (hwon : g.Won) (hwon' : g'.Won) (hlocks : SameTimelocks g g')
    (hinj : Function.Injective d.crypto.keccak256) (hkeeps : g.KeepsQueues d l) (h : g.Held d) :
    g'.Held d := by
  cases hstep with
  | quiet l hqueues hexec htime hsame =>
    exact (keeps_of_quiet hwf hwf' hwon hwon' hlocks htime hsame hqueues hexec h).held hwf' h
  | queue id delay q hstate hq hg =>
    exact held_of_queue hwf hwf' hwon hwon' hinj hstate hq hg h
  | cancel id q halive hq hg =>
    refine (keeps_of_withdraw hwf hwf' hwon hwon' hinj hg ?_ rfl rfl rfl rfl hq
      (h.apartOn_of_alive hwf halive) h).held hwf' h
    exact fun hdead => Bool.false_ne_true hdead.2.symm
  | veto id q hq hg =>
    refine (keeps_of_withdraw hwf hwf' hwon hwon' hinj hg ?_ rfl rfl rfl rfl hq
      (h.apartOn_of_veto hwf hkeeps) h).held hwf' h
    exact fun hdead => Bool.false_ne_true hdead.1.symm
  | execute id timelock hstate hcont =>
    have hold := holding_of_queued hwf hstate
    have hapart : g.ApartOn d id timelock := by
      by_cases hown : timelock = g.ownTimelock id
      · rw [hown]
        exact h.apart id (.inl hold)
      · exact hkeeps hown
    have hdue : ∀ tx ∈ g.actions id, tx.eta ≤ g.timestamp := by
      intro tx htx
      refine hcont.due tx ?_
      simpa [actions, setProposal] using htx
    exact (keeps_of_continues hwf hwf' hwon hwon' hinj hcont rfl rfl (fun _ => rfl)
      (fun x hx => hx) (.inl hold) hdue hapart h).held hwf' h
  | resume x rest hexec hcont =>
    obtain ⟨hx, hapart⟩ := h.running x (hexec ▸ List.mem_cons_self)
    refine (keeps_of_continues hwf hwf' hwon hwon' hinj hcont
      (setExecuted_of_executed hx).symm rfl ?_ ?_ (.inr hx) (h.due _ hx) hapart h).held hwf' h
    · intro a
      by_cases ha : a = x.timelock
      · simp [setQueue, ha]
      · simp [setQueue, ha]
    · intro y hy
      rw [hexec]
      exact List.mem_cons_of_mem x hy

end Gov

/-! ## Runs -/

namespace World

variable [DecidableEq H] {d : Deployment H} {w : World H}

/-- Steps that take no entry from a queued proposal. -/
abbrev NextKeeping (d : Deployment H) : World H → World H → Prop :=
  NextGoverned d (fun w a => w.gov.KeepsQueues d (w.label a))

theorem held_of_reachable (hinj : Function.Injective d.crypto.keccak256)
    (h : Reachable (StartGoverned d) (NextKeeping d) w) : w.gov.Held d := by
  refine h.invariant (P := fun w => w.gov.Held d) ?_ ?_
  · intro w hw
    have hnone : ∀ id, (w.gov.store.proposals id).eta = 0 := by
      intro id
      rw [show w.gov.store.proposals id = _ from hw.1.proposals id]
      rfl
    have hwf := hw.1.wf
    refine ⟨?_, ?_, ?_, ?_⟩
    · exact fun id hid => absurd (hnone id) (Gov.holding_of_queued hwf hid).eta
    · exact fun id hid => absurd (hnone id) (Gov.Taken.eta hwf hid)
    · exact fun id hid => absurd (hnone id) (hwf.eta_of_executed hid)
    · intro x hx
      simp only [gov, hw.1.frames, List.filterMap_nil, List.not_mem_nil] at hx
  · intro w w' hr hheld hn
    obtain ⟨hwf, hwon, hgov⟩ := governed_of_reachable hr
    have hstore := hn.1.storeStep
    obtain ⟨l, hkeeps, hstep⟩ := hn.1.queueStep (K := fun g l => g.KeepsQueues d l) trivial hwf
    exact hstep.held hwf (hstore.wf hwf) hwon (hstore.won hwf hwon) (hgov.sameTimelocks hn.2) hinj
      hkeeps hheld

/-- In runs whose steps take no entry from a queued proposal, all actions of every queued proposal
are marked on its own timelock. -/
theorem queued_actions_marked (hinj : Function.Injective d.crypto.keccak256)
    (h : Reachable (StartGoverned d) (NextKeeping d) w) (id : Nat)
    (hid : w.state d id = .ok .Queued) :
    ∀ i < (w.dao.proposals id).targets.length,
      ∃ tx, (w.dao.proposals id).action (w.dao.proposals id).eta i = .ok tx ∧
        (w.executors (w.dao.getProposalTimelock (w.dao.proposals id))).isQueued d.crypto tx =
          true := by
  intro i hi
  have hwf := (governed_of_reachable h).1
  obtain ⟨tx, htx⟩ := (hwf.aligned id).action_ok (w.dao.proposals id).eta hi
  exact ⟨tx, htx, (held_of_reachable hinj h).marked id hid tx
    (ProposalTxs.mem_actions.mpr ⟨i, hi, htx⟩)⟩

/-- 7 and 8 each propose to call address 50, and both win. -/
def twoProposals : List Action :=
  [.callToken .minter .mint, .advance 2 2, .ofDAO .minter (.propose .sample ""),
    .ofDAO .noundersDAO (.propose .sample ""), .advance 4 4, .ofDAO .minter (.castVote 1 1),
    .ofDAO .minter (.castVote 2 1), .advance 7204 100000]

/-- Proposal 1 is canceled after it was queued, and proposal 2 takes the entry it gave up. -/
theorem queued_actions_marked_after_cancel :
    ∃ w, Reachable (StartGoverned .sample) (NextKeeping .sample) w ∧
      w.state .sample 1 = .ok .Canceled ∧ w.state .sample 2 = .ok .Queued ∧
      ∃ tx, (w.dao.proposals 2).action (w.dao.proposals 2).eta 0 = .ok tx ∧
        (w.executors (w.dao.getProposalTimelock (w.dao.proposals 2))).isQueued .transparent tx =
          true := by
  have hrun : Yields (World.sample.run .sample
      (fun w a w' => w'.Governed .sample ∧ w.label a = .other)
      (twoProposals ++ [.ofDAO ⟨5, by decide⟩ (.queue 1), .ofDAO ⟨7, by decide⟩ (.cancel 1),
        .ofDAO ⟨5, by decide⟩ (.queue 2)])) (fun w => w.state .sample 1 = .ok .Canceled ∧
      w.state .sample 2 = .ok .Queued ∧ 0 < (w.dao.proposals 2).targets.length) := by
    decide +kernel
  obtain ⟨w, hw, h₁, h₂, hlen⟩ := hrun
  have hr : Reachable (StartGoverned .sample) (NextKeeping .sample) w := by
    refine ⟨World.sample, ⟨World.sample_fresh, by decide⟩, run_steps ?_ hw⟩
    rintro w a w' hstep ⟨hgov, hlabel⟩
    refine ⟨.step a ?_ hstep, hgov⟩
    rw [hlabel]
    trivial
  exact ⟨w, hr, h₁, h₂, queued_actions_marked (fun _ _ h => h) hr 2 h₂ 0 hlen⟩

/-- Proposals 1 and 2 have one action in common and are queued in one block, the second after the
first was canceled.  A veto of the first then removes the entry the second waits on. -/
theorem veto_of_canceled_unqueues_other :
    Function.Injective Deployment.sample.crypto.keccak256 ∧
    ∃ w, Reachable (StartGoverned .sample) (NextGoverned .sample (fun _ _ => True)) w ∧
      w.state .sample 2 = .ok .Queued ∧
      ∃ tx, (w.dao.proposals 2).action (w.dao.proposals 2).eta 0 = .ok tx ∧
        (w.executors (w.dao.getProposalTimelock (w.dao.proposals 2))).isQueued .transparent tx =
          false := by
  have hrun : Yields (World.sample.run .sample (fun _ _ w' => w'.Governed .sample)
      (twoProposals ++ [.ofDAO ⟨5, by decide⟩ (.queue 1), .ofDAO ⟨7, by decide⟩ (.cancel 1),
        .ofDAO ⟨5, by decide⟩ (.queue 2), .ofDAO ⟨9, by decide⟩ (.veto 1)]))
      (fun w => w.state .sample 2 = .ok .Queued ∧
        Yields ((w.dao.proposals 2).action (w.dao.proposals 2).eta 0) (fun tx =>
          (w.executors (w.dao.getProposalTimelock (w.dao.proposals 2))).isQueued .transparent tx =
            false)) := by
    decide +kernel
  obtain ⟨w, hw, hqueued, htx⟩ := hrun
  refine ⟨fun _ _ h => h, w, ⟨World.sample, ⟨World.sample_fresh, by decide⟩, run_steps ?_ hw⟩,
    hqueued, htx⟩
  exact fun w a w' hstep hgov => ⟨.step a trivial hstep, hgov⟩

end World

end Nouns

import Nouns.Governance.ClosedForks
import Nouns.Governance.Custody
import Nouns.Governance.TreasurySplit
import Nouns.Token.Rewards

/-!
# ForkRecords — what the escrow recorded for a fork

The minter may burn a Noun that waits in the escrow, which notices nothing.  The record stays and
the id does not come back, so that a recorded Noun is in the escrow or burned.  This is enough for
the counter of the escrow, and for those who join a fork to bring other Nouns than the recorded ones.
-/

open Fallible Transition

namespace Nouns

variable {H : Type}

namespace NounsToken

variable {n n' : NounsToken} {now : Nat}

/-- `tokenId` was minted once, and burned. -/
def Burned (n : NounsToken) (tokenId : Nat) : Prop :=
  n.owners tokenId = 0 ∧ tokenId < n.currentNounId

theorem Counts.burned (h : Counts n n') {tokenId : Nat} (hburned : n.Burned tokenId) :
    n'.Burned tokenId := by
  refine ⟨?_, Nat.lt_of_lt_of_le hburned.2 h.le⟩
  by_contra hid
  rcases h.creates tokenId hid with hold | ⟨hge, -⟩
  · exact hold hburned.1
  · exact Nat.not_lt.mpr hge hburned.2

theorem transferFrom_exists {proxies : Address → Address} {sender from_ to_ : Address}
    {tokenId : Nat} (h : n.transferFrom proxies now sender from_ to_ tokenId = .ok n') :
    n.owners tokenId ≠ 0 := by
  simp only [transferFrom, Token.transferFrom, Token.isApprovedOrOwner, bind_eq_ok, require_eq_ok,
    pure_eq_ok] at h
  obtain ⟨t, ⟨approved, ⟨_, hexists, -⟩, -⟩, -⟩ := h
  exact hexists

/-- A loop of transfers mints nothing. -/
theorem transferLoop_counts {σ : Type} (nounsOf : σ → NounsToken) {f : σ → Nat → Tx σ}
    {tokenIds : List Nat} {s s' : σ} (h : tokenIds.foldlM f s = .ok s')
    (hround : ∀ u v tokenId, f u tokenId = .ok v → ∃ proxies now sender from_ to_,
      (nounsOf u).transferFrom proxies now sender from_ to_ tokenId = .ok (nounsOf v)) :
    Counts (nounsOf s) (nounsOf s') := by
  refine foldlM_ok (P := fun u => Counts (nounsOf s) (nounsOf u)) h (.of_owners rfl rfl) ?_
  intro tokenId _ u v hcounts hv
  obtain ⟨_, _, _, _, _, ht⟩ := hround u v tokenId hv
  exact hcounts.trans (transferFrom_counts ht).1

/-- Whoever gives tokens away one after the other owned them all before. -/
theorem transferLoop_owned {proxies : Address → Address} {sender from_ to_ : Address}
    {tokenIds : List Nat}
    (h : tokenIds.foldlM (fun nouns tokenId =>
      NounsToken.transferFrom nouns proxies now sender from_ to_ tokenId) n = .ok n') :
    ∀ tokenId ∈ tokenIds, n.owners tokenId = from_ ∧ n.owners tokenId ≠ 0 := by
  induction tokenIds generalizing n with
  | nil => exact fun _ hmem => absurd hmem List.not_mem_nil
  | cons id tokenIds ih =>
    rw [List.foldlM_cons, bind_eq_ok] at h
    obtain ⟨n₁, ht, hloop⟩ := h
    have hmoved := transferFrom_moved ht
    intro tokenId hmem
    by_cases heq : tokenId = id
    · rw [heq]
      exact ⟨hmoved.owner, transferFrom_exists ht⟩
    · have hafter := ih hloop tokenId (List.mem_of_ne_of_mem heq hmem)
      rw [hmoved.owners, Function.update_of_ne heq] at hafter
      exact hafter

theorem fresh_of_reachable {c : Crypto H} {admits : NounsToken → NounsTokenCall → Prop}
    {s : Clocked NounsToken} (h : Reachable Deployed (Next c admits) s) : s.token.Fresh := by
  refine h.invariant (P := fun s => s.token.Fresh) ?_ ?_
  · rintro s ⟨_, _, _, hs⟩ id hid
    rw [hs] at hid
    exact absurd rfl hid
  · intro s s' _ hfresh hn
    cases hn with
    | advance hlater =>
      rw [hlater.2.2]
      exact hfresh
    | call proxies received sender cl _ hcall => exact (call_counts hcall).1.fresh hfresh

end NounsToken

/-! ## The records of the current fork -/

/-- `n` Nouns are recorded for the current fork.  Each was escrowed by an account that can call the
DAO, and is in the escrow or burned. -/
structure Records (d : Deployment H) (escrow : Address) (n : Nat) (nouns : NounsToken)
    (e : ForkEscrow) : Prop where
  count : e.waiting.encard = n
  depositors : ∀ id ∈ e.waiting, d.Calls escrow (e.escrowedTokensByForkId e.forkId id)
  kept : ∀ id ∈ e.waiting, nouns.owners id = escrow ∨ nouns.Burned id

namespace Records

open ForkEscrow

variable {d : Deployment H} {escrow : Address} {n now : Nat} {nouns nouns' : NounsToken}
  {e e' : ForkEscrow} {proxies : Address → Address}

theorem of_kept (h : Records d escrow n nouns e)
    (hkept : ∀ id ∈ e.waiting, nouns.owners id = escrow ∨ nouns.Burned id →
      nouns'.owners id = escrow ∨ nouns'.Burned id) : Records d escrow n nouns' e :=
  ⟨h.count, h.depositors, fun id hid => hkept id hid (h.kept id hid)⟩

/-- The Noun of somebody else is not recorded. -/
theorem not_waiting (h : Records d escrow n nouns e) {id : Nat} (hexists : nouns.owners id ≠ 0)
    (howner : nouns.owners id ≠ escrow) : id ∉ e.waiting := by
  intro hid
  rcases h.kept id hid with hheld | hburned
  · exact howner hheld
  · exact hexists hburned.1

theorem transferFrom (h : Records d escrow n nouns e) {sender from_ to_ : Address} {id : Nat}
    (hid : id ∉ e.waiting)
    (ht : nouns.transferFrom proxies now sender from_ to_ id = .ok nouns') :
    Records d escrow n nouns' e := by
  refine h.of_kept ?_
  intro id' hid' hkept
  rcases hkept with hheld | hburned
  · have hne : id' ≠ id := fun heq => hid (heq ▸ hid')
    left
    rw [(NounsToken.transferFrom_moved ht).owners, Function.update_of_ne hne]
    exact hheld
  · exact .inr ((NounsToken.transferFrom_counts ht).1.burned hburned)

theorem call {c : Crypto H} {received : Address → Tx Unit} {timestamp : Nat} {sender : Account}
    {cl : NounsTokenCall} (h : Records d escrow n nouns e) (hfresh : nouns.Fresh)
    (hsilent : nouns.toToken.Silent escrow) (hescrow : escrow ≠ 0) (hproxies : proxies escrow = 0)
    (hsender : (sender : Address) ≠ escrow)
    (hcall : nouns.call c proxies received now timestamp sender cl = .ok nouns') :
    Records d escrow n nouns' e := by
  have hcounts := (NounsToken.call_counts hcall).1
  obtain ⟨-, howned⟩ := NounsToken.call_kept hsilent hescrow hproxies hsender hcall
  refine h.of_kept ?_
  intro id _ hkept
  rcases hkept with hheld | hburned
  · rcases howned id hheld with hheld' | ⟨hburn, -⟩
    · exact .inl hheld'
    · -- the minter burns it, and a burned id is one that existed
      subst hburn
      simp only [NounsToken.call, NounsToken.burn, bind_eq_ok, pure_eq_ok] at hcall
      obtain ⟨_, -, t, ht, rfl⟩ := hcall
      refine .inr ⟨?_, ?_⟩
      · exact (congrFun (Token.burnToken_ok ht).owners id).trans (Function.update_self _ _ _)
      · apply hfresh
        rw [hheld]
        exact hescrow
  · exact .inr (hcounts.burned hburned)

theorem deposit (h : Records d escrow n nouns e) {a : Address} {id : Nat}
    (ha : a ≠ 0) (hcalls : d.Calls escrow a)
    (ht : nouns.transferFrom proxies now d.dao a escrow id = .ok nouns') :
    Records d escrow (n + 1) nouns' (e.setEscrowed id a) := by
  have hmoved := NounsToken.transferFrom_moved ht
  have hnew : id ∉ e.waiting := by
    refine h.not_waiting (NounsToken.transferFrom_exists ht) ?_
    rw [hmoved.owner]
    exact hcalls.1
  have hother : ∀ id' ∈ (e.setEscrowed id a).waiting, id' ≠ id → id' ∈ e.waiting := by
    intro id' hid' hne
    rw [waiting_setEscrowed ha] at hid'
    exact Set.mem_of_mem_insert_of_ne hid' hne
  constructor
  · rw [waiting_setEscrowed ha, Set.encard_insert_of_notMem hnew, h.count]
    rfl
  · intro id' hid'
    rw [setEscrowed_forkId, setEscrowed_entry]
    by_cases heq : id' = id
    · rw [if_pos ⟨rfl, heq⟩]
      exact hcalls
    · rw [if_neg (fun hand => heq hand.2)]
      exact h.depositors id' (hother id' hid' heq)
  · intro id' hid'
    by_cases heq : id' = id
    · left
      rw [heq, hmoved.owners, Function.update_self]
    · exact (h.transferFrom hnew ht).kept id' (hother id' hid' heq)

theorem giveBack (h : Records d escrow n nouns e) {a : Address} {id : Nat} (hid : id ∈ e.waiting)
    (ht : nouns.transferFrom proxies now escrow escrow a id = .ok nouns') :
    ∃ m, m + 1 = n ∧ Records d escrow m nouns' (e.setEscrowed id 0) := by
  have hmoved := NounsToken.transferFrom_moved ht
  have hcount : (e.waiting \ {id}).encard + 1 = n := by
    rw [Set.encard_sdiff_singleton_add_one hid, h.count]
  obtain ⟨m, hm, hmn⟩ : ∃ m : Nat, (e.waiting \ {id}).encard = m ∧ m + 1 = n := by
    obtain ⟨m, hm⟩ := exists_encard_of_subset h.count (Set.sdiff_subset (t := {id}))
    rw [hm] at hcount
    exact ⟨m, hm, by exact_mod_cast hcount⟩
  refine ⟨m, hmn, ?_, ?_, ?_⟩
  · rw [waiting_setEscrowed_zero, hm]
  · rw [waiting_setEscrowed_zero]
    rintro id' ⟨hid', hne⟩
    rw [setEscrowed_forkId, setEscrowed_entry, if_neg (fun hand => hne hand.2)]
    exact h.depositors id' hid'
  · rw [waiting_setEscrowed_zero]
    rintro id' ⟨hid', hne⟩
    rcases h.kept id' hid' with hheld | hburned
    · left
      rw [hmoved.owners, Function.update_of_ne hne]
      exact hheld
    · exact .inr ((NounsToken.transferFrom_counts ht).1.burned hburned)

theorem returnTokensToOwner (h : Records d escrow e.numTokensInEscrow nouns e) {owner : Address}
    {tokenIds : List Nat} (hdao : owner ≠ d.dao)
    (hreturn : e.returnTokensToOwner proxies now d.dao escrow nouns owner tokenIds =
      .ok (e', nouns')) : Records d escrow e'.numTokensInEscrow nouns' e' := by
  simp only [ForkEscrow.returnTokensToOwner, bind_eq_ok, checkedSub_eq_ok, pure_eq_ok,
    Prod.mk.injEq] at hreturn
  obtain ⟨⟨e₁, nouns₁⟩, hloop, remaining, ⟨-, rfl⟩, rfl, rfl⟩ := hreturn
  -- the counter goes down after the loop, by as much as the loop gave back
  suffices hcount : ∀ n, Records d escrow n nouns e →
      ∃ m, m + tokenIds.length = n ∧ Records d escrow m nouns₁ e₁ ∧
        e₁.numTokensInEscrow = e.numTokensInEscrow by
    obtain ⟨m, hm, hrecords, hnum⟩ := hcount _ h
    have hremaining : e₁.numTokensInEscrow - tokenIds.length = m := by omega
    rw [hremaining]
    exact ⟨hrecords.count, hrecords.depositors, hrecords.kept⟩
  clear h
  induction tokenIds generalizing e nouns with
  | nil =>
    intro n hrecords
    simp only [List.foldlM_nil, pure_eq_ok, Prod.mk.injEq] at hloop
    obtain ⟨rfl, rfl⟩ := hloop
    exact ⟨n, rfl, hrecords, rfl⟩
  | cons id tokenIds ih =>
    intro n hrecords
    simp only [List.foldlM_cons, bind_eq_ok, revertIf_eq_ok, Decidable.not_not, pure_eq_ok] at hloop
    obtain ⟨_, ⟨_, howner, nouns₂, ht, rfl⟩, hloop⟩ := hloop
    obtain ⟨m, hmn, hrecords'⟩ := hrecords.giveBack (Books.waiting_of_currentOwnerOf hdao howner) ht
    obtain ⟨m', hm', hrecords'', hnum⟩ := ih hloop m hrecords'
    refine ⟨m', ?_, hrecords'', hnum⟩
    rw [List.length_cons]
    omega

theorem withdrawTokens (h : Records d escrow n nouns e) {to_ : Address} {tokenIds : List Nat}
    (hwithdraw : e.withdrawTokens proxies now d.dao escrow nouns tokenIds to_ = .ok nouns') :
    Records d escrow n nouns' e := by
  refine foldlM_ok (P := fun nouns => Records d escrow n nouns e) hwithdraw h ?_
  intro id _ nouns₁ nouns₂ hrecords hround
  simp only [bind_eq_ok, revertIf_eq_ok, Decidable.not_not] at hround
  obtain ⟨_, howner, ht⟩ := hround
  refine hrecords.transferFrom ?_ ht
  intro hid
  simp only [ForkEscrow.currentOwnerOf] at howner
  rw [if_neg hid] at howner
  exact (hrecords.depositors id hid).2 howner

theorem closeEscrow (hlater : e.NoneLater) : Records d escrow 0 nouns e.closeEscrow := by
  have hempty := waiting_closeEscrow hlater
  refine ⟨?_, ?_, ?_⟩
  · rw [hempty, Set.encard_empty]
    rfl
  · rw [hempty]
    exact fun _ hid => hid.elim
  · rw [hempty]
    exact fun _ hid => hid.elim

end Records

/-- Whom the DAO claims for, while it waits for the token of the fork. -/
def Frame.join? (f : Frame) : Option ForkJoin :=
  match f.continuation with
  | .claimDuringForkPeriod join => some join
  | _ => none

namespace World

variable {d : Deployment H} {escrow : Address} {w w' : World H}

/-! ## Runs -/

/-- No step mints other ids than the next ones. -/
theorem EscrowStep.counts {forks : Prop} {a : Action} (h : EscrowStep d escrow forks w a w') :
    NounsToken.Counts w.nouns w'.nouns := by
  cases h with
  | none hnouns hescrow =>
    rw [hnouns]
    exact .of_owners rfl rfl
  | token hsender hcall hescrow => exact (NounsToken.call_counts hcall).1
  | escrowToFork hsender hfork hfold =>
    refine NounsToken.transferLoop_counts Prod.fst hfold ?_
    intro u v tokenId hround
    exact ⟨_, _, _, _, _, (escrowOne_ok hround).1⟩
  | withdrawFromForkEscrow hsender hfork hreturn =>
    simp only [ForkEscrow.returnTokensToOwner, bind_eq_ok, pure_eq_ok, Prod.mk.injEq] at hreturn
    obtain ⟨⟨e₁, nouns₁⟩, hloop, remaining, -, -, hnouns⟩ := hreturn
    rw [← hnouns]
    refine NounsToken.transferLoop_counts Prod.snd hloop ?_
    intro u v tokenId hround
    simp only [bind_eq_ok, pure_eq_ok] at hround
    obtain ⟨_, -, nouns₂, ht, rfl⟩ := hround
    exact ⟨_, _, _, _, _, ht⟩
  | executeFork hforks hnouns hescrow =>
    rw [hnouns]
    exact .of_owners rfl rfl
  | joinFork join htimelock hsender hfold hescrow =>
    refine NounsToken.transferLoop_counts id hfold ?_
    intro u v tokenId ht
    exact ⟨_, _, _, _, _, ht⟩
  | withdrawDAONounsFromEscrow hcall hadmin hwithdraw hescrow =>
    refine NounsToken.transferLoop_counts id hwithdraw ?_
    intro u v tokenId hround
    simp only [bind_eq_ok] at hround
    obtain ⟨_, -, ht⟩ := hround
    exact ⟨_, _, _, _, _, ht⟩

/-- The token mints in order, and the counter of the escrow is right. -/
structure Recorded (d : Deployment H) (escrow : Address) (w : World H) : Prop where
  fresh : w.nouns.Fresh
  records : Records d escrow (w.escrows escrow).numTokensInEscrow w.nouns (w.escrows escrow)

theorem StartEscrow.recorded (h : w.StartEscrow d escrow) : w.Recorded d escrow := by
  refine ⟨NounsToken.fresh_of_reachable h.token, ?_⟩
  rw [h.deployed]
  refine ⟨?_, ?_, ?_⟩
  · show {tokenId : Nat | (0 : Address) ≠ 0}.encard = ((0 : Nat) : ℕ∞)
    simp
  · exact fun _ hid => absurd rfl hid
  · exact fun _ hid => absurd rfl hid

theorem EscrowStep.recorded {forks : Prop} {a : Action} (h : EscrowStep d escrow forks w a w')
    (hd : d.Apart escrow) (hsafe : w.Safe d escrow) (hw : w.Recorded d escrow) :
    w'.Recorded d escrow := by
  refine ⟨h.counts.fresh hw.fresh, ?_⟩
  have hrecords := hw.records
  cases h with
  | none hnouns hescrow =>
    rw [hnouns, hescrow]
    exact hrecords
  | token hsender hcall hescrow =>
    rw [hescrow]
    exact hrecords.call hw.fresh hsafe.guarded.silent hd.escrow_ne_zero hsafe.fixed.proxies
      hsender.1 hcall
  | @escrowToFork tx sender tokenIds proposalIds reason _ hsender hfork hfold =>
    refine foldlM_ok (P := fun s : NounsToken × ForkEscrow =>
      Records d escrow s.2.numTokensInEscrow s.1 s.2) hfold hrecords ?_
    intro id _ s s' hrecords hround
    obtain ⟨ht, hs'⟩ := escrowOne_ok hround
    have hdeposit := hrecords.deposit sender.2 hsender ht
    rw [hs']
    exact ⟨hdeposit.count, hdeposit.depositors, hdeposit.kept⟩
  | withdrawFromForkEscrow hsender hfork hreturn =>
    exact hrecords.returnTokensToOwner hsender.2 hreturn
  | executeFork _ hnouns hescrow =>
    rw [hnouns, hescrow]
    exact .closeEscrow hsafe.guarded.later
  | joinFork join htimelock hsender hfold hescrow =>
    rw [hescrow]
    refine foldlM_ok (P := fun nouns => Records d escrow _ nouns (w.escrows escrow)) hfold
      hrecords ?_
    intro id _ nouns nouns' hrecords ht
    refine hrecords.transferFrom ?_ ht
    apply hrecords.not_waiting (NounsToken.transferFrom_exists ht)
    rw [(NounsToken.transferFrom_moved ht).owner]
    exact hsender.1
  | withdrawDAONounsFromEscrow hcall hadmin hwithdraw hescrow =>
    rw [hescrow]
    exact hrecords.withdrawTokens hwithdraw

section Reachability

variable [DecidableEq H]

theorem recorded_of_reachable {admits : World H → Action → Prop} (hd : d.Apart escrow)
    (h : Reachable (StartEscrow d escrow) (NextEscrow d escrow admits) w) :
    w.Recorded d escrow := by
  refine h.invariant (fun _ hw => hw.recorded) ?_
  intro w w' hr hw hn
  have hsafe := safe_of_reachable hd hr
  cases hn.1 with
  | step a _ hstep => exact (step_sorted hd hsafe.fixed hsafe.sited hstep).1.recorded hd hsafe hw
  | outside hout =>
    obtain ⟨⟨eth, erc20, outside, rfl⟩, -, -⟩ := hout
    exact ⟨hw.fresh, hw.records⟩

end Reachability

/-! ## The records of a past fork -/

/-- Fork `f` is over, and what was recorded for it is in the escrow or burned. -/
structure PastRecords (d : Deployment H) (escrow : Address) (f : Nat) (w : World H) : Prop where
  closed : f < (w.escrows escrow).forkId
  depositors : ∀ id, (w.escrows escrow).escrowedTokensByForkId f id ≠ 0 →
    d.Calls escrow ((w.escrows escrow).escrowedTokensByForkId f id)
  kept : ∀ id, (w.escrows escrow).escrowedTokensByForkId f id ≠ 0 →
    Held escrow f id ((w.escrows escrow).escrowedTokensByForkId f id) w.nouns (w.escrows escrow) ∨
      w.nouns.Burned id

theorem Recorded.past (hw : w.Recorded d escrow) (hsafe : w.Safe d escrow)
    (hnouns : w'.nouns = w.nouns) (hescrow : w'.escrows escrow = (w.escrows escrow).closeEscrow) :
    w'.PastRecords d escrow (w.escrows escrow).forkId := by
  refine ⟨?_, ?_, ?_⟩
  · rw [hescrow]
    exact Nat.lt_succ_self _
  · rw [hescrow]
    exact hw.records.depositors
  · rw [hescrow, hnouns]
    intro id hid
    rcases hw.records.kept id hid with hheld | hburned
    · left
      have hcurrent : Held escrow (w.escrows escrow).forkId id
          ((w.escrows escrow).escrowedTokensByForkId (w.escrows escrow).forkId id) w.nouns
          (w.escrows escrow) :=
        ⟨hheld, rfl, Nat.le_refl _, fun g hg => hsafe.guarded.later g hg id⟩
      exact hcurrent.closeEscrow
    · exact .inr hburned

/-- Those who join bring Nouns that were not recorded. -/
theorem PastRecords.not_joined {f : Nat} (h : w.PastRecords d escrow f) {join : ForkJoin}
    {nouns : NounsToken} (hsender : d.Calls escrow join.sender)
    (hfold : join.tokenIds.foldlM (w.joinOne d join) w.nouns = .ok nouns) :
    ∀ id ∈ join.tokenIds, (w.escrows escrow).escrowedTokensByForkId f id = 0 := by
  intro id hmem
  obtain ⟨howner, hexists⟩ := NounsToken.transferLoop_owned hfold id hmem
  by_contra hrecord
  rcases h.kept id hrecord with hheld | hburned
  · exact hsender.1 (howner.symm.trans hheld.owner)
  · exact hexists hburned.1

theorem EscrowStep.burned {forks : Prop} {sender : Account} {id : Nat}
    (h : EscrowStep d escrow forks w (.callToken sender (.burn id)) w')
    (hne : w'.nouns.owners id ≠ w.nouns.owners id) : w'.nouns.owners id = 0 := by
  cases h with
  | none hnouns hescrow =>
    rw [hnouns] at hne
    exact absurd rfl hne
  | token hsender hcall hescrow =>
    simp only [NounsToken.call, NounsToken.burn, bind_eq_ok, pure_eq_ok] at hcall
    obtain ⟨_, -, t, ht, hnouns⟩ := hcall
    rw [← hnouns]
    exact (congrFun (Token.burnToken_ok ht).owners id).trans (Function.update_self _ _ _)

/-- A past fork's Nouns stay, as long as the admin of the DAO leaves them in the escrow. -/
theorem PastRecords.next [DecidableEq H] {f : Nat} {admits : World H → Action → Prop} (hd : d.Apart escrow)
    (hsafe : w.Safe d escrow) (hfresh : w.nouns.Fresh) (h : w.PastRecords d escrow f)
    (hadmits : ∀ a, admits w a → ∀ id, (w.escrows escrow).escrowedTokensByForkId f id ≠ 0 →
      ¬ Withdraws escrow f id w a)
    (hn : NextEscrow d escrow admits w w') : w'.PastRecords d escrow f := by
  have hlater := hn.1.keepsRecords escrow
  have hrecord := hlater.records f h.closed
  refine ⟨Nat.lt_of_lt_of_le h.closed hlater.forkId_le, ?_, ?_⟩
  · rw [hrecord]
    exact h.depositors
  rw [hrecord]
  intro id hid
  cases hn.1 with
  | outside hout =>
    obtain ⟨⟨eth, erc20, outside, rfl⟩, -, -⟩ := hout
    exact h.kept id hid
  | step act hact hstep =>
    have heffect := (step_sorted hd hsafe.fixed hsafe.sited hstep).1
    rcases h.kept id hid with hheld | hburned
    · obtain ⟨hstays, hleaves⟩ := heffect.staysOrLeaves hd hsafe hid (h.depositors id hid) hheld
      by_cases howner : w'.nouns.owners id = escrow
      · exact .inl (hstays howner)
      · right
        rcases hleaves howner with
          ⟨_, _, _, -, -, -, hcurrent, -⟩ | hwithdraws | ⟨sender, rfl, -⟩
        · exact absurd hcurrent (Nat.ne_of_gt h.closed)
        · exact absurd hwithdraws (hadmits act hact id hid)
        · refine ⟨heffect.burned ?_, ?_⟩
          · rw [hheld.owner]
            exact howner
          · apply Nat.lt_of_lt_of_le (hfresh id _) heffect.counts.le
            rw [hheld.owner]
            exact hd.escrow_ne_zero
    · exact .inr (heffect.counts.burned hburned)

/-! ## Joining -/

/-- The DAO has taken the Nouns of `join` and calls the token of the fork. -/
def Claims (join : ForkJoin) (frames : List Frame) (w' : World H) : Prop :=
  ∃ f : Frame, f.join? = some join ∧ w'.frames = f :: frames

/-- What the DAO did before it called. -/
def Took (d : Deployment H) (escrow : Address) (join : ForkJoin) (w w' : World H) : Prop :=
  d.Calls escrow join.sender ∧ join.tokenIds.foldlM (w.joinOne d join) w.nouns = .ok w'.nouns

theorem Claims.of_same {join : ForkJoin} (h : Claims join w.frames w')
    (hsame : w'.frames = w.frames) : False := by
  obtain ⟨f, -, hclaims⟩ := h
  rw [hsame] at hclaims
  exact List.cons_ne_self _ _ hclaims.symm

theorem Claims.of_pushed {join : ForkJoin} {frames : List Frame} (h : Claims join frames w')
    {f : Frame} (hpushed : w'.frames = f :: frames) : f.join? = some join := by
  obtain ⟨f', hjoin, hclaims⟩ := h
  rw [hpushed] at hclaims
  rw [(List.cons.inj hclaims).1]
  exact hjoin

theorem payERC20_claims {payout : Payout} {erc20Count remaining : Nat} {join : ForkJoin}
    (hpurpose : payout.purpose.Sited d escrow)
    (h : w.payERC20 d payout erc20Count remaining = .ok w') (hclaims : Claims join w.frames w') :
    Took d escrow join w w' := by
  induction remaining with
  | zero =>
    simp only [payERC20, endPayout] at h
    split at h
    · rw [← pure_eq_ok.mp h] at hclaims
      exact (hclaims.of_same rfl).elim
    · rename_i join' heq
      rw [heq] at hpurpose
      simp only [joinForkTransfers, bind_eq_ok, pure_eq_ok] at h
      obtain ⟨nouns, hnouns, rfl⟩ := h
      have hjoin := hclaims.of_pushed (f := ⟨w.dao.forkDAOToken, none, .claimDuringForkPeriod join'⟩) rfl
      cases hjoin
      exact ⟨hpurpose.2, hnouns⟩
  | succ remaining ih =>
    simp only [payERC20] at h
    split at h
    · exact absurd h throw_ne_ok
    · split at h
      · simp only [bind_eq_ok, pure_eq_ok] at h
        obtain ⟨_, -, w₁, hsend, rfl⟩ := h
        have hframes := (sendToken_quiet hsend).2.2
        have hpushed := hclaims.of_pushed (congrArg (List.cons _) hframes)
        cases hpushed
      · exact ih h

theorem executeFrom_frames [DecidableEq H] {id i : Nat} {timelock : Address}
    (h : w.executeFrom d id timelock i = .ok w') :
    w'.frames = w.frames ∨ ∃ callee caller tx,
      w'.frames = ⟨callee, caller, .executeInternal id timelock i tx⟩ :: w.frames := by
  simp only [executeFrom] at h
  split at h
  · simp only [bind_eq_ok, pure_eq_ok] at h
    obtain ⟨tx, -, e, -, w₁, hsend, rfl⟩ := h
    exact .inr ⟨_, _, tx, congrArg _ (sendValue_quiet hsend).2.2⟩
  · rw [← pure_eq_ok.mp h]
    exact .inl rfl

theorem resume_claims [DecidableEq H] {forkTreasury forkToken : Address} {f : Frame} {join : ForkJoin}
    (hf : f.Sited d escrow) (h : w.resume d forkTreasury forkToken f.continuation = .ok w')
    (hclaims : Claims join w.frames w') : Took d escrow join w w' := by
  obtain ⟨callee, caller, k⟩ := f
  have hk := hf.continuation
  cases k with
  | executeInternal proposalId timelock i tx =>
    rcases executeFrom_frames h with hsame | ⟨callee, caller, tx, hpushed⟩
    · exact (hclaims.of_same hsame).elim
    · cases hclaims.of_pushed hpushed
  | refundGas origin amount | withdraw amount =>
    rw [← pure_eq_ok.mp h] at hclaims
    exact (hclaims.of_same rfl).elim
  | deployForkDAO fork =>
    simp only [resume, sendProRataTreasury, bind_eq_ok, pure_eq_ok] at h
    obtain ⟨supply, -, _, -, _, -, w₁, hsend, rfl⟩ := h
    cases hclaims.of_pushed (congrArg (List.cons _) (sendValue_quiet hsend).2.2)
  | sendETH payout amount =>
    have htook : Took d escrow join (w.setExecutor payout.timelock _) w' :=
      payERC20_claims hk h hclaims
    exact htook
  | sendERC20 payout erc20Count remaining erc20token amount =>
    have htook : Took d escrow join (w.setExecutor payout.timelock _) w' :=
      payERC20_claims hk h hclaims
    exact htook
  | claimDuringForkPeriod join' =>
    simp only [resume, bind_eq_ok, pure_eq_ok] at h
    obtain ⟨_, -, rfl⟩ := h
    exact (hclaims.of_same rfl).elim

theorem Next.timestamp_le [DecidableEq H] {admits : World H → Action → Prop}
    (h : Next d admits w w') : w.timestamp ≤ w'.timestamp := by
  cases h with
  | step a _ hstep =>
    cases stack_step hstep with
    | pass _ htime _ => exact htime
    | call sender frames _ _ hpushes => exact Nat.le_of_eq hpushes.timestamp.symm
    | return_ f frames _ _ hpushes => exact Nat.le_of_eq hpushes.timestamp.symm
  | outside hout =>
    obtain ⟨⟨eth, erc20, outside, rfl⟩, -, -⟩ := hout
    exact Nat.le_refl _

/-! ## Executing a fork -/

/-- The addresses are where they were. -/
structure SameSites (w w' : World H) : Prop where
  timelocks : w'.dao.timelock = w.dao.timelock ∧ w'.dao.timelockV1 = w.dao.timelockV1
  forkEscrow : w'.dao.forkEscrow = w.dao.forkEscrow
  outside : w'.outside = w.outside

theorem SameSites.fixed (h : SameSites w w') (hw : w.EscrowFixed d escrow) :
    w'.EscrowFixed d escrow := by
  refine ⟨⟨?_, ?_⟩, ?_, ?_⟩
  · exact h.timelocks.1.trans hw.timelocks.1
  · exact h.timelocks.2.trans hw.timelocks.2
  · exact h.forkEscrow.trans hw.forkEscrow
  · rw [h.outside]
    exact hw.proxies

theorem sendValue_sites {from_ to_ : Address} {amount : Nat}
    (h : w.sendValue from_ to_ amount = .ok w') : SameSites w w' := by
  simp only [sendValue, bind_eq_ok, pure_eq_ok] at h
  obtain ⟨_, -, rfl⟩ := h
  exact ⟨⟨rfl, rfl⟩, rfl, rfl⟩

theorem payERC20_sites {payout : Payout} {erc20Count remaining : Nat}
    (h : w.payERC20 d payout erc20Count remaining = .ok w') : SameSites w w' := by
  induction remaining with
  | zero =>
    simp only [payERC20, endPayout] at h
    split at h
    · rw [← pure_eq_ok.mp h]
      exact ⟨⟨rfl, rfl⟩, rfl, rfl⟩
    · simp only [joinForkTransfers, bind_eq_ok, pure_eq_ok] at h
      obtain ⟨nouns, -, rfl⟩ := h
      exact ⟨⟨rfl, rfl⟩, rfl, rfl⟩
  | succ remaining ih =>
    simp only [payERC20] at h
    split at h
    · exact absurd h throw_ne_ok
    · split at h
      · simp only [sendToken, bind_eq_ok, pure_eq_ok] at h
        obtain ⟨_, -, w₁, ⟨_, -, rfl⟩, rfl⟩ := h
        exact ⟨⟨rfl, rfl⟩, rfl, rfl⟩
      · exact ih h

theorem resume_sites [DecidableEq H] {forkTreasury forkToken : Address} {k : Continuation}
    (h : w.resume d forkTreasury forkToken k = .ok w') : SameSites w w' := by
  cases k with
  | executeInternal proposalId timelock i tx =>
    simp only [resume, executeFrom] at h
    split at h
    · simp only [bind_eq_ok, pure_eq_ok] at h
      obtain ⟨_, -, e, -, w₁, hsend, rfl⟩ := h
      have hsites := sendValue_sites hsend
      exact ⟨hsites.timelocks, hsites.forkEscrow, hsites.outside⟩
    · rw [← pure_eq_ok.mp h]
      exact ⟨⟨rfl, rfl⟩, rfl, rfl⟩
  | refundGas origin amount | withdraw amount =>
    rw [← pure_eq_ok.mp h]
    exact ⟨⟨rfl, rfl⟩, rfl, rfl⟩
  | deployForkDAO fork =>
    simp only [resume, sendProRataTreasury, bind_eq_ok, pure_eq_ok] at h
    obtain ⟨supply, -, _, -, _, -, w₁, hsend, rfl⟩ := h
    have hsites := sendValue_sites hsend
    exact ⟨hsites.timelocks, hsites.forkEscrow, hsites.outside⟩
  | sendETH payout amount =>
    have hsites := payERC20_sites h
    exact ⟨hsites.timelocks, hsites.forkEscrow, hsites.outside⟩
  | sendERC20 payout erc20Count remaining erc20token amount =>
    have hsites := payERC20_sites h
    exact ⟨hsites.timelocks, hsites.forkEscrow, hsites.outside⟩
  | claimDuringForkPeriod join =>
    simp only [resume, bind_eq_ok, pure_eq_ok] at h
    obtain ⟨_, -, rfl⟩ := h
    exact ⟨⟨rfl, rfl⟩, rfl, rfl⟩

section Executing

variable [DecidableEq H]

theorem Unwinds.escrowSteps {depth : Nat} (h : Unwinds d depth w w')
    (hw : w.EscrowFixed d escrow) :
    Relation.ReflTransGen (NextAnyEscrow d escrow) w w' := by
  induction h with
  | done _ => exact .refl
  | @return_ v v' v'' forkTreasury forkToken _ hstep _ ih =>
    have hfixed : v'.EscrowFixed d escrow := by
      have hresume := hstep
      simp only [step] at hresume
      split at hresume
      · exact absurd hresume throw_ne_ok
      · exact (resume_sites hresume).fixed ⟨hw.timelocks, hw.forkEscrow, hw.proxies⟩
    exact .head ⟨.step _ trivial hstep, hfixed⟩ (ih hfixed)

/-- The DAO moves none of its addresses while it executes a fork. -/
theorem Completes.executeFork_steps {sender : Account} (h : Completes d sender .executeFork w w')
    (hw : w.EscrowFixed d escrow) : Relation.ReflTransGen (NextAnyEscrow d escrow) w w' := by
  obtain ⟨tx, w₁, hstep, hunwinds⟩ := h
  have hfixed : w₁.EscrowFixed d escrow := by
    have hcall := hstep
    simp only [step, bind_eq_ok] at hcall
    obtain ⟨v, henter, hcall⟩ := hcall
    obtain ⟨frames, -, rfl⟩ := enter_entered henter
    simp only [callDAO, World.executeFork, bind_eq_ok, pure_eq_ok] at hcall
    obtain ⟨_, -, _, -, _, -, rfl⟩ := hcall
    exact ⟨hw.timelocks, hw.forkEscrow, hw.proxies⟩
  exact .head ⟨.step _ trivial hstep, hfixed⟩ (hunwinds.escrowSteps hfixed)

end Executing

end World

end Nouns

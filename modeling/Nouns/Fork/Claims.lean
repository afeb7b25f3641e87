import Nouns.Fork.Minting
import Nouns.Governance.ForkRecords

/-!
# Claims — the Nouns of a fork, claimed and joined

`remainingTokensToClaim` is in the token of the fork, and what it counts is in the escrow of the
original DAO: the records of a fork that is over.  The two run side by side here.  Outside accounts
call the token as they like; the DAO calls it when `joinFork` has taken the Nouns of who joins.
-/

open Fallible Transition

namespace Nouns

variable {H : Type}

/-! ## The ids that a call mints -/

/-- A transfer leaves the same ids. -/
theorem Token.transferFrom_exists_iff {t t' : Token} {now : Nat}
    {isApprovedForAll : Address → Address → Bool} {sender from_ to_ : Address} {tokenId : Nat}
    (h : t.transferFrom isApprovedForAll now sender from_ to_ tokenId = .ok t') (id : Nat) :
    t'.owners id ≠ 0 ↔ t.owners id ≠ 0 := by
  rw [(transferFrom_ok h).owners]
  by_cases heq : id = tokenId
  · subst heq
    rw [Function.update_self]
    simp only [transferFrom, transfer, bind_eq_ok, require_eq_ok] at h
    obtain ⟨_, -, _, -, owner, howner, _, -, _, hto, -⟩ := h
    exact iff_of_true hto (ownerOf_ok howner).1
  · rw [Function.update_of_ne heq]

namespace NounsTokenForkCall

/-- The ids that a call mints when it succeeds. -/
def mints (n : NounsTokenFork) : NounsTokenForkCall → List Nat
  | .claimFromEscrow tokenIds => tokenIds
  | .claimDuringForkPeriod _ tokenIds => tokenIds
  | .mint => [n.currentNounId]
  | _ => []

end NounsTokenForkCall

namespace NounsTokenFork

variable {c : Crypto H} {n n' : NounsTokenFork} {now : Nat}

theorem mintNoun_owners {to_ : Address} {nounId : Nat} (h : n.mintNoun now to_ nounId = .ok n') :
    n.owners nounId = 0 ∧ to_ ≠ 0 ∧ n'.owners = Function.update n.owners nounId to_ ∧
      n'.forkId = n.forkId := by
  simp only [mintNoun, bind_eq_ok, pure_eq_ok] at h
  obtain ⟨t, ht, rfl⟩ := h
  have hmoved := Token.mintTo_ok ht
  exact ⟨hmoved.owner, hmoved.someone.resolve_left (not_not.mpr rfl), hmoved.owners, rfl⟩

/-- A loop that mints: the ids are new and all different. -/
theorem mintLoop_owners {f : NounsTokenFork → Nat → Tx NounsTokenFork} {to_ : Address}
    {tokenIds : List Nat}
    (hround : ∀ m m' nounId, f m nounId = .ok m' → m.mintNoun now to_ nounId = .ok m')
    (h : tokenIds.foldlM f n = .ok n') :
    tokenIds.Nodup ∧ (∀ id ∈ tokenIds, n.owners id = 0) ∧
      ∀ id, n'.owners id ≠ 0 ↔ n.owners id ≠ 0 ∨ id ∈ tokenIds := by
  induction tokenIds generalizing n with
  | nil =>
    simp only [List.foldlM_nil, pure_eq_ok] at h
    subst h
    exact ⟨List.nodup_nil, fun _ hmem => absurd hmem List.not_mem_nil, by simp⟩
  | cons nounId tokenIds ih =>
    rw [List.foldlM_cons, bind_eq_ok] at h
    obtain ⟨n₁, hmint, hloop⟩ := h
    obtain ⟨hfree, hto, howners, -⟩ := mintNoun_owners (hround _ _ _ hmint)
    obtain ⟨hnodup, hnew, hexists⟩ := ih hloop
    have hfirst : nounId ∉ tokenIds := by
      intro hmem
      have htaken := hnew nounId hmem
      rw [howners, Function.update_self] at htaken
      exact hto htaken
    refine ⟨List.nodup_cons.mpr ⟨hfirst, hnodup⟩, ?_, ?_⟩
    · intro id hmem
      by_cases heq : id = nounId
      · rw [heq]
        exact hfree
      · have hid := hnew id (List.mem_of_ne_of_mem heq hmem)
        rwa [howners, Function.update_of_ne heq] at hid
    · intro id
      rw [hexists, howners, List.mem_cons]
      by_cases heq : id = nounId
      · subst heq
        rw [Function.update_self]
        exact iff_of_true (.inl hto) (.inr (.inl rfl))
      · rw [Function.update_of_ne heq]
        simp only [heq, false_or]

/-- The rounds of `claimFromEscrow`. -/
def claimOne (escrow : EscrowView) (now : Nat) (sender : Address) (n : NounsTokenFork)
    (nounId : Nat) : Tx NounsTokenFork := do
  revertIf (escrow.ownerOfEscrowedToken n.forkId nounId ≠ sender) .OnlyTokenOwnerCanClaim
  n.mintNoun now sender nounId

theorem claimOne_ok {escrow : EscrowView} {sender : Address} {nounId : Nat}
    (h : n.claimOne escrow now sender nounId = .ok n') :
    escrow.ownerOfEscrowedToken n.forkId nounId = sender ∧ n.mintNoun now sender nounId = .ok n' := by
  simp only [claimOne, bind_eq_ok, revertIf_eq_ok, Decidable.not_not] at h
  obtain ⟨_, howner, hmint⟩ := h
  exact ⟨howner, hmint⟩

/-- What is claimed is recorded for the sender, not there yet, and named once. -/
theorem claimFromEscrow_ok {escrow : EscrowView} {sender : Address} {tokenIds : List Nat}
    (h : n.claimFromEscrow escrow now sender tokenIds = .ok n') :
    tokenIds.Nodup ∧
      (∀ id ∈ tokenIds, escrow.ownerOfEscrowedToken n.forkId id = sender ∧ n.owners id = 0) ∧
      ∀ id, n'.owners id ≠ 0 ↔ n.owners id ≠ 0 ∨ id ∈ tokenIds := by
  simp only [claimFromEscrow, bind_eq_ok, pure_eq_ok] at h
  obtain ⟨n₁, hloop, _, -, rfl⟩ := h
  have hclaims : tokenIds.foldlM (claimOne escrow now sender) n = .ok n₁ := hloop
  obtain ⟨hnodup, hnew, hexists⟩ :=
    mintLoop_owners (fun _ _ _ hround => (claimOne_ok hround).2) hclaims
  refine ⟨hnodup, ?_, hexists⟩
  intro id hmem
  refine ⟨?_, hnew id hmem⟩
  clear hnodup hnew hexists hloop
  induction tokenIds generalizing n with
  | nil => exact absurd hmem List.not_mem_nil
  | cons nounId tokenIds ih =>
    rw [List.foldlM_cons, bind_eq_ok] at hclaims
    obtain ⟨n₂, hround, hclaims⟩ := hclaims
    obtain ⟨howner, hmint⟩ := claimOne_ok hround
    by_cases heq : id = nounId
    · rw [heq]
      exact howner
    · rw [← (mintNoun_owners hmint).2.2.2]
      exact ih hclaims (List.mem_of_ne_of_mem heq hmem)

/-- Ids come into being when they are minted, and go when the minter burns them. -/
theorem call_exists_iff {escrow : EscrowView} {received : Address → Tx Unit} {timestamp : Nat}
    {sender : Account} {cl : NounsTokenForkCall}
    (h : n.call c escrow received now timestamp sender cl = .ok n') (id : Nat) :
    n'.owners id ≠ 0 ↔ (n.owners id ≠ 0 ∧ cl ≠ .burn id) ∨ id ∈ cl.mints n := by
  have hsame {cl : NounsTokenForkCall} (howners : n'.owners id ≠ 0 ↔ n.owners id ≠ 0)
      (hburn : cl ≠ .burn id) (hmints : cl.mints n = []) :
      n'.owners id ≠ 0 ↔ (n.owners id ≠ 0 ∧ cl ≠ .burn id) ∨ id ∈ cl.mints n := by
    rw [howners, hmints]
    simp [hburn]
  cases cl with
  | claimFromEscrow tokenIds =>
    rw [(claimFromEscrow_ok h).2.2 id]
    simp [NounsTokenForkCall.mints]
  | claimDuringForkPeriod to_ tokenIds =>
    simp only [call, claimDuringForkPeriod, bind_eq_ok, pure_eq_ok] at h
    obtain ⟨_, -, _, -, n₁, hloop, hend⟩ := h
    have hexists := (mintLoop_owners (fun _ _ _ hround => hround) hloop).2.2 id
    have howners : n'.owners = n₁.owners := by
      split at hend
      · rw [← hend]
      · rw [← hend]
    rw [howners, hexists]
    simp [NounsTokenForkCall.mints]
  | mint =>
    simp only [call, mint, bind_eq_ok] at h
    obtain ⟨_, -, h⟩ := h
    obtain ⟨hfree, hto, howners, -⟩ := mintNoun_owners h
    rw [howners]
    by_cases heq : id = n.currentNounId
    · rw [heq, Function.update_self]
      exact iff_of_true hto (.inr (List.mem_singleton.mpr rfl))
    · rw [Function.update_of_ne heq]
      simp [NounsTokenForkCall.mints, heq]
  | burn nounId =>
    simp only [call, burn, bind_eq_ok, pure_eq_ok] at h
    obtain ⟨_, -, t, ht, rfl⟩ := h
    have howners : (n.setToken (t.emit (.NounBurned nounId))).owners =
        Function.update n.owners nounId 0 := (Token.burnToken_ok ht).owners
    rw [howners]
    by_cases heq : id = nounId
    · rw [heq, Function.update_self]
      simp [NounsTokenForkCall.mints]
    · rw [Function.update_of_ne heq]
      simp [NounsTokenForkCall.mints, Ne.symm heq]
  | transferFrom from_ to_ tokenId =>
    simp only [call, transferFrom, bind_eq_ok, pure_eq_ok] at h
    obtain ⟨t, ht, rfl⟩ := h
    apply hsame _ (by simp) rfl
    exact Token.transferFrom_exists_iff ht id
  | safeTransferFrom from_ to_ tokenId =>
    simp only [call, safeTransferFrom, transferFrom, bind_eq_ok, pure_eq_ok] at h
    obtain ⟨_, ⟨t, ht, rfl⟩, _, -, rfl⟩ := h
    apply hsame _ (by simp) rfl
    exact Token.transferFrom_exists_iff ht id
  | approve to_ tokenId =>
    simp only [call, bind_eq_ok, pure_eq_ok] at h
    obtain ⟨t, ht, rfl⟩ := h
    apply hsame _ (by simp) rfl
    exact iff_of_eq (congrArg (fun owners : Nat → Address => owners id ≠ 0) (Token.approve_owners ht))
  | setApprovalForAll operator approved =>
    simp only [call, bind_eq_ok, pure_eq_ok] at h
    obtain ⟨t, ht, rfl⟩ := h
    apply hsame _ (by simp) rfl
    exact iff_of_eq (congrArg (fun owners : Nat → Address => owners id ≠ 0)
      (Token.setApprovalForAll_owners ht))
  | delegate delegatee =>
    simp only [call, bind_eq_ok, pure_eq_ok] at h
    obtain ⟨t, ht, rfl⟩ := h
    apply hsame _ (by simp) rfl
    exact iff_of_eq (congrArg (fun owners : Nat → Address => owners id ≠ 0)
      (Token.delegateTo_approvals ht).1)
  | delegateBySig delegatee nonce expiry sig =>
    simp only [call, Token.delegateBySigUpgradeable, bind_eq_ok, pure_eq_ok] at h
    obtain ⟨t, ⟨_, -, ht⟩, rfl⟩ := h
    apply hsame _ (by simp) rfl
    exact iff_of_eq (congrArg (fun owners : Nat → Address => owners id ≠ 0)
      (Token.delegateBySigChecked_owners ht))
  | setMinter _ | lockMinter | transferOwnership _ =>
    simp only [call, setMinter, lockMinter, transferOwnership, bind_eq_ok, pure_eq_ok] at h
    obtain ⟨_, -, _, -, rfl⟩ := h
    exact hsame Iff.rfl (by simp) rfl
  | renounceOwnership =>
    simp only [call, renounceOwnership, bind_eq_ok, pure_eq_ok] at h
    obtain ⟨_, -, rfl⟩ := h
    exact hsame Iff.rfl (by simp) rfl

/-! ## When a claim succeeds -/

/-- Ids that the sender may claim, none of them there yet, are all minted. -/
theorem exists_claimLoop {escrow : EscrowView} {sender : Account} (hnow : now < 2 ^ 32)
    {tokenIds : List Nat} (hfunded : n.Funded)
    (hsupply : n.totalSupply + tokenIds.length < 2 ^ 96) (hnodup : tokenIds.Nodup)
    (hids : ∀ id ∈ tokenIds, escrow.ownerOfEscrowedToken n.forkId id = sender ∧ n.owners id = 0) :
    ∃ n', tokenIds.foldlM (claimOne escrow now sender) n = .ok n' := by
  induction tokenIds generalizing n with
  | nil => exact ⟨n, rfl⟩
  | cons nounId tokenIds ih =>
    rw [List.forall_mem_cons] at hids
    obtain ⟨⟨howner, hfree⟩, hrest⟩ := hids
    rw [List.length_cons] at hsupply
    obtain ⟨hfirst, hnodup⟩ := List.nodup_cons.mp hnodup
    obtain ⟨t, ht⟩ := Token.mintTo_succeeds hfunded.ledger hfunded.backed hnow (by omega) sender.2 hfree
    have hmint : n.mintNoun now sender nounId = .ok
        (n.setToken ((t.emit (.Transfer 0 sender nounId)).emit (.NounCreated nounId))) := by
      simp only [mintNoun, bind_eq_ok, pure_eq_ok]
      exact ⟨t, ht, rfl⟩
    obtain ⟨-, -, howners, hforkId⟩ := mintNoun_owners hmint
    have htotal := (Token.mintTo_ok ht).totalSupply hfunded.ledger
    rw [if_pos rfl, if_neg sender.2] at htotal
    have hround : n.claimOne escrow now sender nounId = n.mintNoun now sender nounId := by
      rw [claimOne, revertIf, if_neg (not_not.mpr howner)]
      rfl
    have hchanges : Token.Changes True now n.toToken
        (n.setToken ((t.emit (.Transfer 0 sender nounId)).emit (.NounCreated nounId))).toToken :=
      mintNoun_changes hmint
    obtain ⟨n', hloop⟩ : ∃ n', tokenIds.foldlM (claimOne escrow now sender) (n.setToken _) = .ok n' := by
      apply ih (hchanges.funded hfunded) _ hnodup
      · intro id hmem
        obtain ⟨howner', hfree'⟩ := hrest id hmem
        refine ⟨?_, ?_⟩
        · rw [hforkId]
          exact howner'
        · rw [howners, Function.update_of_ne (fun heq : id = nounId => hfirst (heq ▸ hmem))]
          exact hfree'
      · change t.totalSupply + _ < _
        omega
    refine ⟨n', ?_⟩
    rw [List.foldlM_cons, hround, hmint]
    exact hloop

theorem exists_claimFromEscrow {escrow : EscrowView} {sender : Account} (hnow : now < 2 ^ 32)
    {tokenIds : List Nat} (hfunded : n.Funded)
    (hsupply : n.totalSupply + tokenIds.length < 2 ^ 96)
    (hremaining : tokenIds.length ≤ n.remainingTokensToClaim) (hnodup : tokenIds.Nodup)
    (hids : ∀ id ∈ tokenIds, escrow.ownerOfEscrowedToken n.forkId id = sender ∧ n.owners id = 0) :
    ∃ n', n.claimFromEscrow escrow now sender tokenIds = .ok n' := by
  obtain ⟨n₁, hloop⟩ := exists_claimLoop hnow hfunded hsupply hnodup hids
  have hsame : SameFork n n₁ :=
    mintLoop_sameFork now (fun _ _ _ hround => ⟨sender, (claimOne_ok hround).2⟩) hloop
  simp only [claimFromEscrow, bind_eq_ok, checkedSub_eq_ok, pure_eq_ok]
  refine ⟨_, n₁, hloop, _, ⟨?_, rfl⟩, rfl⟩
  rw [hsame.remainingTokensToClaim]
  exact hremaining

end NounsTokenFork

/-! ## The token next to the escrow -/

/-- The original DAO, the token of a fork, and who claimed which Noun from the escrow so far. -/
structure ForkClaims (H : Type) where
  original : World H
  token : NounsTokenFork
  claimed : List (Nat × Address)

namespace ForkClaims

/-- The account that Noun `id` was escrowed by for this fork. -/
def escrowedBy (escrow : Address) (s : ForkClaims H) (id : Nat) : Address :=
  (s.original.escrows escrow).escrowedTokensByForkId s.token.forkId id

def Escrowed (escrow : Address) (s : ForkClaims H) (id : Nat) : Prop := s.escrowedBy escrow id ≠ 0

def Claimed (s : ForkClaims H) (id : Nat) : Prop := id ∈ s.claimed.map Prod.fst

/-- `mint` does not come to a Noun that was escrowed, and the minter, which burns what it minted,
does not burn one. -/
def Spares (escrow : Address) (s : ForkClaims H) : NounsTokenForkCall → Prop
  | .mint => ¬ s.Escrowed escrow s.token.currentNounId
  | .burn nounId => ¬ s.Escrowed escrow nounId
  | _ => True

/-- During the fork period the admin of the DAO withdraws no Noun that was escrowed for the fork. -/
def Leaves (escrow : Address) (s : ForkClaims H) (w : World H) (a : Action) : Prop :=
  w.timestamp < s.token.forkingPeriodEndTimestamp →
    ∀ id, s.Escrowed escrow id → ¬ w.Withdraws escrow s.token.forkId id a

section Steps

variable [DecidableEq H] (d : Deployment H) (escrow : Address)

/-- The DAO has taken the Nouns of `join` and claims for its sender. -/
inductive Joins (join : ForkJoin) : ForkClaims H → ForkClaims H → Prop
  | mk {s : ForkClaims H} {w' : World H} {token : NounsTokenFork} (f : Frame) (frames : List Frame)
      (forkTreasury forkToken : Address) (dao : Account) : s.original.frames = f :: frames →
      s.original.step d (.return_ forkTreasury forkToken) = .ok w' → w'.EscrowFixed d escrow →
      World.Claims join frames w' → (dao : Address) = d.dao →
      s.token.call d.crypto (Forked.view d escrow w') (fun _ => .ok ()) w'.blockNumber w'.timestamp
        dao (.claimDuringForkPeriod join.sender join.tokenIds) = .ok token →
      Joins join s { s with original := w', token }

/-- The original DAO goes on, somebody joins, or an account other than the DAO calls the token. -/
inductive Next : ForkClaims H → ForkClaims H → Prop
  | original {s : ForkClaims H} {w' : World H} :
      World.NextEscrow d escrow (s.Leaves escrow) s.original w' → Next s { s with original := w' }
  | join {s s' : ForkClaims H} (join : ForkJoin) : Joins d escrow join s s' → Next s s'
  | call {s : ForkClaims H} {token : NounsTokenFork} (received : Address → Tx Unit)
      (sender : Account) (cl : NounsTokenForkCall) : (sender : Address) ≠ d.dao →
      s.Spares escrow cl →
      s.token.call d.crypto (Forked.view d escrow s.original) received s.original.blockNumber
        s.original.timestamp sender cl = .ok token →
      Next s { s with token, claimed := cl.claims.map (fun id => (id, (sender : Address))) ++ s.claimed }

end Steps

variable {d : Deployment H} {escrow : Address} {s s' : ForkClaims H} {recorded : Nat → Address}
  {n₀ : Nat}

/-- `recorded` is what the escrow recorded for the fork, `n₀` Nouns.  As long as Nouns can join, those
recorded are in the escrow or burned; in the token, they exist when they were claimed. -/
structure Exact (d : Deployment H) (escrow : Address) (recorded : Nat → Address) (n₀ : Nat)
    (s : ForkClaims H) : Prop where
  safe : s.original.Safe d escrow
  fresh : s.original.nouns.Fresh
  closed : s.token.forkId < (s.original.escrows escrow).forkId
  records : s.escrowedBy escrow = recorded
  past : s.original.timestamp < s.token.forkingPeriodEndTimestamp →
    s.original.PastRecords d escrow s.token.forkId
  funded : s.token.Funded
  exists_iff : ∀ id, recorded id ≠ 0 → (s.token.owners id ≠ 0 ↔ s.Claimed id)
  nodup : (s.claimed.map Prod.fst).Nodup
  claimants : ∀ claim ∈ s.claimed, claim.2 ≠ 0 ∧ recorded claim.1 = claim.2
  count : s.token.remainingTokensToClaim + s.claimed.length = n₀

/-- What a step of the original DAO leaves of the invariant. -/
theorem Exact.of_original [DecidableEq H] {admits : World H → Action → Prop} {w' : World H}
    (hd : d.Apart escrow) (h : s.Exact d escrow recorded n₀)
    (hadmits : ∀ a, admits s.original a → s.Leaves escrow s.original a)
    (hn : World.NextEscrow d escrow admits s.original w') :
    ({ s with original := w' } : ForkClaims H).Exact d escrow recorded n₀ := by
  have hlater := hn.1.keepsRecords escrow
  have htime : s.original.timestamp ≤ w'.timestamp := hn.1.timestamp_le
  have hfresh : w'.nouns.Fresh := by
    cases hn.1 with
    | step a _ hstep =>
      exact (World.step_sorted hd h.safe.fixed h.safe.sited hstep).1.counts.fresh h.fresh
    | outside hout =>
      obtain ⟨⟨eth, erc20, outside, rfl⟩, -, -⟩ := hout
      exact h.fresh
  refine ⟨hn.safe hd h.safe, hfresh, ?_, ?_, ?_, h.funded, h.exists_iff, h.nodup, h.claimants, h.count⟩
  · exact Nat.lt_of_lt_of_le h.closed hlater.forkId_le
  · rw [← h.records]
    exact hlater.records _ h.closed
  · intro hopen
    have hopen' := Nat.lt_of_le_of_lt htime hopen
    refine (h.past hopen').next hd h.safe h.fresh ?_ hn
    intro a ha id hid
    exact hadmits a ha hopen' id hid

/-- A call of the token that mints no recorded Noun, unless it claims it, and burns none. -/
theorem Exact.of_call {token : NounsTokenFork} {received : Address → Tx Unit} {now timestamp : Nat}
    {sender : Account} {cl : NounsTokenForkCall} (h : s.Exact d escrow recorded n₀)
    (hspares : ∀ id, recorded id ≠ 0 → cl ≠ .burn id ∧ (id ∈ cl.mints s.token → id ∈ cl.claims))
    (hcall : s.token.call d.crypto (Forked.view d escrow s.original) received now timestamp sender
      cl = .ok token) :
    ({ s with token, claimed := cl.claims.map (fun id => (id, (sender : Address))) ++ s.claimed } :
      ForkClaims H).Exact d escrow recorded n₀ := by
  have hforkId := (NounsTokenFork.call_grows hcall).forkId
  obtain ⟨hperiod, hremaining⟩ := NounsTokenFork.call_remaining hcall
  have hfst : (cl.claims.map (fun id => (id, (sender : Address)))).map Prod.fst = cl.claims := by
    rw [List.map_map]
    exact List.map_id _
  -- what a claim names is recorded for the sender and was not claimed
  have hclaims : cl.claims.Nodup ∧ ∀ id ∈ cl.claims, recorded id = sender ∧ ¬ s.Claimed id := by
    cases cl with
    | claimFromEscrow tokenIds =>
      obtain ⟨hnodup, hids, -⟩ := NounsTokenFork.claimFromEscrow_ok hcall
      refine ⟨hnodup, ?_⟩
      intro id hmem
      obtain ⟨howner, hfree⟩ := hids id hmem
      have hrecorded : recorded id = sender := by
        rw [← h.records]
        exact howner
      refine ⟨hrecorded, ?_⟩
      intro hclaimed
      refine ((h.exists_iff id ?_).mpr hclaimed) hfree
      rw [hrecorded]
      exact sender.2
    | _ => exact ⟨List.nodup_nil, fun _ hmem => absurd hmem List.not_mem_nil⟩
  refine ⟨h.safe, h.fresh, ?_, ?_, ?_, ?_, ?_, ?_, ?_, ?_⟩
  · show token.forkId < _
    rw [hforkId]
    exact h.closed
  · show (s.original.escrows escrow).escrowedTokensByForkId token.forkId = recorded
    rw [hforkId]
    exact h.records
  · show s.original.timestamp < token.forkingPeriodEndTimestamp → _
    rw [hperiod, hforkId]
    exact h.past
  · have hchanges : Token.Changes True now s.token.toToken token.toToken :=
      NounsTokenFork.call_changes hcall
    exact hchanges.funded h.funded
  · intro id hid
    rw [NounsTokenFork.call_exists_iff hcall id, h.exists_iff id hid]
    simp only [Claimed, List.map_append, hfst, List.mem_append]
    constructor
    · rintro (⟨hclaimed, -⟩ | hmint)
      · exact .inr hclaimed
      · exact .inl ((hspares id hid).2 hmint)
    · rintro (hmem | hclaimed)
      · right
        cases cl with
        | claimFromEscrow tokenIds => exact hmem
        | _ => exact absurd hmem List.not_mem_nil
      · exact .inl ⟨hclaimed, (hspares id hid).1⟩
  · rw [List.map_append, hfst]
    refine hclaims.1.append h.nodup ?_
    intro id hmem hclaimed
    exact (hclaims.2 id hmem).2 hclaimed
  · intro claim hmem
    rcases List.mem_append.mp hmem with hnew | hold
    · obtain ⟨id, hid, rfl⟩ := List.mem_map.mp hnew
      exact ⟨sender.2, (hclaims.2 id hid).1⟩
    · exact h.claimants claim hold
  · have hcount := h.count
    simp only [List.length_append, List.length_map]
    omega

section Runs

variable [DecidableEq H]

/-- Those who join bring none of the recorded Nouns. -/
theorem Exact.joins_spare {join : ForkJoin} (h : s.Exact d escrow recorded n₀)
    (hjoins : Joins d escrow join s s') : ∀ id ∈ join.tokenIds, recorded id = 0 := by
  obtain ⟨f, frames, forkTreasury, forkToken, dao, hframes, hstep, -, hclaims, -, hcall⟩ := hjoins
  have hsited : f.Sited d escrow := h.safe.sited f (by rw [hframes]; simp)
  have hnext : World.NextAny d s.original _ := .step _ trivial hstep
  simp only [World.step, hframes] at hstep
  obtain ⟨hsender, hfold⟩ := World.resume_claims hsited hstep hclaims
  -- the token refuses to mint after its period
  simp only [NounsTokenFork.call, NounsTokenFork.claimDuringForkPeriod, bind_eq_ok,
    revertIf_eq_ok] at hcall
  obtain ⟨_, -, _, hopen, -⟩ := hcall
  have htime := hnext.timestamp_le
  have hpast := h.past (by omega)
  intro id hmem
  rw [← h.records]
  exact hpast.not_joined hsender hfold id hmem

theorem Exact.next (hd : d.Apart escrow) (h : s.Exact d escrow recorded n₀)
    (hn : Next d escrow s s') : s'.Exact d escrow recorded n₀ := by
  cases hn with
  | original hn => exact h.of_original hd (fun _ ha => ha) hn
  | join join hjoins =>
    have hspare := h.joins_spare hjoins
    obtain ⟨f, frames, forkTreasury, forkToken, dao, -, hstep, hfixed, -, -, hcall⟩ := hjoins
    have hn : World.NextEscrow d escrow (fun _ a => a = .return_ forkTreasury forkToken) s.original _ :=
      ⟨.step _ rfl hstep, hfixed⟩
    have horiginal := h.of_original hd (by
      rintro a rfl _ id _ ⟨_, _, _, _, hact | hact, -⟩
      · cases hact
      · cases hact) hn
    have hspares : ∀ id, recorded id ≠ 0 →
        NounsTokenForkCall.claimDuringForkPeriod join.sender join.tokenIds ≠ .burn id ∧
          (id ∈ (NounsTokenForkCall.claimDuringForkPeriod join.sender join.tokenIds).mints s.token →
            id ∈ (NounsTokenForkCall.claimDuringForkPeriod join.sender join.tokenIds).claims) := by
      intro id hid
      refine ⟨by simp, ?_⟩
      intro hmem
      exact absurd (hspare id hmem) hid
    exact horiginal.of_call hspares hcall
  | call received sender cl hdao hspares hcall =>
    refine h.of_call ?_ hcall
    intro id hid
    have hescrowed : s.Escrowed escrow id := by
      rw [Escrowed, h.records]
      exact hid
    cases cl with
    | claimFromEscrow tokenIds => exact ⟨by simp, fun hmem => hmem⟩
    | claimDuringForkPeriod to_ tokenIds =>
      simp only [NounsTokenFork.call, NounsTokenFork.claimDuringForkPeriod, bind_eq_ok,
        revertIf_eq_ok, Decidable.not_not] at hcall
      obtain ⟨_, hsender, -⟩ := hcall
      exact absurd hsender hdao
    | mint =>
      refine ⟨by simp, ?_⟩
      intro hmem
      rw [List.mem_singleton.mp hmem] at hescrowed
      exact absurd hescrowed hspares
    | burn nounId =>
      refine ⟨?_, fun hmem => absurd hmem List.not_mem_nil⟩
      intro hburn
      injection hburn with hburn
      rw [← hburn] at hescrowed
      exact hspares hescrowed
    | _ => exact ⟨by simp, fun hmem => absurd hmem List.not_mem_nil⟩

theorem Exact.steps (hd : d.Apart escrow) (h : s.Exact d escrow recorded n₀)
    (hsteps : Relation.ReflTransGen (Next d escrow) s s') : s'.Exact d escrow recorded n₀ :=
  steps_preserve hsteps h (fun _ _ h hn => h.next hd hn)

end Runs

/-! ## What the invariant says -/

/-- The counter is the number of recorded Nouns that nobody claimed. -/
theorem Exact.remaining (h : s.Exact d escrow recorded n₀)
    (hrecorded : {id | recorded id ≠ 0}.encard = n₀) :
    {id | recorded id ≠ 0 ∧ ¬ s.Claimed id}.encard = s.token.remainingTokensToClaim := by
  have hclaimed : {id | s.Claimed id} ⊆ {id | recorded id ≠ 0} := by
    intro id hid
    obtain ⟨claim, hmem, rfl⟩ := List.mem_map.mp hid
    obtain ⟨hne, heq⟩ := h.claimants claim hmem
    show recorded claim.1 ≠ 0
    rw [heq]
    exact hne
  have hcard : {id | s.Claimed id}.encard = s.claimed.length := by
    have hset : {id | s.Claimed id} = ((s.claimed.map Prod.fst).toFinset : Set Nat) := by
      ext id
      simp only [Claimed, Set.mem_ofPred_eq, List.coe_toFinset]
    rw [hset, Set.encard_coe_eq_coe_finsetCard, List.toFinset_card_of_nodup h.nodup,
      List.length_map]
  have hsplit := Set.encard_sdiff_add_encard_of_subset hclaimed
  rw [hcard, hrecorded, ← h.count, Nat.cast_add] at hsplit
  exact (ENat.add_left_injective_of_ne_top (ENat.natCast_ne_top _)) hsplit

theorem Exact.claimable_iff (h : s.Exact d escrow recorded n₀)
    (hrecorded : {id | recorded id ≠ 0}.encard = n₀) {now : Nat} (hnow : now < 2 ^ 32)
    (a : Account) {tokenIds : List Nat}
    (hsupply : s.token.totalSupply + tokenIds.length < 2 ^ 96) :
    (∃ token, s.token.claimFromEscrow (Forked.view d escrow s.original) now a tokenIds = .ok token) ↔
      tokenIds.Nodup ∧ ∀ id ∈ tokenIds, recorded id = a ∧ ¬ s.Claimed id := by
  have hview (id : Nat) : (Forked.view d escrow s.original).ownerOfEscrowedToken s.token.forkId id =
      recorded id := congrFun h.records id
  constructor
  · rintro ⟨token, hclaim⟩
    obtain ⟨hnodup, hids, -⟩ := NounsTokenFork.claimFromEscrow_ok hclaim
    refine ⟨hnodup, ?_⟩
    intro id hmem
    obtain ⟨howner, hfree⟩ := hids id hmem
    rw [hview] at howner
    refine ⟨howner, ?_⟩
    intro hclaimed
    refine (h.exists_iff id ?_).mpr hclaimed hfree
    rw [howner]
    exact a.2
  · rintro ⟨hnodup, hids⟩
    have hunclaimed (id : Nat) (hmem : id ∈ tokenIds) : recorded id ≠ 0 ∧ ¬ s.Claimed id := by
      obtain ⟨howner, hnot⟩ := hids id hmem
      rw [howner]
      exact ⟨a.2, hnot⟩
    refine NounsTokenFork.exists_claimFromEscrow hnow h.funded hsupply ?_ hnodup ?_
    · -- the ids are among those the counter counts
      have hsub : ((tokenIds.toFinset : Finset Nat) : Set Nat) ⊆
          {id | recorded id ≠ 0 ∧ ¬ s.Claimed id} := by
        intro id hmem
        exact hunclaimed id (List.mem_toFinset.mp hmem)
      have hle := Set.encard_le_encard hsub
      rw [h.remaining hrecorded, Set.encard_coe_eq_coe_finsetCard,
        List.toFinset_card_of_nodup hnodup] at hle
      exact_mod_cast hle
    · intro id hmem
      obtain ⟨hne, hnot⟩ := hunclaimed id hmem
      refine ⟨?_, ?_⟩
      · rw [hview]
        exact (hids id hmem).1
      · by_contra htaken
        exact hnot ((h.exists_iff id hne).mp htaken)

/-! ## From `executeFork` on -/

/-- What a whole `executeFork` from `w` to `w'` leaves. -/
def ofExecuteFork (w w' : World H) (originalAuction : NounsAuctionHouse)
    (treasury auction : Address) : ForkClaims H where
  original := w'
  token := ForkDAODeployer.deployForkDAO (w.timestamp + w.dao.forkPeriod)
    (w.escrows w.dao.forkEscrow) originalAuction treasury auction
  claimed := []

variable [DecidableEq H] {w w' : World H} {sender : Account} {originalAuction : NounsAuctionHouse}
  {treasury auction : Address}

theorem exact_of_executeFork (hd : d.Apart escrow)
    (hr : Reachable (fun w => w.StartSplit d ∧ w.StartEscrow d escrow)
      (World.NextAnyEscrow d escrow) w)
    (hexecute : World.Completes d sender .executeFork w w') :
    (ofExecuteFork w w' originalAuction treasury auction).Exact d escrow
      ((w.escrows escrow).escrowedTokensByForkId (w.escrows escrow).forkId)
      (w.escrows escrow).numTokensInEscrow := by
  have hr' : Reachable (World.StartEscrow d escrow) (World.NextAnyEscrow d escrow) w :=
    hr.mono (fun _ h => h.2) (fun _ _ h => h)
  have hsafe := World.safe_of_reachable hd hr'
  have hrecorded := World.recorded_of_reachable hd hr'
  have hassets := World.assets_nodup (hr.mono (fun _ h => h.1) (fun _ _ h => h.1))
  obtain ⟨_, _, _, hnouns, hclosed⟩ := hexecute.executeFork hassets
  rw [hsafe.fixed.forkEscrow] at hclosed
  have hpast := hrecorded.past hsafe hnouns hclosed
  have hforkId : (ofExecuteFork w w' originalAuction treasury auction).token.forkId =
      (w.escrows escrow).forkId := by
    show (w.escrows w.dao.forkEscrow).forkId = _
    rw [hsafe.fixed.forkEscrow]
  refine ⟨?_, ?_, ?_, ?_, ?_, ?_, ?_, ?_, ?_, ?_⟩
  · exact World.safe_of_steps hd hsafe (hexecute.executeFork_steps hsafe.fixed)
  · show w'.nouns.Fresh
    rw [hnouns]
    exact hrecorded.fresh
  · rw [hforkId]
    exact hpast.closed
  · show (w'.escrows escrow).escrowedTokensByForkId _ = _
    rw [hforkId, hclosed]
    rfl
  · intro _
    rw [hforkId]
    exact hpast
  · exact ⟨Token.empty_ledger, Token.empty_backed⟩
  · intro id _
    exact iff_of_false (fun hne => hne rfl) List.not_mem_nil
  · exact List.nodup_nil
  · exact fun _ hmem => absurd hmem List.not_mem_nil
  · show (w.escrows w.dao.forkEscrow).numTokensInEscrow + 0 = _
    rw [hsafe.fixed.forkEscrow]
    rfl

/-- In every run after `executeFork` the records of the fork stay as they are, and the counter of
the token is the number of recorded Nouns that were not claimed.  Each is claimed once, by who
escrowed it; a claim succeeds exactly when it names such Nouns, each once; and nobody joins with a
recorded one. -/
theorem fork_claims_exact (hd : d.Apart escrow)
    (hr : Reachable (fun w => w.StartSplit d ∧ w.StartEscrow d escrow)
      (World.NextAnyEscrow d escrow) w)
    (hexecute : World.Completes d sender .executeFork w w')
    (hsteps : Relation.ReflTransGen (Next d escrow)
      (ofExecuteFork w w' originalAuction treasury auction) s) :
    s.escrowedBy escrow = (w.escrows escrow).escrowedTokensByForkId (w.escrows escrow).forkId ∧
    {id | s.Escrowed escrow id ∧ ¬ s.Claimed id}.encard = s.token.remainingTokensToClaim ∧
    (s.claimed.map Prod.fst).Nodup ∧
    (∀ claim ∈ s.claimed, s.Escrowed escrow claim.1 ∧ s.escrowedBy escrow claim.1 = claim.2) ∧
    (∀ join s', Joins d escrow join s s' → ∀ id ∈ join.tokenIds, ¬ s.Escrowed escrow id) ∧
    ∀ (a : Account) (tokenIds : List Nat), s.original.blockNumber < 2 ^ 32 →
      s.token.totalSupply + tokenIds.length < 2 ^ 96 →
      ((∃ token, s.token.claimFromEscrow (Forked.view d escrow s.original) s.original.blockNumber a
          tokenIds = .ok token) ↔
        tokenIds.Nodup ∧ ∀ id ∈ tokenIds, s.escrowedBy escrow id = a ∧ ¬ s.Claimed id) := by
  have hstart : (ofExecuteFork w w' originalAuction treasury auction).Exact d escrow _ _ :=
    exact_of_executeFork hd hr hexecute
  have hexact := hstart.steps hd hsteps
  have hcount := (World.recorded_of_reachable hd
    (hr.mono (fun _ h => h.2) (fun _ _ h => h))).records.count
  refine ⟨hexact.records, ?_, hexact.nodup, ?_, ?_, ?_⟩
  · simp only [Escrowed, hexact.records]
    exact hexact.remaining hcount
  · intro claim hmem
    obtain ⟨hne, heq⟩ := hexact.claimants claim hmem
    rw [Escrowed, hexact.records, heq]
    exact ⟨hne, rfl⟩
  · intro join s' hjoins id hmem hescrowed
    rw [Escrowed, hexact.records] at hescrowed
    exact hescrowed (hexact.joins_spare hjoins id hmem)
  · intro a tokenIds hnow hsupply
    rw [hexact.records]
    exact hexact.claimable_iff hcount hnow a hsupply

/-- 7 escrows Noun 1, executes the fork and claims it; then 8 joins with Noun 0. -/
theorem fork_claims_exact_of_join :
    ∃ w w' s, Reachable (fun w => w.StartSplit .sample ∧ w.StartEscrow .sample 104)
        (World.NextAnyEscrow .sample 104) w ∧
      World.Completes .sample .minter .executeFork w w' ∧
      Relation.ReflTransGen (Next .sample 104)
        (ofExecuteFork w w' (.deploy 8 5 1 5 10) 200 203) s ∧
      s.claimed = [(1, 7)] ∧ s.token.owners 1 = 7 ∧ s.token.owners 0 = 8 ∧
      {id | s.Escrowed 104 id ∧ ¬ s.Claimed id}.encard = ((0 : Nat) : ℕ∞) := by
  have hrun : Yields (do
      let w ← World.sample.run .sample (fun _ _ w' => w'.EscrowFixed .sample 104)
        [.callToken .minter .mint, .callToken .minter (.setApprovalForAll 100 true),
          .callToken .noundersDAO (.setApprovalForAll 100 true),
          .ofDAO .minter (.escrowToFork [1] [] "")]
      let w₁ ← w.step .sample (.ofDAO .minter .executeFork)
      let w₂ ← w₁.step .sample (.return_ 200 201)
      let w' ← w₂.step .sample (.return_ 0 0)
      require (w₁.frames.length = 1 ∧ w₂.frames.length = 1 ∧ w'.frames.length = 0) .callFailed
      let token₁ ← (ofExecuteFork w w' (.deploy 8 5 1 5 10) 200 203).token.call
        Deployment.sample.crypto (Forked.view .sample 104 w') (fun _ => .ok ()) w'.blockNumber
        w'.timestamp .minter (.claimFromEscrow [1])
      let u₁ ← w'.step .sample (.ofDAO .noundersDAO (.joinFork [0] [] ""))
      let u₂ ← u₁.step .sample (.return_ 0 0)
      require (u₁.frames.length = 1 ∧ u₂.frames.length = 1 ∧ u₁.EscrowFixed .sample 104 ∧
        u₂.EscrowFixed .sample 104) .callFailed
      let join ← (u₂.frames.head?.bind Frame.join?).elim (throw .callFailed) pure
      token₁.call Deployment.sample.crypto (Forked.view .sample 104 u₂) (fun _ => .ok ())
        u₂.blockNumber u₂.timestamp ⟨100, by decide⟩
        (.claimDuringForkPeriod join.sender join.tokenIds))
      (fun token₂ => token₂.owners 1 = 7 ∧ token₂.owners 0 = 8 ∧
        token₂.remainingTokensToClaim = 0) := by
    decide +kernel
  obtain ⟨token₂, hrun, howner₁, howner₀, hremaining⟩ := hrun
  simp only [bind_eq_ok, require_eq_ok] at hrun
  obtain ⟨w, hw, w₁, h₁, w₂, h₂, w', h', _, ⟨hlen₁, hlen₂, hlen'⟩, token₁, hclaim, u₁, hu₁, u₂, hu₂,
    _, ⟨hframes₁, hframes₂, hfixed₁, hfixed₂⟩, join, hjoin, hcall⟩ := hrun
  have hr : Reachable (fun w => w.StartSplit .sample ∧ w.StartEscrow .sample 104)
      (World.NextAnyEscrow .sample 104) w := by
    refine ⟨World.sample, ⟨World.sample_startSplit, World.sample_startEscrow⟩,
      World.run_steps ?_ hw⟩
    exact fun w a w' hstep hfixed => ⟨.step a trivial hstep, hfixed⟩
  have hexecute : World.Completes .sample .minter .executeFork w w' := by
    refine ⟨_, w₁, h₁, ?_⟩
    rw [hlen₁]
    exact .return_ 200 201 (by omega) h₂ (.return_ 0 0 (by omega) h' (.done hlen'))
  obtain ⟨f₁, hf₁⟩ := List.length_eq_one_iff.mp hframes₁
  obtain ⟨f₂, hf₂⟩ := List.length_eq_one_iff.mp hframes₂
  have hclaims : World.Claims join [] u₂ := by
    refine ⟨f₂, ?_, hf₂⟩
    have hhead : u₂.frames.head?.bind Frame.join? = f₂.join? := by rw [hf₂]; rfl
    rw [hhead] at hjoin
    cases hf : f₂.join? with
    | none =>
      rw [hf] at hjoin
      cases hjoin
    | some join' =>
      rw [hf] at hjoin
      cases hjoin
      rfl
  have hsteps : Relation.ReflTransGen (Next .sample 104)
      (ofExecuteFork w w' (.deploy 8 5 1 5 10) 200 203) ⟨u₂, token₂, [(1, 7)]⟩ := by
    have hstep₁ : Next .sample 104 (ofExecuteFork w w' (.deploy 8 5 1 5 10) 200 203)
        ⟨w', token₁, [(1, 7)]⟩ := .call _ .minter (.claimFromEscrow [1]) (by decide) trivial hclaim
    have hstep₂ : Next .sample 104 ⟨w', token₁, [(1, 7)]⟩ ⟨u₁, token₁, [(1, 7)]⟩ := by
      refine .original ⟨.step _ ?_ hu₁, hfixed₁⟩
      rintro _ id _ ⟨_, _, _, _, hact | hact, -⟩
      · cases hact
      · cases hact
    have hstep₃ : Next .sample 104 ⟨u₁, token₁, [(1, 7)]⟩ ⟨u₂, token₂, [(1, 7)]⟩ :=
      .join join ⟨f₁, [], 0, 0, _, hf₁, hu₂, hfixed₂, hclaims, rfl, hcall⟩
    exact .head hstep₁ (.head hstep₂ (.head hstep₃ .refl))
  obtain ⟨-, hcount, -⟩ := fork_claims_exact World.sample_apart hr hexecute hsteps
  rw [show (⟨u₂, token₂, [(1, 7)]⟩ : ForkClaims Preimage).token.remainingTokensToClaim = 0 from
    hremaining] at hcount
  exact ⟨w, w', _, hr, hexecute, hsteps, rfl, howner₁, howner₀, hcount⟩

end ForkClaims

end Nouns

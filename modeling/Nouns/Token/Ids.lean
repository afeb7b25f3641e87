import Nouns.Token.Approvals

/-!
# Ids — which tokens come into being

A call of either token creates the ids it mints and no others.  The original token mints the next id
only; that of a fork also the ids of Nouns that join it.
-/

open Fallible

namespace Nouns

namespace Token

variable {t t' t₁ : Token} {now : Nat} {new : Nat → Prop}

/-- What exists in `t'` existed in `t`, or has an id with `new`. -/
def Creates (new : Nat → Prop) (t t' : Token) : Prop :=
  ∀ id, t'.owners id ≠ 0 → t.owners id ≠ 0 ∨ new id

theorem Creates.of_owners (h : t'.owners = t.owners) : Creates new t t' := by
  intro id hid
  rw [h] at hid
  exact .inl hid

theorem Creates.trans (h : Creates new t t₁) (h' : Creates new t₁ t') : Creates new t t' := by
  intro id hid
  rcases h' id hid with hold | hnew
  · exact h id hold
  · exact .inr hnew

theorem TokenMoved.creates {src dst : Address} {tokenId : Nat}
    (h : TokenMoved now src dst tokenId t t') (hnew : src ≠ 0 ∨ dst = 0 ∨ new tokenId) :
    Creates new t t' := by
  intro id hid
  rw [h.owners] at hid
  by_cases heq : id = tokenId
  · subst heq
    rw [Function.update_self] at hid
    rcases hnew with hsrc | hdst | hnew
    · exact .inl (h.owner ▸ hsrc)
    · exact absurd hdst hid
    · exact .inr hnew
  · rw [Function.update_of_ne heq] at hid
    exact .inl hid

theorem transferFrom_creates {isApprovedForAll : Address → Address → Bool}
    {sender from_ to_ : Address} {tokenId : Nat}
    (h : t.transferFrom isApprovedForAll now sender from_ to_ tokenId = .ok t') :
    Creates new t t' := by
  have hmoved := transferFrom_ok h
  have hexists : t.owners tokenId ≠ 0 := by
    simp only [transferFrom, isApprovedOrOwner, bind_eq_ok, require_eq_ok] at h
    obtain ⟨_, ⟨_, hexists, -⟩, -⟩ := h
    exact hexists
  exact hmoved.creates (.inl (hmoved.owner ▸ hexists))

theorem approve_owners {isApprovedForAll : Address → Address → Bool} {sender : Account}
    {to_ : Address} {tokenId : Nat} (h : t.approve isApprovedForAll sender to_ tokenId = .ok t') :
    t'.owners = t.owners := by
  simp only [approve, bind_eq_ok] at h
  obtain ⟨_, -, _, -, _, -, h⟩ := h
  obtain ⟨_, _, rfl⟩ := approveToken_ok h
  rfl

theorem setApprovalForAll_owners {sender : Account} {operator : Address} {approved : Bool}
    (h : t.setApprovalForAll sender operator approved = .ok t') : t'.owners = t.owners := by
  simp only [setApprovalForAll, bind_eq_ok, pure_eq_ok] at h
  obtain ⟨_, -, rfl⟩ := h
  rfl

theorem delegateBySigChecked_owners {H : Type} {c : Crypto H} {timestamp : Nat}
    {delegatee : Address} {nonce expiry : Nat} {sig : Bytes}
    (h : t.delegateBySigChecked c now timestamp delegatee nonce expiry sig = .ok t') :
    t'.owners = t.owners := by
  simp only [delegateBySigChecked, bind_eq_ok] at h
  obtain ⟨_, -, _, -, _, -, h⟩ := h
  exact (delegateTo_approvals h).1

/-! ## Minting an id that is taken -/

/-- The revert of `_mint` when the id exists. -/
def AlreadyMinted (e : Revert) : Prop := e = .require "ERC721: token already minted"

theorem require_avoids_alreadyMinted {p : Prop} [Decidable p] {reason : String}
    (h : reason ≠ "ERC721: token already minted") :
    Avoids AlreadyMinted (require p (Revert.require reason)) := by
  apply Avoids.require
  intro he
  exact h (Revert.require.inj he)

theorem writeCheckpoint_avoids_alreadyMinted (delegatee : Address) (oldVotes newVotes : Nat) :
    Avoids AlreadyMinted (t.writeCheckpoint now delegatee oldVotes newVotes) :=
  .bind (require_avoids_alreadyMinted (by decide)) (fun _ _ => .pure _)

theorem moveDelegates_avoids_alreadyMinted (src dst : Address) (amount : Nat) :
    Avoids AlreadyMinted (t.moveDelegates now src dst amount) := by
  have hremove : Avoids AlreadyMinted (t.removeVotes now src amount) := by
    unfold removeVotes
    split
    · refine .bind ?_ (fun _ _ => writeCheckpoint_avoids_alreadyMinted _ _ _)
      exact .bind (require_avoids_alreadyMinted (by decide)) (fun _ _ => .pure _)
    · exact .pure t
  have hadd (t : Token) : Avoids AlreadyMinted (t.addVotes now dst amount) := by
    unfold addVotes
    split
    · refine .bind ?_ (fun _ _ => writeCheckpoint_avoids_alreadyMinted _ _ _)
      refine .bind ?_ (fun _ _ => .bind (require_avoids_alreadyMinted (by decide))
        (fun _ _ => .pure _))
      intro e he hbad
      unfold checked at he
      split at he
      · cases he
      · cases he
        cases hbad
    · exact .pure t
  unfold moveDelegates
  split
  · exact .bind hremove (fun t _ => hadd t)
  · exact .pure t

theorem updateEnumeration_avoids_alreadyMinted (from_ to_ : Address) (tokenId : Nat) :
    Avoids AlreadyMinted (t.updateEnumeration from_ to_ tokenId) := by
  intro e h hbad
  simp only [updateEnumeration] at h
  split at h
  · split at h
    · simp at h
    · cases h
      cases hbad
  · simp at h

theorem mintTo_avoids_alreadyMinted {to_ : Address} {tokenId : Nat} (hfree : t.owners tokenId = 0) :
    Avoids AlreadyMinted (t.mintTo now to_ tokenId) := by
  refine .bind (require_avoids_alreadyMinted (by decide)) (fun _ _ => .bind ?_ (fun _ _ => ?_))
  · intro e he
    rw [require_eq_error] at he
    exact absurd hfree he.1
  · refine .bind ?_ (fun _ _ => .pure _)
    exact .bind (updateEnumeration_avoids_alreadyMinted _ _ _)
      (fun _ _ => moveDelegates_avoids_alreadyMinted _ _ _)

end Token

open Token

/-! ## Calls of NounsToken -/

namespace NounsToken

variable {H : Type} {c : Crypto H} {n n' : NounsToken} {now : Nat}

/-- The call created ids below the next one only, and moved that on when it minted. -/
structure Counts (n n' : NounsToken) : Prop where
  le : n.currentNounId ≤ n'.currentNounId
  creates : Creates (fun id => n.currentNounId ≤ id ∧ id < n'.currentNounId) n.toToken n'.toToken

theorem Counts.of_owners (hcurrent : n'.currentNounId = n.currentNounId)
    (howners : n'.owners = n.owners) : Counts n n' :=
  ⟨Nat.le_of_eq hcurrent.symm, .of_owners howners⟩

theorem Counts.trans {n₁ : NounsToken} (h : Counts n n₁) (h' : Counts n₁ n') : Counts n n' := by
  refine ⟨Nat.le_trans h.le h'.le, ?_⟩
  intro id hid
  rcases h'.creates id hid with hold | ⟨hge, hlt⟩
  · rcases h.creates id hold with hold | ⟨hge, hlt⟩
    · exact .inl hold
    · exact .inr ⟨hge, Nat.lt_of_lt_of_le hlt h'.le⟩
  · exact .inr ⟨Nat.le_trans h.le hge, hlt⟩

theorem mintNext_counts {to_ : Address} (h : n.mintNext now to_ = .ok n') :
    Counts n n' ∧ n'.currentNounId = n.currentNounId + 1 ∧ n'.minter = n.minter ∧
      n'.owners n.currentNounId = to_ := by
  simp only [mintNext, mintNoun, bind_eq_ok, pure_eq_ok] at h
  obtain ⟨t, ht, rfl⟩ := h
  have hmoved := mintTo_ok ht
  refine ⟨⟨Nat.le_succ _, ?_⟩, rfl, rfl, ?_⟩
  · exact hmoved.creates (.inr (.inr ⟨Nat.le_refl _, Nat.lt_succ_self _⟩))
  · exact (congrFun hmoved.owners _).trans (Function.update_self _ _ _)

/-- The last id that is minted goes to the minter. -/
theorem mint_counts {sender : Address} (h : n.mint now sender = .ok n') :
    Counts n n' ∧ n.currentNounId < n'.currentNounId ∧ n'.minter = n.minter ∧
      n'.owners (n'.currentNounId - 1) = n.minter := by
  simp only [mint, bind_eq_ok] at h
  obtain ⟨_, -, h⟩ := h
  split at h
  · obtain ⟨n₁, h₁, h₂⟩ := bind_eq_ok.mp h
    obtain ⟨hcounts₁, hcurrent₁, hminter₁, -⟩ := mintNext_counts h₁
    obtain ⟨hcounts₂, hcurrent₂, hminter₂, howner⟩ := mintNext_counts h₂
    refine ⟨hcounts₁.trans hcounts₂, by omega, hminter₂.trans hminter₁, ?_⟩
    rw [hcurrent₂, Nat.add_sub_cancel, howner, hminter₁]
  · obtain ⟨hcounts, hcurrent, hminter, howner⟩ := mintNext_counts h
    refine ⟨hcounts, by omega, hminter, ?_⟩
    rw [hcurrent, Nat.add_sub_cancel, howner]

/-- What is not new stays with its owner. -/
theorem mint_owners {sender : Address} (h : n.mint now sender = .ok n') {id : Nat}
    (hid : id < n.currentNounId) : n'.owners id = n.owners id := by
  have hnext {m m' : NounsToken} {to_ : Address} (hm : m.mintNext now to_ = .ok m')
      (hlt : id < m.currentNounId) : m'.owners id = m.owners id := by
    simp only [mintNext, mintNoun, bind_eq_ok, pure_eq_ok] at hm
    obtain ⟨t, ht, rfl⟩ := hm
    exact (congrFun (mintTo_ok ht).owners id).trans (Function.update_of_ne (Nat.ne_of_lt hlt) _ _)
  simp only [mint, bind_eq_ok] at h
  obtain ⟨_, -, h⟩ := h
  split at h
  · obtain ⟨n₁, h₁, h₂⟩ := bind_eq_ok.mp h
    obtain ⟨hcounts₁, -⟩ := mintNext_counts h₁
    rw [hnext h₂ (Nat.lt_of_lt_of_le hid hcounts₁.le), hnext h₁ hid]
  · exact hnext h hid

theorem burn_counts {sender : Address} {nounId : Nat} (h : n.burn now sender nounId = .ok n') :
    Counts n n' ∧ n'.currentNounId = n.currentNounId ∧ n'.minter = n.minter := by
  simp only [burn, bind_eq_ok, pure_eq_ok] at h
  obtain ⟨_, -, t, ht, rfl⟩ := h
  exact ⟨⟨Nat.le_refl _, (burnToken_ok ht).creates (.inr (.inl rfl))⟩, rfl, rfl⟩

theorem transferFrom_counts {proxies : Address → Address} {sender from_ to_ : Address}
    {tokenId : Nat} (h : n.transferFrom proxies now sender from_ to_ tokenId = .ok n') :
    Counts n n' ∧ n'.currentNounId = n.currentNounId ∧ n'.minter = n.minter := by
  simp only [transferFrom, bind_eq_ok, pure_eq_ok] at h
  obtain ⟨t, ht, rfl⟩ := h
  exact ⟨⟨Nat.le_refl _, Token.transferFrom_creates ht⟩, rfl, rfl⟩

/-- Every call but `mint` makes no ids. -/
theorem other_counts {proxies : Address → Address} {received : Address → Tx Unit} {timestamp : Nat}
    {sender : Account} {cl : NounsTokenCall}
    (h : n.call c proxies received now timestamp sender cl = .ok n') (hcl : cl ≠ .mint) :
    Counts n n' ∧ n'.currentNounId = n.currentNounId := by
  cases cl with
  | mint => exact absurd rfl hcl
  | burn nounId =>
    obtain ⟨hcounts, hcurrent, -⟩ := burn_counts h
    exact ⟨hcounts, hcurrent⟩
  | transferFrom from_ to_ tokenId =>
    obtain ⟨hcounts, hcurrent, -⟩ := transferFrom_counts h
    exact ⟨hcounts, hcurrent⟩
  | safeTransferFrom from_ to_ tokenId =>
    simp only [call, safeTransferFrom, bind_eq_ok, pure_eq_ok] at h
    obtain ⟨n₁, h₁, _, -, rfl⟩ := h
    obtain ⟨hcounts, hcurrent, -⟩ := transferFrom_counts h₁
    exact ⟨hcounts, hcurrent⟩
  | approve to_ tokenId =>
    simp only [call, bind_eq_ok, pure_eq_ok] at h
    obtain ⟨t, ht, rfl⟩ := h
    exact ⟨.of_owners rfl (approve_owners ht), rfl⟩
  | setApprovalForAll operator approved =>
    simp only [call, bind_eq_ok, pure_eq_ok] at h
    obtain ⟨t, ht, rfl⟩ := h
    exact ⟨.of_owners rfl (setApprovalForAll_owners ht), rfl⟩
  | delegate delegatee =>
    simp only [call, bind_eq_ok, pure_eq_ok] at h
    obtain ⟨t, ht, rfl⟩ := h
    exact ⟨.of_owners rfl (delegateTo_approvals ht).1, rfl⟩
  | delegateBySig delegatee nonce expiry sig =>
    simp only [call, bind_eq_ok, pure_eq_ok] at h
    obtain ⟨t, ht, rfl⟩ := h
    exact ⟨.of_owners rfl (delegateBySigChecked_owners ht), rfl⟩
  | setNoundersDAO noundersDAO =>
    simp only [call, setNoundersDAO, bind_eq_ok, pure_eq_ok] at h
    obtain ⟨_, -, rfl⟩ := h
    exact ⟨.of_owners rfl rfl, rfl⟩
  | setMinter minter =>
    simp only [call, setMinter, bind_eq_ok, pure_eq_ok] at h
    obtain ⟨_, -, _, -, rfl⟩ := h
    exact ⟨.of_owners rfl rfl, rfl⟩
  | lockMinter =>
    simp only [call, lockMinter, bind_eq_ok, pure_eq_ok] at h
    obtain ⟨_, -, _, -, rfl⟩ := h
    exact ⟨.of_owners rfl rfl, rfl⟩
  | transferOwnership newOwner =>
    simp only [call, transferOwnership, bind_eq_ok, pure_eq_ok] at h
    obtain ⟨_, -, _, -, rfl⟩ := h
    exact ⟨.of_owners rfl rfl, rfl⟩
  | renounceOwnership =>
    simp only [call, renounceOwnership, bind_eq_ok, pure_eq_ok] at h
    obtain ⟨_, -, rfl⟩ := h
    exact ⟨.of_owners rfl rfl, rfl⟩

/-- Only the minter makes new ids. -/
theorem call_counts {proxies : Address → Address} {received : Address → Tx Unit} {timestamp : Nat}
    {sender : Account} {cl : NounsTokenCall}
    (h : n.call c proxies received now timestamp sender cl = .ok n') :
    Counts n n' ∧ ((sender : Address) ≠ n.minter → n'.currentNounId = n.currentNounId) := by
  by_cases hcl : cl = .mint
  · subst hcl
    refine ⟨(mint_counts h).1, fun hsender => ?_⟩
    simp only [call, mint, onlyMinter, bind_eq_ok, require_eq_ok] at h
    obtain ⟨_, hminter, -⟩ := h
    exact absurd hminter hsender
  · obtain ⟨hcounts, hcurrent⟩ := other_counts h hcl
    exact ⟨hcounts, fun _ => hcurrent⟩

end NounsToken

/-! ## Calls of NounsTokenFork -/

namespace NounsTokenFork

variable {H : Type} {c : Crypto H} {n n' : NounsTokenFork} {now : Nat} {new : Nat → Prop}

/-- Between `n` and `n'` only ids with `new` came into being, and the next id did not go down. -/
structure Grows (new : Nat → Prop) (n n' : NounsTokenFork) : Prop where
  forkId : n'.forkId = n.forkId
  le : n.currentNounId ≤ n'.currentNounId
  creates : Creates new n.toToken n'.toToken

theorem Grows.of_owners (hforkId : n'.forkId = n.forkId)
    (hcurrent : n'.currentNounId = n.currentNounId) (howners : n'.owners = n.owners) :
    Grows new n n' :=
  ⟨hforkId, Nat.le_of_eq hcurrent.symm, .of_owners howners⟩

theorem mintNoun_grows {to_ : Address} {nounId : Nat} (hnew : new nounId)
    (h : n.mintNoun now to_ nounId = .ok n') :
    Grows new n n' ∧ n'.currentNounId = n.currentNounId := by
  simp only [mintNoun, bind_eq_ok, pure_eq_ok] at h
  obtain ⟨t, ht, rfl⟩ := h
  exact ⟨⟨rfl, Nat.le_refl _, (mintTo_ok ht).creates (.inr (.inr hnew))⟩, rfl⟩

/-- A loop that mints ids with `new`. -/
theorem mintLoop_grows (now : Nat) {f : NounsTokenFork → Nat → Tx NounsTokenFork}
    {tokenIds : List Nat}
    (hround : ∀ m m' nounId, nounId ∈ tokenIds → m.forkId = n.forkId → f m nounId = .ok m' →
      new nounId ∧ ∃ to_, m.mintNoun now to_ nounId = .ok m')
    (h : tokenIds.foldlM f n = .ok n') :
    Grows new n n' ∧ n'.currentNounId = n.currentNounId := by
  refine foldlM_ok (P := fun m => Grows new n m ∧ m.currentNounId = n.currentNounId) h
    ⟨.of_owners rfl rfl rfl, rfl⟩ ?_
  rintro nounId hmem m m' ⟨hgrows, hcurrent⟩ hmint
  obtain ⟨hnew, to_, hmint⟩ := hround m m' nounId hmem hgrows.forkId hmint
  obtain ⟨hgrows', hcurrent'⟩ := mintNoun_grows hnew hmint
  refine ⟨⟨hgrows'.forkId.trans hgrows.forkId, ?_, hgrows.creates.trans hgrows'.creates⟩,
    hcurrent'.trans hcurrent⟩
  exact Nat.le_trans hgrows.le hgrows'.le

theorem claimFromEscrow_grows {escrow : EscrowView} {sender : Address} {tokenIds : List Nat}
    (h : n.claimFromEscrow escrow now sender tokenIds = .ok n') :
    Grows (fun id => escrow.ownerOfEscrowedToken n.forkId id = sender) n n' := by
  simp only [claimFromEscrow, bind_eq_ok, pure_eq_ok] at h
  obtain ⟨n₁, hloop, _, -, rfl⟩ := h
  have hgrows : Grows (fun id => escrow.ownerOfEscrowedToken n.forkId id = sender) n n₁ := by
    refine (mintLoop_grows now ?_ hloop).1
    intro m m' nounId _ hforkId hround
    simp only [bind_eq_ok, revertIf_eq_ok, Decidable.not_not] at hround
    obtain ⟨_, howner, hmint⟩ := hround
    exact ⟨hforkId ▸ howner, sender, hmint⟩
  exact ⟨hgrows.forkId, hgrows.le, hgrows.creates⟩

/-- The next id moves past the ids that join. -/
theorem claimDuringForkPeriod_grows {escrow : EscrowView} {timestamp : Nat}
    {sender to_ : Address} {tokenIds : List Nat}
    (h : n.claimDuringForkPeriod escrow now timestamp sender to_ tokenIds = .ok n') :
    Grows (· < n'.currentNounId) n n' := by
  simp only [claimDuringForkPeriod, bind_eq_ok, pure_eq_ok] at h
  obtain ⟨_, -, _, -, n₁, hloop, hend⟩ := h
  obtain ⟨hgrows, hcurrent⟩ :
      Grows (· ∈ tokenIds) n n₁ ∧ n₁.currentNounId = n.currentNounId := by
    refine mintLoop_grows now ?_ hloop
    intro m m' nounId hmem _ hmint
    exact ⟨hmem, to_, hmint⟩
  have hmax : ∀ id ∈ tokenIds, id ≤ tokenIds.foldl max 0 := by
    intro id hid
    rw [List.foldl_max_eq_max (List.ne_nil_of_mem hid)]
    exact Nat.le_trans (List.le_max_of_mem hid) (Nat.le_max_right _ _)
  split at hend
  · rename_i hge
    subst hend
    refine ⟨hgrows.forkId, Nat.le_trans hge (Nat.le_succ _), ?_⟩
    intro id hid
    rcases hgrows.creates id hid with hold | hmem
    · exact .inl hold
    · exact .inr (Nat.lt_succ_of_le (hmax id hmem))
  · rename_i hlt
    subst hend
    refine ⟨hgrows.forkId, hgrows.le, ?_⟩
    intro id hid
    rcases hgrows.creates id hid with hold | hmem
    · exact .inl hold
    · right
      have hle := hmax id hmem
      omega

theorem mint_grows {sender : Address} (h : n.mint now sender = .ok n') :
    Grows (· < n'.currentNounId) n n' ∧ n'.currentNounId = n.currentNounId + 1 := by
  simp only [mint, bind_eq_ok] at h
  obtain ⟨_, -, h⟩ := h
  have hmint : Grows (· < n.currentNounId + 1) { n with currentNounId := n.currentNounId + 1 } n' ∧
      n'.currentNounId = n.currentNounId + 1 :=
    mintNoun_grows (Nat.lt_succ_self _) h
  obtain ⟨hgrows, hcurrent⟩ := hmint
  refine ⟨⟨hgrows.forkId, by omega, ?_⟩, hcurrent⟩
  rw [hcurrent]
  exact hgrows.creates

theorem mint_avoids_alreadyMinted (hfree : n.owners n.currentNounId = 0) (sender : Address) :
    Avoids AlreadyMinted (n.mint now sender) := by
  refine .bind (require_avoids_alreadyMinted (by decide)) (fun _ _ => ?_)
  exact .bind (mintTo_avoids_alreadyMinted hfree) (fun _ _ => .pure _)

theorem burn_grows {sender : Address} {nounId : Nat} (h : n.burn now sender nounId = .ok n') :
    Grows new n n' := by
  simp only [burn, bind_eq_ok, pure_eq_ok] at h
  obtain ⟨_, -, t, ht, rfl⟩ := h
  exact ⟨rfl, Nat.le_refl _, (burnToken_ok ht).creates (.inr (.inl rfl))⟩

theorem transferFrom_grows {sender from_ to_ : Address} {tokenId : Nat}
    (h : n.transferFrom now sender from_ to_ tokenId = .ok n') : Grows new n n' := by
  simp only [transferFrom, bind_eq_ok, pure_eq_ok] at h
  obtain ⟨t, ht, rfl⟩ := h
  exact ⟨rfl, Nat.le_refl _, Token.transferFrom_creates ht⟩

theorem Grows.mono {new' : Nat → Prop} (h : Grows new n n') (himp : ∀ id, new id → new' id) :
    Grows new' n n' :=
  ⟨h.forkId, h.le, fun id hid => (h.creates id hid).imp_right (himp id)⟩

/-- Every id that comes into being is below the next id, or was escrowed. -/
theorem call_grows {escrow : EscrowView} {received : Address → Tx Unit} {timestamp : Nat}
    {sender : Account} {cl : NounsTokenForkCall}
    (h : n.call c escrow received now timestamp sender cl = .ok n') :
    Grows (fun id => id < n'.currentNounId ∨ escrow.ownerOfEscrowedToken n.forkId id ≠ 0) n n' := by
  cases cl with
  | claimFromEscrow tokenIds =>
    refine (claimFromEscrow_grows h).mono ?_
    intro id howner
    right
    rw [howner]
    exact sender.2
  | claimDuringForkPeriod to_ tokenIds =>
    exact (claimDuringForkPeriod_grows h).mono (fun _ => .inl)
  | mint => exact (mint_grows h).1.mono (fun _ => .inl)
  | burn nounId => exact burn_grows h
  | transferFrom from_ to_ tokenId => exact transferFrom_grows h
  | safeTransferFrom from_ to_ tokenId =>
    simp only [call, safeTransferFrom, bind_eq_ok, pure_eq_ok] at h
    obtain ⟨n₁, htransfer, _, -, rfl⟩ := h
    exact transferFrom_grows htransfer
  | approve to_ tokenId =>
    simp only [call, bind_eq_ok, pure_eq_ok] at h
    obtain ⟨t, ht, rfl⟩ := h
    exact .of_owners rfl rfl (approve_owners ht)
  | setApprovalForAll operator approved =>
    simp only [call, bind_eq_ok, pure_eq_ok] at h
    obtain ⟨t, ht, rfl⟩ := h
    exact .of_owners rfl rfl (setApprovalForAll_owners ht)
  | delegate delegatee =>
    simp only [call, bind_eq_ok, pure_eq_ok] at h
    obtain ⟨t, ht, rfl⟩ := h
    exact .of_owners rfl rfl (delegateTo_approvals ht).1
  | delegateBySig delegatee nonce expiry sig =>
    simp only [call, delegateBySigUpgradeable, bind_eq_ok, pure_eq_ok] at h
    obtain ⟨t, ⟨_, -, ht⟩, rfl⟩ := h
    exact .of_owners rfl rfl (delegateBySigChecked_owners ht)
  | setMinter minter =>
    simp only [call, setMinter, bind_eq_ok, pure_eq_ok] at h
    obtain ⟨_, -, _, -, rfl⟩ := h
    exact .of_owners rfl rfl rfl
  | lockMinter =>
    simp only [call, lockMinter, bind_eq_ok, pure_eq_ok] at h
    obtain ⟨_, -, _, -, rfl⟩ := h
    exact .of_owners rfl rfl rfl
  | transferOwnership newOwner =>
    simp only [call, transferOwnership, bind_eq_ok, pure_eq_ok] at h
    obtain ⟨_, -, _, -, rfl⟩ := h
    exact .of_owners rfl rfl rfl
  | renounceOwnership =>
    simp only [call, renounceOwnership, bind_eq_ok, pure_eq_ok] at h
    obtain ⟨_, -, rfl⟩ := h
    exact .of_owners rfl rfl rfl

end NounsTokenFork

end Nouns

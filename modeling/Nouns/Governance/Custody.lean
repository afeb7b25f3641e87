import Nouns.Governance.EscrowSteps

/-!
# Custody — how a Noun leaves the escrow

The escrow does not record that the DAO owns a Noun: it does when nothing is recorded for the
current fork.  A Noun in the escrow cannot be escrowed again, so what was recorded when it came in
stays right until it leaves, through any number of forks.
-/

open Fallible Transition

namespace Nouns

/-- `tokenId` was escrowed by `a` for fork `f`, and has not left the escrow at `this` since. -/
structure Held (this : Address) (f tokenId : Nat) (a : Address) (nouns : NounsToken)
    (e : ForkEscrow) : Prop where
  owner : nouns.owners tokenId = this
  entry : e.escrowedTokensByForkId f tokenId = a
  le : f ≤ e.forkId
  later : ∀ g, f < g → e.escrowedTokensByForkId g tokenId = 0

namespace Held

variable {this a dao : Address} {f tokenId now : Nat} {nouns nouns' : NounsToken}
  {e e' : ForkEscrow} {proxies : Address → Address}

theorem of_owner (h : Held this f tokenId a nouns e) (howner : nouns'.owners tokenId = this) :
    Held this f tokenId a nouns' e :=
  ⟨howner, h.entry, h.le, h.later⟩

theorem setEscrowed (h : Held this f tokenId a nouns e) {id : Nat} (hne : tokenId ≠ id)
    (b : Address) : Held this f tokenId a nouns (e.setEscrowed id b) := by
  refine ⟨h.owner, ?_, h.le, ?_⟩
  · rw [ForkEscrow.setEscrowed_entry, if_neg (fun heq => hne heq.2)]
    exact h.entry
  · intro g hg
    rw [ForkEscrow.setEscrowed_entry, if_neg (fun heq => hne heq.2)]
    exact h.later g hg

theorem closeEscrow (h : Held this f tokenId a nouns e) :
    Held this f tokenId a nouns e.closeEscrow :=
  ⟨h.owner, h.entry, Nat.le_succ_of_le h.le, h.later⟩

/-- Until the fork is executed the Noun is `a`'s, and the DAO's from then on. -/
theorem currentOwnerOf (h : Held this f tokenId a nouns e) (ha : a ≠ 0) (dao : Address) :
    (e.forkId = f ∧ e.currentOwnerOf dao tokenId = a) ∨
      (f < e.forkId ∧ e.currentOwnerOf dao tokenId = dao) := by
  simp only [ForkEscrow.currentOwnerOf]
  rcases Nat.eq_or_lt_of_le h.le with heq | hlt
  · refine .inl ⟨heq.symm, ?_⟩
    rw [← heq, h.entry, if_neg ha]
  · refine .inr ⟨hlt, ?_⟩
    rw [h.later e.forkId hlt, if_pos rfl]

theorem transferFrom (h : Held this f tokenId a nouns e) {sender from_ to_ : Address} {id : Nat}
    (hfrom : from_ ≠ this) (ht : nouns.transferFrom proxies now sender from_ to_ id = .ok nouns') :
    Held this f tokenId a nouns' e :=
  h.of_owner ((NounsToken.transferFrom_moved ht).owned hfrom h.owner)

theorem transferFrom_of_ne (h : Held this f tokenId a nouns e) {sender from_ to_ : Address}
    {id : Nat} (hne : tokenId ≠ id)
    (ht : nouns.transferFrom proxies now sender from_ to_ id = .ok nouns') :
    Held this f tokenId a nouns' e := by
  refine h.of_owner ?_
  rw [(NounsToken.transferFrom_moved ht).owners, Function.update_of_ne hne]
  exact h.owner

theorem escrowOne {H : Type} {d : Deployment H} {w : World H} {sender : Address}
    {s s' : NounsToken × ForkEscrow} {id : Nat} (h : Held this f tokenId a s.1 s.2)
    (hsender : sender ≠ this) (hround : w.escrowOne d this sender s id = .ok s') :
    Held this f tokenId a s'.1 s'.2 := by
  obtain ⟨ht, hs'⟩ := World.escrowOne_ok hround
  have hne : tokenId ≠ id := by
    rintro rfl
    exact hsender ((NounsToken.transferFrom_moved ht).owner.symm.trans h.owner)
  have hheld := (h.transferFrom_of_ne hne ht).setEscrowed hne sender
  rw [hs']
  exact ⟨hheld.owner, hheld.entry, hheld.le, hheld.later⟩

/-! ## Loops -/

theorem returnTokensToOwner (h : Held this f tokenId a nouns e) (ha : a ≠ 0) (hthis : a ≠ this)
    {owner : Address} {tokenIds : List Nat} (howner : owner ≠ dao)
    (hreturn : e.returnTokensToOwner proxies now dao this nouns owner tokenIds =
      .ok (e', nouns')) :
    Held this f tokenId a nouns' e' ∨
      (owner = a ∧ e.forkId = f ∧ tokenId ∈ tokenIds ∧ nouns'.owners tokenId = a) := by
  simp only [ForkEscrow.returnTokensToOwner, bind_eq_ok, pure_eq_ok, Prod.mk.injEq] at hreturn
  obtain ⟨⟨e₁, nouns₁⟩, hloop, remaining, -, rfl, rfl⟩ := hreturn
  have hrounds : e₁.forkId = e.forkId ∧ (Held this f tokenId a nouns₁ e₁ ∨
      (owner = a ∧ e.forkId = f ∧ tokenId ∈ tokenIds ∧ nouns₁.owners tokenId = a)) := by
    refine foldlM_ok (P := fun s : ForkEscrow × NounsToken => s.1.forkId = e.forkId ∧
      (Held this f tokenId a s.2 s.1 ∨
        (owner = a ∧ e.forkId = f ∧ tokenId ∈ tokenIds ∧ s.2.owners tokenId = a)))
      hloop ⟨rfl, .inl h⟩ ?_
    rintro id hid ⟨e₂, nouns₂⟩ ⟨e₃, nouns₃⟩ ⟨hforkId, hstate⟩ hround
    simp only [bind_eq_ok, revertIf_eq_ok, Decidable.not_not, pure_eq_ok, Prod.mk.injEq] at hround
    obtain ⟨_, hcurrent, nouns₄, ht, rfl, rfl⟩ := hround
    have hm := NounsToken.transferFrom_moved ht
    refine ⟨hforkId, ?_⟩
    by_cases heq : tokenId = id
    · subst heq
      rcases hstate with hheld | ⟨-, -, -, hgone⟩
      · -- the escrow gives it to the account it is recorded for
        rcases hheld.currentOwnerOf ha dao with ⟨hf, hcur⟩ | ⟨-, hcur⟩
        · have howner' : owner = a := hcurrent.symm.trans hcur
          refine .inr ⟨howner', hforkId.symm.trans hf, hid, ?_⟩
          rw [hm.owners, Function.update_self, howner']
        · exact absurd (hcurrent.symm.trans hcur) howner
      · exact absurd (hgone.symm.trans hm.owner) hthis
    · rcases hstate with hheld | ⟨howner', hf, hmem, hgone⟩
      · exact .inl ((hheld.transferFrom_of_ne heq ht).setEscrowed heq 0)
      · refine .inr ⟨howner', hf, hmem, ?_⟩
        rw [hm.owners, Function.update_of_ne heq]
        exact hgone
  rcases hrounds.2 with hheld | hgone
  · exact .inl ⟨hheld.owner, hheld.entry, hheld.le, hheld.later⟩
  · exact .inr hgone

theorem withdrawTokens (h : Held this f tokenId a nouns e) (ha : a ≠ 0) (hdao : a ≠ dao)
    {to_ : Address} {tokenIds : List Nat}
    (hwithdraw : e.withdrawTokens proxies now dao this nouns tokenIds to_ = .ok nouns') :
    Held this f tokenId a nouns' e ∨ (f < e.forkId ∧ tokenId ∈ tokenIds) := by
  refine foldlM_ok (P := fun nouns => Held this f tokenId a nouns e ∨
    (f < e.forkId ∧ tokenId ∈ tokenIds)) hwithdraw (.inl h) ?_
  intro id hid nouns₁ nouns₂ hstate hround
  simp only [bind_eq_ok, revertIf_eq_ok, Decidable.not_not] at hround
  obtain ⟨_, hcurrent, ht⟩ := hround
  rcases hstate with hheld | hgone
  · by_cases heq : tokenId = id
    · subst heq
      rcases hheld.currentOwnerOf ha dao with ⟨-, hcur⟩ | ⟨hlt, -⟩
      · exact absurd (hcur.symm.trans hcurrent) hdao
      · exact .inr ⟨hlt, hid⟩
    · exact .inl (hheld.transferFrom_of_ne heq ht)
  · exact .inr hgone

end Held

namespace World

variable {H : Type} {d : Deployment H} {escrow : Address} {w w' : World H}

/-! ## Steps -/

theorem held_of_escrowLoop {sender : Address} {tokenIds : List Nat} {s s' : NounsToken × ForkEscrow}
    {tokenId : Nat} (h : tokenIds.foldlM (w.escrowOne d escrow sender) s = .ok s')
    (hs : Guarded escrow s.1 s.2) (hsender : sender ≠ escrow) (hmem : tokenId ∈ tokenIds) :
    Held escrow s.2.forkId tokenId sender s'.1 s'.2 := by
  induction tokenIds generalizing s with
  | nil => exact absurd hmem List.not_mem_nil
  | cons id tokenIds ih =>
    rw [List.foldlM_cons, bind_eq_ok] at h
    obtain ⟨u, hround, hloop⟩ := h
    obtain ⟨ht, hu⟩ := escrowOne_ok hround
    by_cases heq : tokenId = id
    · subst heq
      have hheld : Held escrow s.2.forkId tokenId sender u.1 u.2 := by
        rw [hu]
        refine ⟨?_, ?_, Nat.le_refl _, ?_⟩
        · rw [(NounsToken.transferFrom_moved ht).owners, Function.update_self]
        · exact (s.2.setEscrowed_entry tokenId sender _ _).trans (if_pos ⟨rfl, rfl⟩)
        · intro g hg
          exact hs.later.setEscrowed tokenId sender g hg tokenId
      refine foldlM_ok (P := fun s : NounsToken × ForkEscrow => Held escrow _ tokenId sender s.1 s.2)
        hloop hheld ?_
      exact fun id _ v v' hv hround => hv.escrowOne hsender hround
    · have hone : [id].foldlM (w.escrowOne d escrow sender) s = .ok u := by simpa using hround
      have hguarded := escrowLoop_guarded hone hs
      rw [← hguarded.2]
      exact ih hloop hguarded.1 (List.mem_of_ne_of_mem heq hmem)

/-- `a` takes its Noun back before the fork. -/
def TakesBack (escrow : Address) (f tokenId : Nat) (a : Address) (w : World H) (act : Action)
    (w' : World H) : Prop :=
  ∃ tx sender tokenIds, act = .callDAO tx sender (.withdrawFromForkEscrow tokenIds) ∧
    (sender : Address) = a ∧ tokenId ∈ tokenIds ∧ (w.escrows escrow).forkId = f ∧
    ¬ w.dao.isForkPeriodActive w.timestamp ∧ w'.nouns.owners tokenId = a

/-- The admin of the DAO withdraws a Noun of a fork that is over. -/
def Withdraws (escrow : Address) (f tokenId : Nat) (w : World H) (act : Action) : Prop :=
  ∃ tx sender tokenIds to_, (act = .callDAO tx sender (.withdrawDAONounsFromEscrowToTreasury tokenIds) ∨
      act = .callDAO tx sender (.withdrawDAONounsFromEscrowIncreasingTotalSupply tokenIds to_)) ∧
    (sender : Address) = w.dao.admin ∧ tokenId ∈ tokenIds ∧ f < (w.escrows escrow).forkId

/-- The minter burns the Noun. -/
def Burns (tokenId : Nat) (w : World H) (act : Action) : Prop :=
  ∃ sender, act = .callToken sender (.burn tokenId) ∧ (sender : Address) = w.nouns.minter

/-- The Noun stays as recorded, or leaves in one of three ways. -/
def StaysOrLeaves (escrow : Address) (f tokenId : Nat) (a : Address) (w : World H) (act : Action)
    (w' : World H) : Prop :=
  (w'.nouns.owners tokenId = escrow → Held escrow f tokenId a w'.nouns (w'.escrows escrow)) ∧
  (w'.nouns.owners tokenId ≠ escrow → TakesBack escrow f tokenId a w act w' ∨
    Withdraws escrow f tokenId w act ∨ Burns tokenId w act)

theorem StaysOrLeaves.of_held {f tokenId : Nat} {a : Address} {act : Action}
    (h : Held escrow f tokenId a w'.nouns (w'.escrows escrow)) :
    StaysOrLeaves escrow f tokenId a w act w' :=
  ⟨fun _ => h, fun hne => absurd h.owner hne⟩

theorem EscrowStep.staysOrLeaves {forks : Prop} {act : Action}
    (h : EscrowStep d escrow forks w act w') (hd : d.Apart escrow) (hsafe : w.Safe d escrow)
    {f tokenId : Nat} {a : Address} (ha : a ≠ 0) (hcalls : d.Calls escrow a)
    (hw : Held escrow f tokenId a w.nouns (w.escrows escrow)) :
    StaysOrLeaves escrow f tokenId a w act w' := by
  cases h with
  | none hnouns hescrow =>
    refine .of_held ?_
    rw [hnouns, hescrow]
    exact hw
  | token hsender hcall hescrow =>
    obtain ⟨-, howned⟩ := NounsToken.call_kept hsafe.guarded.silent hd.escrow_ne_zero
      hsafe.fixed.proxies hsender.1 hcall
    constructor
    · intro howner
      rw [hescrow]
      exact hw.of_owner howner
    · intro hne
      rcases howned tokenId hw.owner with hkept | ⟨rfl, hminter⟩
      · exact absurd hkept hne
      · exact .inr (.inr ⟨_, rfl, hminter⟩)
  | escrowToFork hsender hfork hfold =>
    refine .of_held ?_
    refine foldlM_ok (P := fun s : NounsToken × ForkEscrow => Held escrow f tokenId a s.1 s.2) hfold
      hw ?_
    intro id _ s s' hheld hround
    exact hheld.escrowOne hsender.1 hround
  | withdrawFromForkEscrow hsender hfork hreturn =>
    rcases hw.returnTokensToOwner ha hcalls.1 hsender.2 hreturn with
      hheld | ⟨hsame, hforkId, hmem, howner⟩
    · exact .of_held hheld
    · constructor
      · intro hescrow
        exact absurd (howner.symm.trans hescrow) hcalls.1
      · intro _
        exact .inl ⟨_, _, _, rfl, hsame, hmem, hforkId, hfork, howner⟩
  | executeFork hforks hnouns hescrow =>
    refine .of_held ?_
    rw [hnouns, hescrow]
    exact hw.closeEscrow
  | joinFork join htimelock hsender hfold hescrow =>
    refine .of_held ?_
    rw [hescrow]
    refine foldlM_ok (P := fun nouns => Held escrow f tokenId a nouns (w.escrows escrow)) hfold hw ?_
    exact fun id _ nouns nouns' hheld ht => hheld.transferFrom hsender.1 ht
  | @withdrawDAONounsFromEscrow tx sender tokenIds to_ _ _ hcall hadmin hwithdraw hescrow =>
    constructor
    · intro howner
      rw [hescrow]
      exact hw.of_owner howner
    · intro hne
      rcases hw.withdrawTokens ha hcalls.2 hwithdraw with hheld | ⟨hlt, hmem⟩
      · exact absurd hheld.owner hne
      · refine .inr (.inl ⟨tx, sender, tokenIds, to_, ?_, hadmin, hmem, hlt⟩)
        rcases hcall with rfl | rfl
        · exact .inl rfl
        · exact .inr rfl

/-! ## Runs -/

variable [DecidableEq H]

/-- All steps, while the addresses stay as they are. -/
abbrev NextAnyEscrow (d : Deployment H) (escrow : Address) : World H → World H → Prop :=
  NextEscrow d escrow (fun _ _ => True)

/-- The last step of an `executeFork`, which closes the escrow of fork `f`. -/
def ClosesFork (d : Deployment H) (escrow : Address) (f : Nat) (w w' : World H) : Prop :=
  ∃ forkTreasury forkToken, w.step d (.return_ forkTreasury forkToken) = .ok w' ∧
    (∃ frame ∈ w.frames.head?, frame.isForking = true) ∧ (w.escrows escrow).forkId = f ∧
    w'.escrows escrow = (w.escrows escrow).closeEscrow

theorem NextEscrow.closesFork (hd : d.Apart escrow) (hsafe : w.Safe d escrow)
    (h : NextAnyEscrow d escrow w w') :
    (w'.escrows escrow).forkId = (w.escrows escrow).forkId ∨
      ClosesFork d escrow (w.escrows escrow).forkId w w' := by
  cases h.1 with
  | step a _ hstep =>
    have heffect := (step_sorted hd hsafe.fixed hsafe.sited hstep).1
    obtain ⟨-, hsame | ⟨hforks, ⟨forkTreasury, forkToken, rfl⟩, hclose⟩⟩ :=
      heffect.guarded hd hsafe.fixed hsafe.guarded
    · exact .inl hsame
    · exact .inr ⟨forkTreasury, forkToken, hstep, hforks, rfl, hclose⟩
  | outside hout =>
    obtain ⟨⟨eth, erc20, outside, rfl⟩, -, -⟩ := hout
    exact .inl rfl

theorem safe_of_steps {admits : World H → Action → Prop} (hd : d.Apart escrow)
    (hsafe : w.Safe d escrow) (h : Relation.ReflTransGen (NextEscrow d escrow admits) w w') :
    w'.Safe d escrow :=
  steps_preserve h hsafe (fun _ _ hw hn => hn.safe hd hw)

/-- A fork id that is past was closed by an `executeFork`. -/
theorem closed_of_steps (hd : d.Apart escrow) (hsafe : w.Safe d escrow)
    (h : Relation.ReflTransGen (NextAnyEscrow d escrow) w w') :
    (w'.escrows escrow).forkId = (w.escrows escrow).forkId ∨
      ∃ v v', Relation.ReflTransGen (NextAnyEscrow d escrow) w v ∧
        ClosesFork d escrow (w.escrows escrow).forkId v v' ∧
        Relation.ReflTransGen (NextAnyEscrow d escrow) v' w' := by
  induction h with
  | refl => exact .inl rfl
  | tail hsteps hn ih =>
    rcases ih with hsame | ⟨v, v', hv, hclose, hv'⟩
    · rcases hn.closesFork hd (safe_of_steps hd hsafe hsteps) with hsame' | hclose
      · exact .inl (hsame'.trans hsame)
      · rw [hsame] at hclose
        exact .inr ⟨_, _, hsteps, hclose, .refl⟩
    · exact .inr ⟨v, v', hv, hclose, hv'.tail hn⟩

theorem held_of_steps (hd : d.Apart escrow) (hsafe : w.Safe d escrow) {f tokenId : Nat}
    {a : Address} (ha : a ≠ 0) (hcalls : d.Calls escrow a)
    (hw : Held escrow f tokenId a w.nouns (w.escrows escrow))
    (h : Relation.ReflTransGen (fun v v' => NextAnyEscrow d escrow v v' ∧
      v'.nouns.owners tokenId = escrow) w w') :
    w'.Safe d escrow ∧ Held escrow f tokenId a w'.nouns (w'.escrows escrow) := by
  refine steps_preserve (P := fun w => w.Safe d escrow ∧
    Held escrow f tokenId a w.nouns (w.escrows escrow)) h ⟨hsafe, hw⟩ ?_
  rintro v v' ⟨hsafe, hv⟩ ⟨hn, howner⟩
  refine ⟨hn.safe hd hsafe, ?_⟩
  cases hn.1 with
  | step act _ hstep =>
    have heffect := (step_sorted hd hsafe.fixed hsafe.sited hstep).1
    exact (heffect.staysOrLeaves hd hsafe ha hcalls hv).1 howner
  | outside hout =>
    obtain ⟨⟨eth, erc20, outside, rfl⟩, -, -⟩ := hout
    exact hv

theorem held_of_deposit (hd : d.Apart escrow) (hsafe : w.Safe d escrow) {tx : TxContext}
    {a : Account} {tokenIds proposalIds : List Nat} {reason : String} {tokenId : Nat}
    (h : w.step d (.callDAO tx a (.escrowToFork tokenIds proposalIds reason)) = .ok w')
    (hmem : tokenId ∈ tokenIds) : d.Calls escrow a ∧
      (w'.escrows escrow).forkId = (w.escrows escrow).forkId ∧
      Held escrow (w.escrows escrow).forkId tokenId a w'.nouns (w'.escrows escrow) := by
  simp only [step, bind_eq_ok] at h
  obtain ⟨w₁, henter, h⟩ := h
  obtain ⟨frames, hentered, rfl⟩ := enter_entered henter
  have hcalls := hentered.calls hd hsafe.sited
  have hfixed : EscrowFixed d escrow { w with frames } :=
    ⟨hsafe.fixed.timelocks, hsafe.fixed.forkEscrow, hsafe.fixed.proxies⟩
  obtain ⟨-, hfold, -⟩ := escrowToFork_ok hfixed h
  exact ⟨hcalls, (escrowLoop_guarded hfold hsafe.guarded).2,
    held_of_escrowLoop hfold hsafe.guarded hcalls.1 hmem⟩

/-- A Noun that `a` escrowed for fork `f` leaves the escrow only when `a` itself takes it back,
before that fork and outside a fork period; when the admin of the DAO withdraws it, after that fork
was executed; or when the minter burns it. -/
theorem escrowed_noun_leaves (hd : d.Apart escrow) {w₀ w₁ u u' : World H}
    (h : Reachable (StartEscrow d escrow) (NextAnyEscrow d escrow) w₀) {tx : TxContext}
    {a : Account} {tokenIds proposalIds : List Nat} {reason : String} {tokenId : Nat}
    (hdeposit : w₀.step d (.callDAO tx a (.escrowToFork tokenIds proposalIds reason)) = .ok w₁)
    (hfixed : w₁.EscrowFixed d escrow) (hmem : tokenId ∈ tokenIds)
    (hstays : Relation.ReflTransGen (fun v v' => NextAnyEscrow d escrow v v' ∧
      v'.nouns.owners tokenId = escrow) w₁ u)
    (hleaves : NextAnyEscrow d escrow u u') (hout : u'.nouns.owners tokenId ≠ escrow) :
    ∃ act, u.step d act = .ok u' ∧
      ((∃ tx ids, act = .callDAO tx a (.withdrawFromForkEscrow ids) ∧ tokenId ∈ ids ∧
        (u.escrows escrow).forkId = (w₀.escrows escrow).forkId ∧
        ¬ u.dao.isForkPeriodActive u.timestamp ∧ u'.nouns.owners tokenId = a) ∨
      (∃ tx sender ids to_,
        (act = .callDAO tx sender (.withdrawDAONounsFromEscrowToTreasury ids) ∨
          act = .callDAO tx sender (.withdrawDAONounsFromEscrowIncreasingTotalSupply ids to_)) ∧
        (sender : Address) = u.dao.admin ∧ tokenId ∈ ids ∧
        ∃ v v', Relation.ReflTransGen (NextAnyEscrow d escrow) w₁ v ∧
          ClosesFork d escrow (w₀.escrows escrow).forkId v v' ∧
          Relation.ReflTransGen (NextAnyEscrow d escrow) v' u) ∨
      ∃ sender, act = .callToken sender (.burn tokenId) ∧ (sender : Address) = u.nouns.minter) := by
  have hsafe₀ := safe_of_reachable hd h
  obtain ⟨hcalls, hforkId, hheld⟩ := held_of_deposit hd hsafe₀ hdeposit hmem
  have hnext : NextAnyEscrow d escrow w₀ w₁ := ⟨.step _ trivial hdeposit, hfixed⟩
  have hsafe₁ := hnext.safe hd hsafe₀
  obtain ⟨hsafe, hu⟩ := held_of_steps hd hsafe₁ a.2 hcalls hheld hstays
  cases hleaves.1 with
  | outside hchange =>
    obtain ⟨⟨eth, erc20, outside, rfl⟩, -, -⟩ := hchange
    exact absurd hu.owner hout
  | step act _ hstep =>
    have heffect := (step_sorted hd hsafe.fixed hsafe.sited hstep).1
    refine ⟨act, hstep, ?_⟩
    rcases (heffect.staysOrLeaves hd hsafe a.2 hcalls hu).2 hout with
      ⟨tx', sender, ids, rfl, hsender, hmem', hsame, hfork, howner⟩ |
      ⟨tx', sender, ids, to_, hact, hadmin, hmem', hlt⟩ | hburns
    · rw [show sender = a from Subtype.ext hsender]
      exact .inl ⟨tx', ids, rfl, hmem', hsame, hfork, howner⟩
    · refine .inr (.inl ⟨tx', sender, ids, to_, hact, hadmin, hmem', ?_⟩)
      -- the fork id went past that of the deposit, so some step closed it
      have hsteps : Relation.ReflTransGen (NextAnyEscrow d escrow) w₁ u :=
        Relation.ReflTransGen.mono (fun _ _ hn => hn.1) _ _ hstays
      rcases closed_of_steps hd hsafe₁ hsteps with hsame | ⟨v, v', hv, hclose, hv'⟩
      · omega
      · rw [hforkId] at hclose
        exact ⟨v, v', hv, hclose, hv'⟩
    · exact .inr (.inr hburns)

/-- Noun 1 is minted to 7, who lets the DAO take its Nouns. -/
def readyToEscrow : List Action :=
  [.callToken .minter .mint, .callToken .minter (.setApprovalForAll 100 true)]

/-- 7 escrows Noun 1 and takes it back. -/
theorem escrowed_noun_leaves_to_depositor :
    ∃ w₀ w₁ u', Reachable (StartEscrow .sample 104) (NextAnyEscrow .sample 104) w₀ ∧
      w₀.step .sample (.ofDAO .minter (.escrowToFork [1] [] "")) = .ok w₁ ∧
      w₁.nouns.owners 1 = 104 ∧ NextAnyEscrow .sample 104 w₁ u' ∧ u'.nouns.owners 1 ≠ 104 ∧
      ∃ act, w₁.step .sample act = .ok u' := by
  have hrun : Yields (World.sample.run .sample (fun _ _ w' => w'.EscrowFixed .sample 104)
      readyToEscrow)
      (fun w₀ => Yields (w₀.step .sample (.ofDAO .minter (.escrowToFork [1] [] "")))
        (fun w₁ => w₁.EscrowFixed .sample 104 ∧ w₁.nouns.owners 1 = 104 ∧
          Yields (w₁.step .sample (.ofDAO .minter (.withdrawFromForkEscrow [1])))
            (fun u' => u'.EscrowFixed .sample 104 ∧ u'.nouns.owners 1 ≠ 104))) := by
    decide +kernel
  obtain ⟨w₀, hw₀, w₁, hw₁, hfixed₁, howner, u', hu', hfixed, hout⟩ := hrun
  have hr : Reachable (StartEscrow .sample 104) (NextAnyEscrow .sample 104) w₀ := by
    refine ⟨World.sample, sample_startEscrow, run_steps ?_ hw₀⟩
    exact fun w a w' hstep hfixed => ⟨.step a trivial hstep, hfixed⟩
  have hnext : NextAnyEscrow .sample 104 w₁ u' := ⟨.step _ trivial hu', hfixed⟩
  obtain ⟨act, hact, -⟩ :=
    escrowed_noun_leaves sample_apart hr hw₁ hfixed₁ (List.mem_singleton.mpr rfl) .refl hnext hout
  exact ⟨w₀, w₁, u', hr, hw₁, howner, hnext, hout, act, hact⟩

/-- 7 escrows Noun 1, and the minter burns it before any fork. -/
theorem escrowed_noun_burned :
    ∃ w₀ w₁ u', Reachable (StartEscrow .sample 104) (NextAnyEscrow .sample 104) w₀ ∧
      w₀.step .sample (.ofDAO .minter (.escrowToFork [1] [] "")) = .ok w₁ ∧
      w₁.EscrowFixed .sample 104 ∧ w₁.nouns.owners 1 = 104 ∧
      w₁.step .sample (.callToken .minter (.burn 1)) = .ok u' ∧ u'.EscrowFixed .sample 104 ∧
      u'.nouns.owners 1 ≠ 104 ∧ u'.nouns.owners 1 ≠ 7 ∧
      (u'.escrows 104).forkId = (w₀.escrows 104).forkId := by
  have hrun : Yields (World.sample.run .sample (fun _ _ w' => w'.EscrowFixed .sample 104)
      readyToEscrow)
      (fun w₀ => Yields (w₀.step .sample (.ofDAO .minter (.escrowToFork [1] [] "")))
        (fun w₁ => w₁.EscrowFixed .sample 104 ∧ w₁.nouns.owners 1 = 104 ∧
          Yields (w₁.step .sample (.callToken .minter (.burn 1)))
            (fun u' => u'.EscrowFixed .sample 104 ∧ u'.nouns.owners 1 ≠ 104 ∧
              u'.nouns.owners 1 ≠ 7 ∧ (u'.escrows 104).forkId = (w₀.escrows 104).forkId))) := by
    decide +kernel
  obtain ⟨w₀, hw₀, w₁, hw₁, hfixed₁, howner, u', hu', hresult⟩ := hrun
  refine ⟨w₀, w₁, u', ⟨World.sample, sample_startEscrow, run_steps ?_ hw₀⟩, hw₁, hfixed₁, howner,
    hu', hresult⟩
  exact fun w a w' hstep hfixed => ⟨.step a trivial hstep, hfixed⟩

end World

end Nouns

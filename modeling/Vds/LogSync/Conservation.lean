import Vds.LogSync.Balances
import Vds.LogSync.Build
import Vds.LogSync.DagSteps

/-! The proposed balances hold what the applied blocks have issued, through verdicts, confirmation
and rollbacks that leave no payment behind. -/

namespace Vds.LogSync

open Transactions StateError Dbo Ledger

variable {sp : ServiceProvider} {crypto : Crypto}

/-- The rollback undoes every payment from a row that it takes away. -/
def SpendsWithin (crypto : Crypto) (db : Database) (minOrder : UInt64) : Prop :=
  ∀ tr ∈ transfersOf crypto db, ∀ k, tr.debit = some k →
    Undone crypto db minOrder k.sourceTransaction →
    Undone crypto db minOrder tr.credit.sourceTransaction

/-- Every rollback of the journal leaves applied blocks on applied blocks and payments on rows. -/
structure CleanRollbacks (crypto : Crypto) (e : Event) : Prop where
  safe : SafeRollbacks crypto e
  spends : ∀ db minOrder, e = .rollback db minOrder → SpendsWithin crypto db minOrder

theorem CleanRollbacks.of_isRollback {e : Event} (h : e.isRollback = false) :
    CleanRollbacks crypto e where
  safe := SafeRollbacks.of_isRollback h
  spends db minOrder he := by
    subst he
    cases h

/-- The balances are those that the applied blocks have made. -/
structure Ledgered (crypto : Crypto) (db : Database) : Prop where
  balanced : Balanced proposed db.balances (transfersOf crypto db)
  backed : Backed (transfersOf crypto db)

/-- No stored block issues `n` coins or more at once. -/
def AssetsBelow (n : Nat) (crypto : Crypto) (db : Database) : Prop :=
  ∀ id data, dataOf db id = some data → ∀ m, .assetIssue m ∈ messagesOf crypto data →
    m.value.toNat < n

/-- The ledger in each phase; a rollback on its way may have left payments without their row. -/
def LedgerAt (crypto : Crypto) (db : Database) : Phase → Prop
  | .rollback start w _ => Balanced proposed db.balances (transfersOf crypto db) ∧
    Backed (transfersOf crypto start) ∧ SpendsWithin crypto start w.minOrder
  | .records _ next => LedgerAt crypto db next
  | .idle | .loop | .vote .. | .confirm .. | .followers .. | .retry _ => Ledgered crypto db

theorem Ledgered.congr {db db' : Database} (h : Ledgered crypto db)
    (hb : ∀ k, (db'.balances.lookup k).map proposed = (db.balances.lookup k).map proposed)
    (ht : ∀ x, blockTransfers crypto db' x = blockTransfers crypto db x) : Ledgered crypto db' := by
  have htr := transfersOf_congr ht
  exact ⟨htr ▸ h.balanced.congr hb, htr ▸ h.backed⟩

theorem LedgerAt.congr {db db' : Database} {phase : Phase} (h : LedgerAt crypto db phase)
    (hb : ∀ k, (db'.balances.lookup k).map proposed = (db.balances.lookup k).map proposed)
    (ht : ∀ x, blockTransfers crypto db' x = blockTransfers crypto db x) :
    LedgerAt crypto db' phase := by
  induction phase with
  | records _ _ ih => exact ih h
  | rollback => exact ⟨transfersOf_congr ht ▸ h.1.congr hb, h.2⟩
  | idle | loop | vote | confirm | followers | retry => exact Ledgered.congr h hb ht

theorem transfersOf_lt {db : Database} : ∀ tr ∈ transfersOf crypto db, tr.value < 2 ^ 64 := by
  intro tr ht
  obtain ⟨-, data, -, m, -, hm⟩ := exists_of_mem_transfersOf ht
  exact transferOf_value_lt hm

theorem blockTransfers_of_shape {db db' : Database} (hs : shapeOf db' = shapeOf db)
    (x : ConstDataBuffer) : blockTransfers crypto db' x = blockTransfers crypto db x :=
  blockTransfers_congr (congrFun (dataOf_of_shape hs) x) (applied_of_shape hs x)

theorem blockTransfers_of_marked {s : RecordState} {t t' : DatabaseTransaction}
    (hs : s.haveState = false) (hm : Marked s t t') (x : ConstDataBuffer) :
    blockTransfers crypto t'.db x = blockTransfers crypto t.db x :=
  blockTransfers_congr (congrFun (dataOf_congr hm.blocks) x) (hm.applied hs x)

theorem Ledgered.marked {s : RecordState} {t t' : DatabaseTransaction} (h : Ledgered crypto t.db)
    (hs : s.haveState = false) (hm : Marked s t t') : Ledgered crypto t'.db := by
  refine h.congr (fun k => ?_) (blockTransfers_of_marked hs hm)
  obtain ⟨rows, rfl⟩ := hm.records
  rfl

/-! ### A verdict -/

section Judge

variable {block : TransactionBlock} {s : RecordState} {t t' : DatabaseTransaction}

/-- The transfers after a verdict on a block that is not applied. -/
theorem transfersOf_judged (hst : Stored crypto t.db block.id block) (hn : ¬Applied t.db block.id)
    (hj : Judged sp block t s t') {ms : List Message} (hm : block.messages crypto = .ok ms) :
    transfersOf crypto t'.db =
      if s = .leaf then transfersIn block.id ms + transfersOf crypto t.db else transfersOf crypto t.db := by
  have hother : ∀ x, x ≠ block.id → blockTransfers crypto t'.db x = blockTransfers crypto t.db x :=
    fun x hx => blockTransfers_congr (congrFun (dataOf_congr hj.blocksOf) x) (hj.applied_iff hx)
  rw [transfersOf_add hother (blockTransfers_of_not_applied hn)]
  obtain ⟨data, hd, hb⟩ := stored_iff.mp hst
  let current : Pending := ⟨data, s, false⟩
  have hd' : dataOf t.db block.id = some current.data := hd
  have hcur := Current.of_judged hst hd' hn hj
  split_ifs with hs
  · rw [blockTransfers_eq hcur.data_eq, if_pos (.inr (hs ▸ hcur.state_eq)), messagesOf_eq hb hm]
  · rw [blockTransfers_of_not_applied (hj.not_applied hs), zero_add]

/-- A verdict on a block that is not applied keeps the ledger. -/
theorem Ledgered.judged (h : Ledgered sp.crypto t.db) (hst : Stored sp.crypto t.db block.id block)
    (hn : ¬Applied t.db block.id) (hj : Judged sp block t s t') : Ledgered sp.crypto t'.db := by
  have hsame : s ≠ .leaf → transfersOf sp.crypto t'.db = transfersOf sp.crypto t.db := by
    intro hs
    have hother : ∀ x, blockTransfers sp.crypto t'.db x = blockTransfers sp.crypto t.db x := by
      intro x
      by_cases hx : x = block.id
      · rw [hx, blockTransfers_of_not_applied hn, blockTransfers_of_not_applied (hj.not_applied hs)]
      · exact blockTransfers_congr (congrFun (dataOf_congr hj.blocksOf) x) (hj.applied_iff hx)
    exact transfersOf_congr hother
  have hj' := hj
  cases hj with
  | applied good votes_eq records rows_eq =>
    obtain ⟨ms, hm, happ⟩ := processRecords_eq_ok_true.mp records
    have ht := transfersOf_judged hst hn hj' hm
    rw [if_pos rfl] at ht
    obtain ⟨hbal, hback, -⟩ := happ.balanced h.balanced h.backed
    exact ⟨ht ▸ hbal, ht ▸ hback⟩
  | refused good votes_eq records rows_eq =>
    obtain ⟨ms, t₁, happ, hundo⟩ := processRecords_eq_ok_false records
    obtain ⟨hbal, -, -⟩ := happ.balanced h.balanced h.backed
    have ht := hsame (by decide)
    have hbal' := undoAll_balanced hundo transfersOf_lt hbal
    exact ⟨ht ▸ hbal', ht ▸ h.backed⟩
  | rejected bad votes_eq rows_eq =>
    have ht := hsame (by decide)
    exact ⟨ht ▸ h.balanced, ht ▸ h.backed⟩

/-- The values of the transfers stay below a bound on what is issued at once. -/
theorem transfersOf_lt_judged {n : Nat} (h : Ledgered sp.crypto t.db)
    (hst : Stored sp.crypto t.db block.id block) (hn : ¬Applied t.db block.id)
    (hj : Judged sp block t s t') (ha : AssetsBelow n sp.crypto t.db)
    (hlt : ∀ tr ∈ transfersOf sp.crypto t.db, tr.value < n) :
    ∀ tr ∈ transfersOf sp.crypto t'.db, tr.value < n := by
  by_cases hs : s = .leaf
  · subst hs
    have hj' := hj
    cases hj with
    | applied good votes_eq records rows_eq =>
      obtain ⟨ms, hm, happ⟩ := processRecords_eq_ok_true.mp records
      have ht := transfersOf_judged hst hn hj' hm
      rw [if_pos rfl] at ht
      rw [ht]
      refine (happ.balanced h.balanced h.backed).2.2 n hlt fun m hmem tr htr hd => ?_
      obtain ⟨data, hdata, hb⟩ := stored_iff.mp hst
      cases m with
      | assetIssue m =>
        cases htr
        exact ha block.id data hdata m (messagesOf_eq hb hm ▸ hmem)
      | payment m =>
        cases htr
        cases hd
      | channelMessage | createUser | nodeAdd | createWallet | storeBlock | hostBlock => cases htr
  · have hsub : transfersOf sp.crypto t'.db = transfersOf sp.crypto t.db := by
      refine transfersOf_congr fun x => ?_
      by_cases hx : x = block.id
      · rw [hx, blockTransfers_of_not_applied hn, blockTransfers_of_not_applied (hj.not_applied hs)]
      · exact blockTransfers_congr (congrFun (dataOf_congr hj.blocksOf) x) (hj.applied_iff hx)
    rw [hsub]
    exact hlt

end Judge

/-! ### Rollback -/

section Undo

variable {start : Database} {w : VoteWalk} {k data : ConstDataBuffer}
  {rest : List (ConstDataBuffer × ConstDataBuffer)} {processed : List ConstDataBuffer}
  {walk : RollbackWalk} {block : TransactionBlock} {t t₁ t' : DatabaseTransaction}

/-- A block goes out of use when the rollback takes it. -/
theorem RollbackOf.applied_undo (h : RollbackOf crypto start w ⟨(k, data) :: rest, processed⟩ t.db)
    (hid : block.id = k) (hl : t₁.db.logRecords = t.db.logRecords)
    (hr : Retreated w.minOrder block.ancestors ⟨rest, block.id :: processed⟩ walk
      (setState block.id .validated t₁) t') :
    Applied t.db k ∧ ∀ x, Applied t'.db x ↔ x ≠ k ∧ Applied t.db x := by
  subst hid
  have hs₂ : ∀ x, stateOf (setState block.id .validated t₁).db x =
      if x = block.id then (stateOf t.db x).map fun _ => .validated else stateOf t.db x := by
    intro x
    have hx := stateOf_update t₁.db block.id x .validated
    have he : stateOf t₁.db = stateOf t.db := by
      unfold stateOf
      rw [hl]
    rwa [he] at hx
  obtain ⟨hu, hnp⟩ := h.pending block.id (List.mem_cons_self ..)
  have happ : Applied t.db block.id := by
    unfold Applied
    rw [h.other block.id hnp]
    exact hu.applied h.frontier
  refine ⟨happ, fun x => ?_⟩
  rcases hr.state x with ⟨hx, hin, hout⟩ | ⟨hx, -⟩
  · obtain ⟨hxa, hxr, -⟩ := ((hr.processed x).mp hin).resolve_left hout
    have hst := hr.applied x hxa hout hxr
    have hne : x ≠ block.id := fun he => hout (he ▸ List.mem_cons_self ..)
    rw [hs₂, if_neg hne] at hst
    exact iff_of_true (.inr hx) ⟨hne, .inl hst⟩
  · unfold Applied
    rw [hx, hs₂]
    by_cases hne : x = block.id
    · rw [if_pos hne]
      refine iff_of_false ?_ fun h => h.1 hne
      cases stateOf t.db x <;> simp
    · rw [if_neg hne]
      exact (and_iff_right hne).symm

theorem RollbackOf.undo_balanced
    (h : RollbackOf sp.crypto start w ⟨(k, data) :: rest, processed⟩ t.db)
    (hbal : Balanced proposed t.db.balances (transfersOf sp.crypto t.db))
    (parses : TransactionBlock.create sp.crypto data = .ok block)
    (undone : undoRecords sp block t = .ok () t₁)
    (hr : Retreated w.minOrder block.ancestors ⟨rest, block.id :: processed⟩ walk
      (setState block.id .validated t₁) t') :
    Balanced proposed t'.db.balances (transfersOf sp.crypto t'.db) ∧
      ∃ T, transfersOf sp.crypto t.db = T + transfersOf sp.crypto t'.db := by
  obtain ⟨hl, hh, -⟩ := undoRecords_keeps undone
  have hdk : dataOf t.db k = some data := by
    rw [dataOf_congr h.blocks]
    exact h.data (k, data) (List.mem_cons_self ..)
  obtain rfl : block.id = k :=
    h.wellFormed.id_eq (stored_iff.mpr ⟨data, h.data (k, data) (List.mem_cons_self ..), parses⟩)
  obtain ⟨happ, hiff⟩ := h.applied_undo rfl hl hr
  have hb := blocksOf_update t₁.db block.id (g := fun row => { row with state := .validated })
    fun _ => rfl
  have hdata : dataOf t'.db = dataOf t.db :=
    dataOf_congr (hr.blocks.trans (hb.trans (congrArg Prod.fst (shapeOf_of_eq hl hh))))
  have hadd : transfersOf sp.crypto t.db =
      blockTransfers sp.crypto t.db block.id + transfersOf sp.crypto t'.db :=
    transfersOf_add (fun x hx => blockTransfers_congr (congrFun hdata x).symm
      ((hiff x).trans (and_iff_right hx)).symm)
      (blockTransfers_of_not_applied fun ha => ((hiff block.id).mp ha).1 rfl)
  obtain ⟨ms, hm, hundo⟩ := undoRecords_eq_ok undone
  rw [blockTransfers_eq hdk, if_pos happ, messagesOf_eq parses hm] at hadd
  refine ⟨?_, _, hadd⟩
  have hbal₁ := undoAll_balanced hundo transfersOf_lt (hadd ▸ hbal)
  obtain ⟨rows, rfl⟩ := hr.records
  exact hbal₁

theorem RollbackOf.applied_iff {db : Database} (h : RollbackOf crypto start w ⟨[], processed⟩ db)
    (x : ConstDataBuffer) :
    Applied db x ↔ Applied start x ∧ ¬Undone crypto start w.minOrder x := by
  rcases h.state x with ⟨hu, hs⟩ | ⟨hu, ⟨d, hd, he⟩, hs⟩ | ⟨hu, -, hs⟩
  · refine iff_of_false ?_ fun h => h.2 hu
    unfold Applied
    rw [hs]
    rintro (h | h) <;> cases h
  · exact iff_of_true (.inr hs)
      ⟨.inl (Frontier.closed h.frontier d (hd.applied h.frontier) x he), hu⟩
  · unfold Applied
    rw [hs]
    exact (and_iff_left hu).symm

/-- No payment is left without its row after the rollback. -/
theorem RollbackOf.backed {db : Database} (h : RollbackOf crypto start w ⟨[], processed⟩ db)
    (hb : Backed (transfersOf crypto start)) (hs : SpendsWithin crypto start w.minOrder) :
    Backed (transfersOf crypto db) := by
  have hkeep : ∀ x, ¬Undone crypto start w.minOrder x →
      blockTransfers crypto db x = blockTransfers crypto start x := fun x hx =>
    blockTransfers_congr (congrFun (dataOf_congr h.blocks) x)
      ((h.applied_iff x).trans (and_iff_left hx))
  intro tr ht k hk
  obtain ⟨ha, -⟩ := exists_of_mem_transfersOf ht
  have hnu := ((h.applied_iff _).mp ha).2
  have ht' : tr ∈ transfersOf crypto start := by
    rw [mem_transfersOf_iff, ← hkeep _ hnu]
    exact mem_transfersOf_iff.mp ht
  obtain ⟨src, hsrc, hcred⟩ := credits_ne_zero.mp (hb tr ht' k hk)
  refine credits_ne_zero.mpr ⟨src, ?_, hcred⟩
  rw [mem_transfersOf_iff, hcred, hkeep k.sourceTransaction fun hu => hnu (hs tr ht' k hk hu)]
  exact hcred ▸ mem_transfersOf_iff.mp hsrc

end Undo

/-! ### The steps -/

/-- The invariant of the machine. -/
structure Config.Sound (crypto : Crypto) (c : Config) : Prop where
  inv : c.Inv crypto
  ledger : LedgerAt crypto c.t.db c.phase
  below : ∀ n, AssetsBelow n crypto c.t.db → ∀ tr ∈ transfersOf crypto c.t.db, tr.value < n

theorem AssetsBelow.congr {n : Nat} {db db' : Database} (h : AssetsBelow n crypto db')
    (hd : ∀ x data, dataOf db x = some data → dataOf db' x = some data) : AssetsBelow n crypto db :=
  fun id data hdata m hm => h id data (hd id data hdata) m hm

theorem Config.Sound.of_same {c c' : Config} (h : c.Sound crypto) (hi : c'.Inv crypto)
    (hl : LedgerAt crypto c'.t.db c'.phase)
    (ht : transfersOf crypto c'.t.db = transfersOf crypto c.t.db)
    (hd : dataOf c'.t.db = dataOf c.t.db) : c'.Sound crypto where
  inv := hi
  ledger := hl
  below n ha := ht ▸ h.below n (ha.congr fun x data hx => by rwa [hd])

theorem Config.Sound.step {c c' : Config} (hg : AllGood (CleanRollbacks sp.crypto) c'.t)
    (h : c.Sound sp.crypto) (hstep : Step sp c c') : c'.Sound sp.crypto := by
  have hi := h.inv.step (fun e he => (hg e he).safe) hstep
  have hw := h.inv.wellFormed
  have hp := h.inv.phase
  have hl := h.ledger
  have hshape : ∀ {db db' : Database}, shapeOf db' = shapeOf db →
      transfersOf sp.crypto db' = transfersOf sp.crypto db :=
    fun hs => transfersOf_congr (blockTransfers_of_shape hs)
  cases hstep with
  | tick | start | pass | reprocessed | finish | confirmed | skip | retried =>
    exact h.of_same hi hl rfl rfl
  | @store t t' ps pr blockData block parses inserted =>
    have hd : ∀ x, x ≠ block.id → t'.db.logRecords.lookup x = t.db.logRecords.lookup x :=
      fun x hx => (lookup_of_insertBlock inserted x).trans (if_neg hx)
    have hb : ∀ x, blockTransfers sp.crypto t'.db x = blockTransfers sp.crypto t.db x := by
      intro x
      by_cases hx : x = block.id
      · subst hx
        rw [blockTransfers_of_not_applied (not_applied_of_insertBlock inserted)]
        unfold blockTransfers
        rw [not_stored_of_insertBlock inserted]
        rfl
      · unfold blockTransfers
        rw [hd x hx]
    refine ⟨hi, Ledgered.congr hl (fun k => ?_) hb, fun n ha => ?_⟩
    · obtain ⟨-, hier, rfl, -⟩ := insertBlock_eq_ok inserted
      rfl
    · rw [transfersOf_congr hb]
      refine h.below n (ha.congr fun x data hx => ?_)
      have hne : x ≠ block.id := by
        rintro rfl
        rw [dataOf, not_stored_of_insertBlock inserted] at hx
        cases hx
      rw [dataOf, hd x hne]
      exact hx
  | wait parses waits =>
    obtain ⟨-, rfl, -⟩ := (processBlock_eq_ok waits).resolve_right fun h => by
      rcases h.2.state_eq with h | h <;> cases h
    exact h.of_same hi hl rfl rfl
  | @judge t t' qs k data rest pr block state parses judged verdict =>
    obtain ⟨-, hj⟩ := (processBlock_eq_ok judged).resolve_left fun h => verdict h.1
    obtain ⟨rfl, hst⟩ := hp.2.stored hw (List.mem_cons_self ..) parses
    have hn := (hp.2.entries _ data (List.mem_cons_self ..)).2
    refine ⟨hi, Ledgered.judged (t := visited block.id rest t) hl hst hn hj, fun n ha => ?_⟩
    have ha' : AssetsBelow n sp.crypto t.db :=
      ha.congr fun x data hx => by rwa [congrFun (dataOf_congr hj.blocksOf) x]
    exact transfersOf_lt_judged (t := visited block.id rest t) hl hst hn hj ha' (h.below n ha')
  | elect walk | propose walk =>
    have ho := OnlyVotes.voteWalk walk
    refine h.of_same hi (Ledgered.congr hl (fun k => ?_) (blockTransfers_of_shape ho.shapeOf))
      (hshape ho.shapeOf) (dataOf_of_shape ho.shapeOf)
    obtain ⟨votes, journal, rfl⟩ := ho
    rfl
  | @confirm t _ _ _ _ _ _ p | @confirmInvalid t _ _ _ _ _ _ p =>
    have hs := shapeOf_setConsensus p.id t
    exact h.of_same hi (Ledgered.congr hl (fun k => rfl) (blockTransfers_of_shape hs))
      (hshape hs) (dataOf_of_shape hs)
  | @records t t' qs ps pr p next block parses done =>
    obtain ⟨hlr, hh⟩ := consensusRecords_keeps done
    have hs := shapeOf_of_eq hlr hh
    have hb : ∀ x, blockTransfers sp.crypto t'.db x = blockTransfers sp.crypto t.db x :=
      blockTransfers_of_shape hs
    exact h.of_same hi (LedgerAt.congr hl (consensusRecords_proposed done) hb) (hshape hs)
      (dataOf_of_shape hs)
  | follow found pushed =>
    have hm := PhaseInv.follow_marked hw hp found pushed
    exact h.of_same hi (Ledgered.marked hl rfl hm)
      (transfersOf_congr (blockTransfers_of_marked rfl hm)) (dataOf_congr hm.blocks)
  | rollback invalid =>
    have he := hg _ (List.mem_cons_self ..)
    exact h.of_same hi ⟨hl.balanced, hl.backed, he.spends _ _ rfl⟩ rfl rfl
  | @undo t t₁ t' qs ps pr start w k data rest processed walk block parses undone ancestors =>
    have hr := rollbackAncestors_eq_ok ancestors
    obtain ⟨hbal, T, hT⟩ := hp.undo_balanced hl.1 parses undone hr
    refine ⟨hi, ⟨hbal, hl.2⟩, fun n ha tr htr => ?_⟩
    have hd : dataOf t'.db = dataOf t.db := by
      rw [dataOf_congr hi.phase.blocks, dataOf_congr hp.blocks]
    refine h.below n (ha.congr fun x data hx => by rwa [hd]) tr ?_
    rw [hT]
    exact Multiset.mem_add.mpr (.inr htr)
  | rolledBack => exact h.of_same hi ⟨hl.1, hp.backed hl.2.1 hl.2.2⟩ rfl rfl
  | @again t t₁ t' qs ps pr p todo n block invalid parses cleared judged =>
    obtain ⟨hm, hid, hst, hn, hj⟩ := PhaseInv.again_judged hw hp invalid parses cleared judged
    have hl₁ : Ledgered sp.crypto t₁.db := Ledgered.marked hl rfl hm
    refine ⟨hi, hl₁.judged hst hn hj, fun n ha => ?_⟩
    have hd : dataOf t'.db = dataOf t.db :=
      (dataOf_congr hj.blocksOf).trans (dataOf_congr hm.blocks)
    refine transfersOf_lt_judged hl₁ hst hn hj (ha.congr fun x data hx => ?_) ?_
    · rwa [congrFun (dataOf_congr hj.blocksOf) x]
    · rw [transfersOf_congr (blockTransfers_of_marked rfl hm)]
      exact h.below n (ha.congr fun x data hx => by rwa [hd])

/-! ### Runs -/

theorem Config.Sound.empty (crypto : Crypto) : (Config.rest {}).Sound crypto where
  inv := Config.Inv.empty crypto
  ledger := ⟨⟨fun _ _ => rfl, fun _ _ h => nomatch h⟩, fun _ h => nomatch h⟩
  below _ _ _ h := nomatch h

section Run

variable {blocks : List ConstDataBuffer} {journal : List Event} {db : Database}
  (h : Run sp {} blocks journal db) (hg : ∀ e ∈ journal, CleanRollbacks sp.crypto e)
include h hg

theorem Run.sound : Ledgered sp.crypto db ∧
    ∀ n, AssetsBelow n sp.crypto db → ∀ tr ∈ transfersOf sp.crypto db, tr.value < n := by
  obtain ⟨t, rfl, rfl, ps, pr, hs⟩ := h.steps
  have := hs.invariant (I := Config.Sound sp.crypto) (Config.Sound.empty sp.crypto)
    (fun _ _ hg hi hs => hi.step hg hs) hg
  exact ⟨this.ledger, this.below⟩

end Run

/-- What a message issues of a currency. -/
def issued (issuer : ConstDataBuffer) (currency : StdString) : Message → Nat
  | .assetIssue m =>
    if m.issuer = issuer ∧ textColumn m.currency = currency then m.value.toNat else 0
  | _ => 0

/-- What the applied blocks issue of a currency. -/
def issuedTotal (crypto : Crypto) (db : Database) (issuer : ConstDataBuffer)
    (currency : StdString) : Nat :=
  db.logRecords.total fun _ row =>
    if row.state.haveState then ((messagesOf crypto row.data).map (issued issuer currency)).sum else 0

/-- The proposed balances of a currency together. -/
def proposedTotal (db : Database) (issuer : ConstDataBuffer) (currency : StdString) : Int :=
  db.balances.total fun k row =>
    if k.issuer = issuer ∧ k.currency = currency then row.proposedBalance.toInt else 0

/-- What transfers out of nothing bring to rows of a currency. -/
def issuedBy (issuer : ConstDataBuffer) (currency : StdString) :
    Multiset (Transfer BalanceKey) →+ Nat where
  toFun T := ((T.filter fun tr => tr.debit = none ∧
    (tr.credit.issuer = issuer ∧ tr.credit.currency = currency)).map (·.value)).sum
  map_zero' := rfl
  map_add' T U := by rw [Multiset.filter_add, Multiset.map_add, Multiset.sum_add]

theorem issuedBy_transfersIn (issuer : ConstDataBuffer) (currency : StdString)
    (id : ConstDataBuffer) (ms : List Message) :
    issuedBy issuer currency (transfersIn id ms) = (ms.map (issued issuer currency)).sum := by
  have hsingle : ∀ tr : Transfer BalanceKey, issuedBy issuer currency {tr} =
      if tr.debit = none ∧ (tr.credit.issuer = issuer ∧ tr.credit.currency = currency)
      then tr.value else 0 := by
    intro tr
    change ((Multiset.filter _ {tr}).map _).sum = _
    rw [Multiset.filter_singleton]
    split_ifs <;> simp
  induction ms with
  | nil => rfl
  | cons m ms ih =>
    rw [List.map_cons, List.sum_cons, ← ih]
    cases m with
    | payment m =>
      rw [transfersIn_cons_of_some rfl, ← Multiset.singleton_add, map_add, hsingle,
        if_neg fun h => nomatch h.1]
      rfl
    | assetIssue m =>
      rw [transfersIn_cons_of_some rfl, ← Multiset.singleton_add, map_add, hsingle]
      simp only [true_and]
      rfl
    | channelMessage | createUser | nodeAdd | createWallet | storeBlock | hostBlock =>
      rw [transfersIn_cons_of_none rfl]
      exact (Nat.zero_add _).symm

theorem issuedBy_transfersOf (issuer : ConstDataBuffer) (currency : StdString) (db : Database) :
    issuedBy issuer currency (transfersOf crypto db) = issuedTotal crypto db issuer currency := by
  rw [transfersOf, Table.map_total]
  refine Table.total_congr fun id row _ => ?_
  unfold rowTransfers
  split_ifs
  · exact issuedBy_transfersIn issuer currency id _
  · exact map_zero _

theorem toInt_eq_toNat {x : Int64} (h : x.toUInt64.toNat < 2 ^ 63) :
    x.toInt = (x.toUInt64.toNat : Int) :=
  BitVec.toInt_eq_toNat_of_lt (by
    rw [Int64.toNat_toBitVec]
    omega)

/-- The proposed balances are conserved and never negative. -/
structure Conserved (crypto : Crypto) (db : Database) : Prop where
  total : ∀ issuer currency, proposedTotal db issuer currency = issuedTotal crypto db issuer currency
  nonneg : ∀ k row, db.balances.lookup k = some row → 0 ≤ row.proposedBalance.toInt

theorem Ledgered.conserved {db : Database} (h : Ledgered crypto db)
    (hlt : ∀ tr ∈ transfersOf crypto db, tr.value < 2 ^ 63) : Conserved crypto db := by
  have hrow : ∀ k row, db.balances.lookup k = some row →
      row.proposedBalance.toInt = (proposed row : Int) := by
    intro k row hr
    have hm : proposed row + debited (transfersOf crypto db) k ∈ credits (transfersOf crypto db) k := by
      rw [h.balanced.present k row hr]
      exact Multiset.mem_singleton_self _
    obtain ⟨tr, ht, he⟩ := Multiset.mem_map.mp hm
    have := hlt tr (Multiset.mem_of_mem_filter ht)
    exact toInt_eq_toNat (by unfold proposed at he; omega)
  constructor
  · intro issuer currency
    have hcons := h.balanced.settled.conserved (h.balanced.covered h.backed) (fun k => k.issuer = issuer ∧ k.currency = currency)
      fun tr ht k hk => by
        obtain ⟨-, data, -, m, -, hm⟩ := exists_of_mem_transfersOf ht
        obtain ⟨hi, hc⟩ := transferOf_debit hm hk
        rw [hi, hc]
    rw [← issuedBy_transfersOf]
    refine Eq.trans ?_ (congrArg Nat.cast hcons)
    have hcast := Table.map_total (Nat.castAddMonoidHom Int)
      (fun (k : BalanceKey) row => if k.issuer = issuer ∧ k.currency = currency then proposed row else 0)
      db.balances
    refine Eq.trans (Table.total_congr fun k row hr => ?_) hcast.symm
    rw [hrow k row hr]
    split_ifs <;> rfl
  · intro k row hr
    rw [hrow k row hr]
    exact Int.natCast_nonneg _

/-- Two payments from one asset. -/
def spendingBlocks : List ConstDataBuffer :=
  [sampleRoot, sampleBlock 2 2 (sampleNode 1) [sampleId 1] [sampleIssue 10],
    sampleBlock 3 3 (sampleNode 1) [sampleId 2] [samplePayment 2 60 4, samplePayment 2 61 6]]

end Vds.LogSync

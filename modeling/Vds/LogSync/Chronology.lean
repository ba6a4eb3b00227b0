import Vds.LogSync.History

/-! The applied blocks are in chronological order along the graph: an ancestor of an applied block is stored,
has a smaller number and is not from a later second. -/

namespace Vds.LogSync

open StateError Dbo Relation

variable {sp : ServiceProvider} {crypto : Crypto} {block : TransactionBlock} {t t' : DatabaseTransaction}

/-! ### Seconds -/

theorem toInt_toTimeT (a : TimePoint) :
    (toTimeT a).toInt = if 0 ≤ a.toInt then a.toInt / 1000000 else -(-a.toInt / 1000000) := by
  have hdiv : (toTimeT a).toInt = a.toInt.tdiv 1000000 := Int64.toInt_div_of_ne_right a 1000000 (by decide)
  rw [hdiv]
  split_ifs with ha
  · exact Int.tdiv_eq_ediv_of_nonneg ha
  · rw [← Int.tdiv_eq_ediv_of_nonneg (by omega), Int.neg_tdiv, neg_neg]

/-- Cutting a time to seconds does not overflow. -/
theorem toInt_fromTimeT_toTimeT (a : TimePoint) :
    (fromTimeT (toTimeT a)).toInt = (toTimeT a).toInt * 1000000 := by
  have hlo := Int64.le_toInt a
  have hhi := Int64.toInt_lt a
  have hsec := toInt_toTimeT a
  unfold fromTimeT
  rw [Int64.toInt_mul, show Int64.toInt 1000000 = 1000000 by decide, Int.bmod_eq_of_le]
  all_goals
    split_ifs at hsec
    all_goals omega

/-- The seconds of a time are not after those of a later one. -/
theorem toTimeT_le_of_fromTimeT {a b : TimePoint} (h : fromTimeT (toTimeT a) ≤ b) : toTimeT a ≤ toTimeT b := by
  rw [Int64.le_iff_toInt_le, toInt_fromTimeT_toTimeT] at h
  rw [Int64.le_iff_toInt_le, toInt_toTimeT b]
  split_ifs with hb
  all_goals omega

/-! ### Blocks in order -/

/-- The block `a` comes before the block `d` in number and time. -/
def Before (crypto : Crypto) (db : Database) (a d : ConstDataBuffer) : Prop :=
  ∃ early late, Stored crypto db a early ∧ Stored crypto db d late ∧ early.orderNo < late.orderNo ∧
    toTimeT early.timePoint ≤ toTimeT late.timePoint

theorem Before.trans {db : Database} {a b c : ConstDataBuffer} (h : Before crypto db a b) (h' : Before crypto db b c) :
    Before crypto db a c := by
  obtain ⟨early, mid, ha, hb, ho, ht⟩ := h
  obtain ⟨mid', late, hb', hc, ho', ht'⟩ := h'
  obtain rfl := hb.unique hb'
  exact ⟨early, late, ha, hc, UInt64.lt_trans ho ho', Int64.le_trans ht ht'⟩

theorem Before.irrefl {db : Database} {a : ConstDataBuffer} (h : Before crypto db a a) : False := by
  obtain ⟨early, late, ha, hb, ho, -⟩ := h
  obtain rfl := ha.unique hb
  exact UInt64.lt_irrefl _ ho

/-- All that lies below the block is stored and in order. -/
inductive Settled (crypto : Crypto) (db : Database) : ConstDataBuffer → Prop
  | intro {d block} (stored : Stored crypto db d block) (below : ∀ a ∈ block.ancestors, Settled crypto db a)
      (order : ∀ a ∈ block.ancestors, Before crypto db a d) : Settled crypto db d

theorem Settled.grows {db db' : Database} (hg : DataGrows db db') {d : ConstDataBuffer} (h : Settled crypto db d) :
    Settled crypto db' d := by
  induction h with
  | intro stored _ order ih =>
    refine .intro (stored.grows hg) ih fun a ha => ?_
    obtain ⟨early, late, hs, hs', ho⟩ := order a ha
    exact ⟨early, late, hs.grows hg, hs'.grows hg, ho⟩

theorem Settled.ancestor {db : Database} {a d : ConstDataBuffer} (h : Settled crypto db d)
    (ha : IsAncestor crypto db a d) : Settled crypto db a ∧ Before crypto db a d := by
  cases h with
  | intro stored below order => exact ⟨below a (stored.isAncestor_iff.mp ha), order a (stored.isAncestor_iff.mp ha)⟩

theorem Settled.before {db : Database} {a d : ConstDataBuffer} (h : Settled crypto db d)
    (ha : TransGen (IsAncestor crypto db) a d) : Settled crypto db a ∧ Before crypto db a d := by
  induction ha using TransGen.head_induction_on with
  | single ha => exact h.ancestor ha
  | head hab _ ih =>
    obtain ⟨ha, hlt⟩ := ih.1.ancestor hab
    exact ⟨ha, hlt.trans ih.2⟩

/-! ### Verdicts -/

/-- The ancestors of a block that is applied come before it. -/
theorem Judged.before (hw : WellFormed crypto t.db) (hs : Stored crypto t.db block.id block)
    (h : Judged sp block t .leaf t') {a : ConstDataBuffer} (ha : a ∈ block.ancestors) :
    Before crypto t.db a block.id := by
  cases h with
  | applied good =>
    obtain ⟨row, hr, ⟨ho, ht⟩, -⟩ := good a ha
    obtain ⟨early, hb, -, horder, htime⟩ := hw.block a row hr
    refine ⟨early, block, ⟨row, hr, hb⟩, hs, ?_, ?_⟩
    · rwa [horder, UInt64.toUInt64_toInt64] at ho
    · rw [htime] at ht
      exact toTimeT_le_of_fromTimeT ht

/-- Every applied block is settled. -/
def AppliedSettled (crypto : Crypto) (db : Database) : Prop := ∀ d, Applied db d → Settled crypto db d

/-- A step applies a block only on settled ones. The induction is on the number of the block. -/
theorem Step.settled {c c' : Config} (hstep : Step sp c c') (h : c.Shown sp.crypto)
    (hI : AppliedSettled sp.crypto c.t.db) : AppliedSettled sp.crypto c'.t.db := by
  have hw : WellFormed sp.crypto c'.t.db := hstep.wellFormed h.wellFormed
  have key : ∀ (n : Nat) (d : ConstDataBuffer) (block : TransactionBlock), Stored sp.crypto c'.t.db d block →
      block.orderNo.toNat = n → Applied c'.t.db d → Settled sp.crypto c'.t.db d := by
    intro n
    induction n using Nat.strong_induction_on with
    | _ n ih =>
      rintro d block hs rfl hd
      rcases hstep.applied h.wellFormed h.shown hd with hd | ⟨t₀, rows, journal, block', rfl, hs', hid, hj⟩
      · exact (hI d hd).grows hstep.dataGrows
      · obtain rfl := hid
        have hs₁ := hs'.of_blocksOf hj.blocksOf
        obtain rfl := hs.unique hs₁
        have hbefore {a : ConstDataBuffer} (ha : a ∈ block.ancestors) : Before sp.crypto c'.t.db a block.id := by
          obtain ⟨early, late, hea, hla, ho⟩ := hj.before (hw.of_blocksOf hj.blocksOf.symm) hs' ha
          exact ⟨early, late, hea.of_blocksOf hj.blocksOf, hla.of_blocksOf hj.blocksOf, ho⟩
        refine .intro hs (fun a ha => ?_) fun a => hbefore
        obtain ⟨early, late, hea, hla, ho, -⟩ := hbefore ha
        obtain rfl := hs.unique hla
        have hne : a ≠ block.id := by
          rintro rfl
          exact (hbefore ha).irrefl
        exact ih early.orderNo.toNat (UInt64.lt_iff_toNat_lt.mp ho) a early hea rfl
          ((hj.applied_iff hne).mpr (hj.applied_ancestors a ha))
  intro d hd
  obtain ⟨st, hst⟩ : ∃ st, stateOf c'.t.db d = some st := hd.elim (fun h => ⟨_, h⟩) fun h => ⟨_, h⟩
  obtain ⟨block, hs⟩ := hw.stored_of_state hst
  exact key _ d block hs rfl hd

/-- In every run, whatever was rolled back, all that lies below an applied block is stored and comes before it. -/
theorem applied_after_ancestors {blocks : List ConstDataBuffer} {journal : List Event} {db : Database}
    (h : Run sp {} blocks journal db) {a d : ConstDataBuffer} (hd : Applied db d)
    (ha : TransGen (IsAncestor sp.crypto db) a d) : Before sp.crypto db a d := by
  obtain ⟨c, rfl, -, hI⟩ := Run.induct (I := fun c => AppliedSettled sp.crypto c.t.db)
    (by rintro d (hd | hd) <;> cases hd) (fun _ _ hs hI hstep => hstep.settled hs hI) h
  exact ((hI d hd).before ha).2

theorem applied_after_ancestors_fork : ∃ journal db, Run sampleProvider {} forkBlocks.reverse journal db ∧
    (∃ e ∈ journal, e.isRollback = true) ∧ Before sampleProvider.crypto db (sampleId 3) (sampleId 8) := by
  have hs : (saveAll sampleProvider 9 forkBlocks { db := {} }).any (fun t =>
      t.journal.any Event.isRollback ∧ Applied t.db (sampleId 8) ∧
        IsAncestor sampleProvider.crypto t.db (sampleId 7) (sampleId 8) ∧
        IsAncestor sampleProvider.crypto t.db (sampleId 3) (sampleId 7)) = true := by
    decide +kernel
  obtain ⟨t, ht, hst⟩ := (Option.any_eq_true ..).mp hs
  obtain ⟨hj, h8, h78, h37⟩ := of_decide_eq_true hst
  have hrun := Run.saveAll (t := { db := {} }) .refl ht
  rw [List.append_nil] at hrun
  exact ⟨_, _, hrun, List.any_eq_true.mp hj, applied_after_ancestors hrun h8 (.tail (.single h37) h78)⟩

end Vds.LogSync

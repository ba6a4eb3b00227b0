import Vds.LogSync.History

/-! No approval is made up: a node approves a block only by a block of its own on top of it. -/

namespace Vds.LogSync

open StateError Dbo Table Transactions

variable {sp : ServiceProvider} {block : TransactionBlock} {t t' : DatabaseTransaction}

/-- The node `o` has approved the block `id`. -/
def HasApproved (db : Database) (id o : ConstDataBuffer) : Prop :=
  ∃ row, db.voteRequests.lookup (id, o) = some row ∧ row.approved = true

instance (db : Database) (id o : ConstDataBuffer) : Decidable (HasApproved db id o) :=
  decidable_of_iff ((db.voteRequests.lookup (id, o)).any (·.approved) = true) (Option.any_eq_true ..)

/-- The block `d` is `id` or follows it over any number of blocks. -/
abbrev Above (crypto : Crypto) (db : Database) : ConstDataBuffer → ConstDataBuffer → Prop :=
  Relation.ReflTransGen (IsAncestor crypto db)

/-- Each approval comes from a stored block that the voter has written on top of the approved one. -/
def ApprovalsBacked (crypto : Crypto) (db : Database) : Prop :=
  ∀ id o, HasApproved db id o → ∃ d block, Stored crypto db d block ∧ block.writePublicKeyId = o ∧
    Above crypto db id d

theorem hasApproved_congr {db db' : Database} (h : db'.voteRequests = db.voteRequests) {id o : ConstDataBuffer} :
    HasApproved db' id o ↔ HasApproved db id o := by
  unfold HasApproved
  rw [h]

theorem Above.grows {crypto : Crypto} {db db' : Database} (hg : DataGrows db db') {a d : ConstDataBuffer}
    (h : Above crypto db a d) : Above crypto db' a d := by
  induction h with
  | refl => exact .refl
  | tail _ he ih => exact ih.tail (he.grows hg)

theorem ApprovalsBacked.grows {crypto : Crypto} {db db' : Database} (h : ApprovalsBacked crypto db)
    (hg : DataGrows db db') (hold : ∀ id o, HasApproved db' id o → HasApproved db id o) :
    ApprovalsBacked crypto db' := by
  intro id o ha
  obtain ⟨d, block, hs, hb, hd⟩ := h id o (hold id o ha)
  exact ⟨d, block, hs.grows hg, hb, Above.grows hg hd⟩

/-! ### Verdicts approve nothing -/

theorem applyRecord_hasApproved {m : Message} (h : applyRecord sp m block t = .ok true t') {id o : ConstDataBuffer}
    (ha : HasApproved t'.db id o) : HasApproved t.db id o := by
  have hrest := applyRecord_rest h
  by_cases hm : ∃ c, m = .nodeAdd c
  · obtain ⟨c, rfl⟩ := hm
    obtain ⟨row, hr, hrow⟩ := ha
    rw [(hrest.vote c rfl).2, lookup_insert_eq] at hr
    split_ifs at hr
    · cases hr
      cases hrow
    · exact ⟨row, hr, hrow⟩
  · exact (hasApproved_congr (hrest.votes fun c hc => hm ⟨c, hc⟩)).mp ha

theorem AppliesTo.hasApproved {ms : List Message} (h : AppliesTo sp block ms t t') {id o : ConstDataBuffer}
    (ha : HasApproved t'.db id o) : HasApproved t.db id o := by
  induction ms generalizing t with
  | nil =>
    cases h
    exact ha
  | cons m ms ih =>
    obtain ⟨t₁, hm, hms⟩ := h
    exact applyRecord_hasApproved hm (ih hms)

theorem processRecords_hasApproved {b : Bool} (h : processRecords sp block t = .ok b t') {id o : ConstDataBuffer}
    (ha : HasApproved t'.db id o) : HasApproved t.db id o := by
  cases b with
  | true =>
    obtain ⟨ms, -, happ⟩ := processRecords_eq_ok_true.mp h
    exact happ.hasApproved ha
  | false =>
    obtain ⟨ms, t₁, happ, hu⟩ := processRecords_eq_ok_false h
    exact happ.hasApproved ((hasApproved_congr (undoAll_rest hu).2.2.1).mp ha)

theorem Inherited.hasApproved {db : Database} {votes : Table (ConstDataBuffer × ConstDataBuffer) VoteRequest}
    (h : Inherited block db votes) {id o : ConstDataBuffer} (ha : HasApproved { db with voteRequests := votes } id o) :
    HasApproved db id o := by
  obtain ⟨row, hr, hrow⟩ := ha
  simp only [h id o] at hr
  split_ifs at hr
  · cases hr
    cases hrow
  · exact ⟨row, hr, hrow⟩

theorem Judged.hasApproved {s : RecordState} (h : Judged sp block t s t') {id o : ConstDataBuffer}
    (ha : HasApproved t'.db id o) : HasApproved t.db id o := by
  cases h with
  | applied _ votes_eq records => exact votes_eq.hasApproved (processRecords_hasApproved records ha)
  | refused _ votes_eq records => exact votes_eq.hasApproved (processRecords_hasApproved records ha)
  | rejected _ votes_eq => exact votes_eq.hasApproved ha

/-! ### The walk of the votes -/

theorem castVote_hasApproved {current : TransactionBlock} {consensus : Bool} {r : Option Bool}
    (h : castVote block current consensus t = .ok r t') {id o : ConstDataBuffer} (ha : HasApproved t'.db id o) :
    HasApproved t.db id o ∨ id = current.id ∧ o = block.writePublicKeyId := by
  obtain ⟨row', hr', hrow'⟩ := ha
  have hkey (he : (id, o) = (current.id, block.writePublicKeyId)) : id = current.id ∧ o = block.writePublicKeyId :=
    Prod.mk.inj he
  unfold castVote at h
  rw [find_bind] at h
  cases hl : t.db.voteRequests.lookup (current.id, block.writePublicKeyId) with
  | none =>
    simp only [Orm.transactionLogVoteRequest_rows, hl] at h
    split_ifs at h
    · rw [record_bind, insert_bind_eq_ok] at h
      obtain ⟨-, h⟩ := h
      cases h
      simp only [Orm.transactionLogVoteRequest_rows, Orm.transactionLogVoteRequest_write, lookup_insert_eq] at hr'
      split_ifs at hr' with he
      · exact .inr (hkey he)
      · exact .inl ⟨row', hr', hrow'⟩
    · cases h
  | some row =>
    simp only [Orm.transactionLogVoteRequest_rows, hl] at h
    split_ifs at h
    · cases h
      exact .inl ⟨row', hr', hrow'⟩
    · rw [update_bind] at h
      cases h
      simp only [Orm.transactionLogVoteRequest_rows, Orm.transactionLogVoteRequest_write, lookup_update_eq] at hr'
      split_ifs at hr' with he
      · exact .inr (hkey he)
      · exact .inl ⟨row', hr', hrow'⟩

/-- The walk approves for the author of `block`, and only what lies below it. -/
theorem voteWalk_hasApproved {db : Database} (hw : WellFormed sp.crypto db) {n : Nat} {w w' : VoteWalk}
    (hl : t.db.logRecords = db.logRecords)
    (hp : ∀ k d, (k, d) ∈ w.notProcessed → dataOf db k = some d.data ∧ Above sp.crypto db k block.id)
    (h : voteWalk sp block n w t = .ok w' t') {id o : ConstDataBuffer} (ha : HasApproved t'.db id o) :
    HasApproved t.db id o ∨ o = block.writePublicKeyId ∧ Above sp.crypto db id block.id := by
  induction n generalizing w t with
  | zero => cases h
  | succ n ih =>
    unfold voteWalk at h
    cases hnp : w.notProcessed with
    | nil =>
      simp only [hnp] at h
      cases h
      exact .inl ha
    | cons e rest =>
      obtain ⟨k, d⟩ := e
      simp only [hnp, getExpected_bind_eq_ok] at h
      obtain ⟨current, hb, h⟩ := h
      obtain ⟨hd, habove⟩ := hp k d (hnp ▸ List.mem_cons_self ..)
      have hstored : Stored sp.crypto db k current := stored_iff.mpr ⟨d.data, hd, hb⟩
      obtain rfl : current.id = k := hw.id_eq hstored
      obtain ⟨r, t₁, hv, h⟩ := bind_eq_ok.mp h
      have hl₁ : t₁.db.logRecords = db.logRecords := (OnlyVotes.castVote hv).logRecords.trans hl
      have hrest : ∀ k d, (k, d) ∈ rest → dataOf db k = some d.data ∧ Above sp.crypto db k block.id :=
        fun k d hm => hp k d (hnp ▸ List.mem_cons_of_mem _ hm)
      -- what the rest of the walk approves, or this vote
      have hcast (hx : HasApproved t₁.db id o ∨ o = block.writePublicKeyId ∧ Above sp.crypto db id block.id) :
          HasApproved t.db id o ∨ o = block.writePublicKeyId ∧ Above sp.crypto db id block.id := by
        rcases hx with hx | hx
        · rcases castVote_hasApproved hv hx with hx | ⟨rfl, ho⟩
          · exact .inl hx
          · exact .inr ⟨ho, habove⟩
        · exact .inr hx
      refine hcast ?_
      cases r with
      | none => exact ih hl₁ hrest h
      | some isNew =>
        obtain ⟨c, t₂, hcc, h⟩ := bind_eq_ok.mp h
        rw [checkConsensus_state hcc] at h
        obtain ⟨w₁, hw₁, h⟩ : ∃ w₁ : VoteWalk, w₁.notProcessed = rest ∧
            (if (current.writePublicKeyId ≠ block.writePublicKeyId ∨ current.id = block.id) ∧ (!isNew) = true then do
              let w ← pushAncestors current.ancestors w₁
              voteWalk sp block n w
            else voteWalk sp block n w₁) t₁ = .ok w' t' := ⟨_, by split_ifs <;> rfl, h⟩
        split_ifs at h with hgo
        · obtain ⟨w₂, t₃, hpush, hwalk⟩ := bind_eq_ok.mp h
          obtain ⟨rfl, hclimb⟩ := pushAncestors_eq_ok hpush
          refine ih hl₁ (fun k d hm => ?_) hwalk
          rcases hclimb.entries k d hm with hm | ⟨hk, row, hr, rfl⟩
          · exact hrest k d (hw₁ ▸ hm)
          · rw [hl₁] at hr
            exact ⟨by rw [dataOf, hr]; rfl, habove.head ⟨current, hstored, hk⟩⟩
        · exact ih hl₁ (fun k d hm => hrest k d (hw₁ ▸ hm)) h

/-! ### Runs -/

theorem ApprovalsBacked.voteWalk {data : Pending} {n : Nat} {w : VoteWalk} (hw : WellFormed sp.crypto t.db)
    (hs : Stored sp.crypto t.db block.id block) (hd : dataOf t.db block.id = some data.data)
    (hb : ApprovalsBacked sp.crypto t.db)
    (h : voteWalk sp block n { notProcessed := [(block.id, data)] } t = .ok w t') : ApprovalsBacked sp.crypto t'.db := by
  have hl := (OnlyVotes.voteWalk h).logRecords
  have hdata : DataGrows t.db t'.db := by
    intro x data hx
    rwa [dataOf, hl]
  intro id o ha
  have hstart : ∀ k d, (k, d) ∈ [(block.id, data)] → dataOf t.db k = some d.data ∧ Above sp.crypto t.db k block.id := by
    intro k d hm
    cases List.mem_singleton.mp hm
    exact ⟨hd, .refl⟩
  rcases voteWalk_hasApproved hw rfl hstart h ha with ha | ⟨rfl, hbelow⟩
  · obtain ⟨d, b, hs, hb, hd⟩ := hb id o ha
    exact ⟨d, b, hs.grows hdata, hb, Above.grows hdata hd⟩
  · exact ⟨block.id, block, hs.grows hdata, rfl, Above.grows hdata hbelow⟩

/-- The block whose author votes is stored. -/
def VoterStored (crypto : Crypto) (db : Database) : Phase → Prop
  | .vote block _ => Stored crypto db block.id block
  | .records _ next => VoterStored crypto db next
  | _ => True

theorem VoterStored.grows {crypto : Crypto} {db db' : Database} (hg : DataGrows db db') {phase : Phase}
    (h : VoterStored crypto db phase) : VoterStored crypto db' phase := by
  induction phase with
  | vote => exact Stored.grows hg h
  | records _ _ ih => exact ih h
  | idle | loop | confirm | followers | rollback | retry => trivial

theorem Step.voterStored {c c' : Config} (hstep : Step sp c c') (h : c.Shown sp.crypto)
    (hv : VoterStored sp.crypto c.t.db c.phase) : VoterStored sp.crypto c'.t.db c'.phase := by
  have hg : DataGrows c.t.db c'.t.db := hstep.dataGrows
  cases hstep with
  | judge parses =>
    obtain ⟨rfl, hs⟩ := Entries.stored h.shown h.wellFormed (List.mem_cons_self ..) parses
    exact hs.grows hg
  | records => exact VoterStored.grows hg hv
  | tick | store | start | pass | reprocessed | finish | wait | elect | propose | confirm | confirmInvalid | confirmed
  | follow | rollback | undo | rolledBack | skip | again | retried => trivial

theorem Step.approvalsBacked {c c' : Config} (hstep : Step sp c c') (h : c.Shown sp.crypto)
    (hv : VoterStored sp.crypto c.t.db c.phase) (hb : ApprovalsBacked sp.crypto c.t.db) :
    ApprovalsBacked sp.crypto c'.t.db := by
  rcases hstep.votes with hv | ⟨block, s, t, t', hj, ht, ht'⟩ | ⟨block, data, n, w, t', hphase, ht', hwalk⟩
  · exact hb.grows hstep.dataGrows fun _ _ => (hasApproved_congr hv).mp
  · refine hb.grows hstep.dataGrows fun id o ha => ?_
    exact (hasApproved_congr ht).mp (hj.hasApproved ((hasApproved_congr ht').mp ha))
  · have hs := h.shown
    rw [hphase] at hs hv
    rw [ht']
    exact hb.voteWalk h.wellFormed hv hs.2 hwalk

/-- In every run each approval is backed by a stored block of the voter, whatever was rolled back. -/
theorem approvals_backed {blocks : List ConstDataBuffer} {journal : List Event} {db : Database}
    (h : Run sp {} blocks journal db) : ApprovalsBacked sp.crypto db := by
  have hstart : ApprovalsBacked sp.crypto {} := by
    rintro id o ⟨row, hr, -⟩
    cases hr
  obtain ⟨c, rfl, -, -, hb⟩ := Run.induct
    (I := fun c => VoterStored sp.crypto c.t.db c.phase ∧ ApprovalsBacked sp.crypto c.t.db) ⟨trivial, hstart⟩
    (fun _ _ hs hI hstep => ⟨hstep.voterStored hs hI.1, hstep.approvalsBacked hs hI.1 hI.2⟩) h
  exact hb

theorem approvals_backed_fork : ∃ journal db, Run sampleProvider {} forkBlocks.reverse journal db ∧
    HasApproved db (sampleId 3) (sampleNode 1) ∧ ApprovalsBacked sampleProvider.crypto db := by
  have hs : (saveAll sampleProvider 9 forkBlocks { db := {} }).any (fun t =>
      HasApproved t.db (sampleId 3) (sampleNode 1)) = true := by
    decide +kernel
  obtain ⟨t, ht, ha⟩ := (Option.any_eq_true ..).mp hs
  have hrun := Run.saveAll (t := { db := {} }) .refl ht
  rw [List.append_nil] at hrun
  exact ⟨_, _, hrun, of_decide_eq_true ha, approvals_backed hrun⟩

end Vds.LogSync

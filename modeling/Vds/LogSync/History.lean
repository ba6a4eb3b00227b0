import Vds.LogSync.DagSteps
import Vds.LogSync.Inverse

/-! The log is append only: no call of `save`, whatever it rolls back, takes a block, a confirmation,
a voter or an approval away. -/

namespace Vds.LogSync

open StateError Dbo Table

variable {sp : ServiceProvider} {block : TransactionBlock} {t t' : DatabaseTransaction}

/-! ### What may change in a row -/

/-- A record keeps its block, and a confirmed one stays confirmed. -/
structure RecordGrows (row row' : LogRecord) : Prop where
  core : row'.core = row.core
  consensus : row.consensus = true → row'.consensus = true

instance : Std.Refl RecordGrows := ⟨fun _ => ⟨rfl, id⟩⟩

instance : IsTrans LogRecord RecordGrows :=
  ⟨fun _ _ _ h h' => ⟨h'.core.trans h.core, fun hc => h'.consensus (h.consensus hc)⟩⟩

/-- A voter stays as new as it was, and its approval stays. -/
structure VoteGrows (row row' : VoteRequest) : Prop where
  newMember : row'.newMember = row.newMember
  approved : row.approved = true → row'.approved = true

instance : Std.Refl VoteGrows := ⟨fun _ => ⟨rfl, id⟩⟩

instance : IsTrans VoteRequest VoteGrows :=
  ⟨fun _ _ _ h h' => ⟨h'.newMember.trans h.newMember, fun ha => h'.approved (h.approved ha)⟩⟩

/-- All that the log has taken over is still there. -/
structure Extends (db db' : Database) : Prop where
  records : Kept RecordGrows db.logRecords db'.logRecords
  hierarchy : ∀ k, (db.logHierarchy.lookup k).isSome → (db'.logHierarchy.lookup k).isSome
  votes : Kept VoteGrows db.voteRequests db'.voteRequests

theorem Extends.refl (db : Database) : Extends db db := ⟨Kept.refl _, fun _ h => h, Kept.refl _⟩

theorem Extends.trans {db db' db'' : Database} (h : Extends db db') (h' : Extends db' db'') : Extends db db'' :=
  ⟨h.records.trans h'.records, fun k hk => h'.hierarchy k (h.hierarchy k hk), h.votes.trans h'.votes⟩

/-! ### The records -/

/-- What is confirmed stays so. -/
def Confirms (db db' : Database) : Prop := ∀ x, consensusOf db x = true → consensusOf db' x = true

theorem Confirms.of_eq {db db' : Database} (h : ∀ x, consensusOf db' x = consensusOf db x) : Confirms db db' :=
  fun x hx => (h x).trans hx

instance : Std.Refl fun t t' : DatabaseTransaction => Confirms t.db t'.db := ⟨fun _ _ h => h⟩

instance : IsTrans DatabaseTransaction fun t t' => Confirms t.db t'.db := ⟨fun _ _ _ h h' x hx => h' x (h x hx)⟩

theorem confirms_setState (id : ConstDataBuffer) (s : RecordState) (t : DatabaseTransaction) :
    Confirms t.db (setState id s t).db := Confirms.of_eq fun x => consensusOf_update t.db id x s

theorem confirms_setConsensus (id : ConstDataBuffer) (t : DatabaseTransaction) :
    Confirms t.db (setConsensus id t).db := by
  intro x hx
  unfold consensusOf setConsensus at *
  rw [Table.lookup_update_eq]
  split_ifs with he
  · subst he
    cases hr : t.db.logRecords.lookup x with
    | none =>
      rw [hr] at hx
      cases hx
    | some row => rfl
  · exact hx

theorem confirms_insertBlock {data : ConstDataBuffer} {u : Unit} (h : insertBlock block data t = .ok u t') :
    Confirms t.db t'.db := by
  intro x hx
  have hne : x ≠ block.id := by
    rintro rfl
    rw [consensusOf, not_stored_of_insertBlock h] at hx
    cases hx
  rwa [consensusOf, lookup_of_insertBlock h, if_neg hne]

theorem confirms_invalidBlock {n : Nat} {id : ConstDataBuffer} {value : Bool} {u : Unit}
    (h : invalidBlock n id value t = .ok u t') : Confirms t.db t'.db :=
  invalidBlock_induct (I := fun s => Confirms t.db s.db) h (confirms_setState _ _ t)
    fun s x hI _ => trans_of (fun t t' : DatabaseTransaction => Confirms t.db t'.db) hI (confirms_setState x _ s)

theorem Step.confirms {c c' : Config} (h : Step sp c c') : Confirms c.t.db c'.t.db := by
  cases h with
  | tick | start | pass | reprocessed | finish | confirmed | rollback | rolledBack | skip | retried =>
    exact fun _ h => h
  | store _ inserted => exact confirms_insertBlock inserted
  | wait _ waits =>
    obtain ⟨-, rfl, -⟩ := (processBlock_eq_ok waits).resolve_right fun h => by
      rcases h.2.state_eq with h | h <;> cases h
    exact fun _ h => h
  | judge _ judged verdict =>
    obtain ⟨-, hj⟩ := (processBlock_eq_ok judged).resolve_left fun h => verdict h.1
    exact Confirms.of_eq hj.consensusOf
  | elect walk | propose walk => exact Confirms.of_eq (consensusOf_of_eq (OnlyVotes.voteWalk walk).logRecords)
  | confirm | confirmInvalid => exact confirms_setConsensus _ _
  | records _ done => exact Confirms.of_eq (consensusOf_of_eq (consensusRecords_keeps done).1)
  | @follow t t' _ _ _ _ _ data n fs found pushed =>
    by_cases hs : data.state = .leaf
    · rw [hs] at pushed
      obtain ⟨rfl, -⟩ := pushFollowers_leaf pushed
      exact fun _ h => h
    · exact (pushFollowers_induct (I := fun s => Confirms t.db s.db) hs pushed (fun _ h => h) fun s x hI _ =>
        trans_of (fun t t' : DatabaseTransaction => Confirms t.db t'.db) hI (confirms_setState x _ s)).2
  | @undo t t₁ _ _ _ _ _ _ _ _ _ _ _ block _ undone ancestors =>
    intro x hx
    rw [(rollbackAncestors_eq_ok ancestors).consensus]
    refine confirms_setState _ _ _ x ?_
    rwa [consensusOf_of_eq (undoRecords_keeps undone).1]
  | again _ _ cleared judged =>
    obtain ⟨-, hj⟩ := (processBlock_eq_ok judged).resolve_left fun h => nomatch h.1
    intro x hx
    rw [hj.consensusOf]
    exact confirms_invalidBlock cleared x hx

/-! ### The votes -/

theorem votes_of_undoRecords {u : Unit} (h : undoRecords sp block t = .ok u t') :
    t'.db.voteRequests = t.db.voteRequests := by
  obtain ⟨ms, -, hu⟩ := undoRecords_eq_ok h
  exact (undoAll_rest hu).2.2.1

theorem kept_of_processRecords {b : Bool} (h : processRecords sp block t = .ok b t') :
    Kept VoteGrows t.db.voteRequests t'.db.voteRequests := by
  cases b with
  | true =>
    obtain ⟨ms, -, ha⟩ := processRecords_eq_ok_true.mp h
    exact Kept.of_old fun _ _ => AppliesTo.votes_grow ha
  | false =>
    obtain ⟨ms, t₁, ha, hu⟩ := processRecords_eq_ok_false h
    rw [(undoAll_rest hu).2.2.1]
    exact Kept.of_old fun _ _ => AppliesTo.votes_grow ha

theorem Inherited.kept {db : Database} {votes : Table (ConstDataBuffer × ConstDataBuffer) VoteRequest}
    (h : Inherited block db votes) : Kept VoteGrows db.voteRequests votes := by
  refine Kept.of_old fun k v hk => ?_
  obtain ⟨id, o⟩ := k
  rw [h id o, if_neg, hk]
  rintro ⟨-, hn, -⟩
  exact hn (hasVote_iff.mpr ⟨v, hk⟩)

theorem Judged.kept {s : RecordState} (h : Judged sp block t s t') :
    Kept VoteGrows t.db.voteRequests t'.db.voteRequests := by
  cases h with
  | applied _ votes_eq records => exact votes_eq.kept.trans (kept_of_processRecords records)
  | refused _ votes_eq records => exact votes_eq.kept.trans (kept_of_processRecords records)
  | rejected _ votes_eq => exact votes_eq.kept

/-- The votes are still there. -/
def VotesKept (t t' : DatabaseTransaction) : Prop := Kept VoteGrows t.db.voteRequests t'.db.voteRequests

instance : Std.Refl VotesKept := ⟨fun _ => Kept.refl _⟩

instance : IsTrans DatabaseTransaction VotesKept := ⟨fun _ _ _ h h' => Kept.trans h h'⟩

theorem votesKept_insert (k : ConstDataBuffer × ConstDataBuffer) (v : VoteRequest) :
    Moves VotesKept (Orm.transactionLogVoteRequest.insert k v) := by
  intro t
  cases hk : t.db.voteRequests.lookup k with
  | none =>
    rw [insert_of_none Orm.transactionLogVoteRequest t v hk]
    exact kept_insert v hk
  | some old =>
    rw [insert_of_some Orm.transactionLogVoteRequest t v hk]
    exact refl_of VotesKept t

theorem votesKept_castVote (block current : TransactionBlock) (consensus : Bool) :
    Moves VotesKept (castVote block current consensus) := by
  refine (moves_find _).bind fun row => ?_
  cases row with
  | none =>
    refine Moves.ite (fun _ => ?_) fun _ => Moves.throw _
    have hevent : Moves VotesKept (record fun db => .newVoter db current.id block.writePublicKeyId) :=
      fun t => refl_of VotesKept t
    exact hevent.bind fun _ => (votesKept_insert _ _).bind fun _ => Moves.pure _
  | some row =>
    refine Moves.ite (fun _ => Moves.pure _) fun _ => ?_
    have hupdate : Moves VotesKept (Orm.transactionLogVoteRequest.update (current.id, block.writePublicKeyId)
        fun row => { row with approved := true }) := fun t => kept_update fun _ _ => ⟨rfl, fun _ => rfl⟩
    exact hupdate.bind fun _ => Moves.pure _

/-- Only the records of the log are written. -/
theorem voteRequests_frames : Orm.transactionLogRecord.Writes
    fun t t' : DatabaseTransaction => t'.db.voteRequests = t.db.voteRequests := fun _ _ => rfl

/-- Votes change by a verdict and by the walk of a vote. -/
theorem Step.votes {c c' : Config} (h : Step sp c c') : c'.t.db.voteRequests = c.t.db.voteRequests ∨
    (∃ block s t t', Judged sp block t s t' ∧ t.db.voteRequests = c.t.db.voteRequests ∧
      c'.t.db.voteRequests = t'.db.voteRequests) ∨
    ∃ block data n w t', c.phase = .vote block data ∧ c'.t.db = t'.db ∧
      voteWalk sp block n { notProcessed := [(block.id, data)] } c.t = .ok w t' := by
  cases h with
  | tick | start | pass | reprocessed | finish | confirmed | rollback | rolledBack | skip | retried | confirm
  | confirmInvalid => exact .inl rfl
  | store _ inserted =>
    exact .inl ((moves_insertBlock (R := fun t t' => t'.db.voteRequests = t.db.voteRequests)
      (fun _ _ => rfl) (fun _ _ => rfl) _ _).ok inserted)
  | wait _ waits =>
    obtain ⟨-, rfl, -⟩ := (processBlock_eq_ok waits).resolve_right fun h => by
      rcases h.2.state_eq with h | h <;> cases h
    exact .inl rfl
  | judge _ judged verdict =>
    obtain ⟨-, hj⟩ := (processBlock_eq_ok judged).resolve_left fun h => verdict h.1
    exact .inr (.inl ⟨_, _, _, _, hj, rfl, rfl⟩)
  | elect walk => exact .inr (.inr ⟨_, _, _, _, _, rfl, rfl, walk⟩)
  | @propose _ t' _ _ _ block data n w walk => exact .inr (.inr ⟨block, data, n, w, t', rfl, rfl, walk⟩)
  | records _ done =>
    exact .inl ((moves_consensusRecords (R := fun t t' => t'.db.voteRequests = t.db.voteRequests)
      (fun _ _ => rfl) _ fun _ => rfl).ok done)
  | follow _ pushed => exact .inl ((moves_pushFollowers voteRequests_frames _ _ _ _ _).ok pushed)
  | @undo t t₁ t' _ _ _ _ _ _ _ _ _ _ block _ undone ancestors =>
    have hback : t'.db.voteRequests = (setState block.id .validated t₁).db.voteRequests :=
      (moves_rollbackAncestors voteRequests_frames _ _ _).ok ancestors
    have hundone : t₁.db.voteRequests = t.db.voteRequests := votes_of_undoRecords undone
    exact .inl (hback.trans hundone)
  | again _ _ cleared judged =>
    obtain ⟨-, hj⟩ := (processBlock_eq_ok judged).resolve_left fun h => nomatch h.1
    exact .inr (.inl ⟨_, _, _, _, hj, (moves_invalidBlock voteRequests_frames _ _ _).ok cleared, rfl⟩)

theorem Step.votesKept {c c' : Config} (h : Step sp c c') :
    Kept VoteGrows c.t.db.voteRequests c'.t.db.voteRequests := by
  rcases h.votes with hv | ⟨block, s, t, t', hj, ht, ht'⟩ | ⟨block, data, n, w, t', -, ht', hw⟩
  · rw [hv]
    exact Kept.refl _
  · rw [← ht, ht']
    exact hj.kept
  · rw [ht']
    exact (moves_voteWalk_of_castVote (votesKept_castVote block) n _).ok hw

/-! ### Runs -/

theorem Step.extended {c c' : Config} (h : Step sp c c') : Extends c.t.db c'.t.db where
  records := by
    intro x row hr
    have hrow : ∃ row', c'.t.db.logRecords.lookup x = some row' ∧ row'.core = row.core := by
      rcases h.blocks with hb | ⟨data, block, -, inserted⟩
      · exact lookup_of_blocksOf hb hr
      · have hne : x ≠ block.id := by
          rintro rfl
          rw [not_stored_of_insertBlock inserted] at hr
          cases hr
        exact ⟨row, by rw [lookup_of_insertBlock inserted, if_neg hne, hr], rfl⟩
    obtain ⟨row', hr', hcore⟩ := hrow
    refine ⟨row', hr', hcore, fun hc => ?_⟩
    have := h.confirms x (by rw [consensusOf, hr, Option.any_some, hc])
    rwa [consensusOf, hr', Option.any_some] at this
  hierarchy k hk := by
    rcases h.blocks with hb | ⟨data, block, parses, inserted⟩
    · rwa [show c'.t.db.logHierarchy = c.t.db.logHierarchy from congrArg Prod.snd hb]
    · obtain ⟨a, d⟩ := k
      obtain ⟨-, hier, ht, hl⟩ := insertBlock_eq_ok inserted
      rw [ht]
      exact (hl a d).mpr (.inl hk)
  votes := h.votesKept

theorem Steps.extended {c c' : Config} (h : Steps sp c c') : Extends c.t.db c'.t.db := by
  induction h with
  | refl => exact Extends.refl _
  | tail _ hs ih => exact ih.trans hs.extended

/-- Whatever is saved and rolled back, the log only grows. -/
theorem log_append_only {start db : Database} {blocks : List ConstDataBuffer} {journal : List Event}
    (h : Run sp start blocks journal db) : Extends start db := by
  obtain ⟨t, rfl, -, ps, pr, hs⟩ := h.steps
  exact Steps.extended hs

theorem log_append_only_fork : ∃ start blocks journal db, Run sampleProvider start blocks journal db ∧
    (∃ e ∈ journal, e.isRollback = true) ∧ Applied start (sampleId 5) ∧ Extends start db := by
  have hs : (saveAll sampleProvider 9 (forkBlocks.take 5) { db := {} }).any (fun t =>
      Applied t.db (sampleId 5) ∧ (saveAll sampleProvider 9 (forkBlocks.drop 5) { db := t.db }).any fun t' =>
        t'.journal.any Event.isRollback) = true := by
    decide +kernel
  obtain ⟨t, -, ht⟩ := (Option.any_eq_true ..).mp hs
  obtain ⟨h5, ht'⟩ := of_decide_eq_true ht
  obtain ⟨t', hsave, hj⟩ := (Option.any_eq_true ..).mp ht'
  have hrun := Run.saveAll (t := { db := t.db }) .refl hsave
  exact ⟨t.db, _, _, _, hrun, List.any_eq_true.mp hj, h5, log_append_only hrun⟩

/-! ### What stays true of the stored blocks -/

section Grows

variable {crypto : Crypto} {db db' : Database} (hg : DataGrows db db')
include hg

theorem Stored.grows {id : ConstDataBuffer} (h : Stored crypto db id block) : Stored crypto db' id block := by
  obtain ⟨data, hd, hb⟩ := stored_iff.mp h
  exact stored_iff.mpr ⟨data, hg id data hd, hb⟩

theorem IsAncestor.grows {a d : ConstDataBuffer} (h : IsAncestor crypto db a d) : IsAncestor crypto db' a d := by
  obtain ⟨block, hs, ha⟩ := h
  exact ⟨block, hs.grows hg, ha⟩

end Grows

/-- The rule for what every step of the machine keeps, also the steps of a rollback. -/
theorem Run.induct {I : Config → Prop} (h0 : I (.rest {}))
    (hstep : ∀ c c', c.Shown sp.crypto → I c → Step sp c c' → I c') {blocks : List ConstDataBuffer}
    {journal : List Event} {db : Database} (h : Run sp {} blocks journal db) :
    ∃ c : Config, c.t.db = db ∧ c.Shown sp.crypto ∧ I c := by
  obtain ⟨t, rfl, -, ps, pr, hs⟩ := h.steps
  have hrun : ∀ {c c' : Config}, c.Shown sp.crypto → I c → Steps sp c c' → c'.Shown sp.crypto ∧ I c' := by
    intro c c' hc hI hsteps
    induction hsteps with
    | refl => exact ⟨hc, hI⟩
    | tail _ hs ih => exact ⟨ih.1.step hs, hstep _ _ ih.1 ih.2 hs⟩
  exact ⟨_, rfl, hrun (Config.Shown.empty sp.crypto) h0 hs⟩

end Vds.LogSync

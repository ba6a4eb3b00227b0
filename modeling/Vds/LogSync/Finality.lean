import Vds.LogSync.History

/-! Finality: as long as the rollbacks are safe, a confirmed block that is applied stays confirmed and applied,
whatever is saved later. -/

namespace Vds.LogSync

open StateError Dbo

variable {sp : ServiceProvider} {crypto : Crypto} {t t' : DatabaseTransaction}

/-- A rollback undoes no confirmed block. -/
theorem Undone.consensusOf {db : Database} {minOrder : UInt64} {x : ConstDataBuffer}
    (h : Undone crypto db minOrder x) : consensusOf db x = false := by
  cases h with
  | leaf stored _ _ consensus => rw [LogSync.consensusOf, stored, Option.any_some, consensus]
  | ancestor _ _ high =>
    by_contra hc
    obtain ⟨row, hr, hrow⟩ := (Option.any_eq_true ..).mp (Bool.not_eq_false _ ▸ hc)
    exact high ⟨row, hr, .inr hrow⟩

theorem RollbackOf.keepsApplied {start : Database} {w : VoteWalk} {k data x : ConstDataBuffer}
    {rest : List (ConstDataBuffer × ConstDataBuffer)} {processed : List ConstDataBuffer} {walk : RollbackWalk}
    {block : TransactionBlock} {t₁ : DatabaseTransaction}
    (h : RollbackOf crypto start w ⟨(k, data) :: rest, processed⟩ t.db)
    (parses : TransactionBlock.create crypto data = .ok block) (hl : t₁.db.logRecords = t.db.logRecords)
    (hr : Retreated w.minOrder block.ancestors ⟨rest, block.id :: processed⟩ walk (setState block.id .validated t₁) t')
    (hc : consensusOf t.db x = true) (hx : Applied t.db x) : Applied t'.db x := by
  have hstored : Stored crypto start k block :=
    stored_iff.mpr ⟨data, h.data (k, data) (List.mem_cons_self ..), parses⟩
  have hid : block.id = k := h.wellFormed.id_eq hstored
  have hne : x ≠ block.id := by
    rintro rfl
    have hu := (h.pending k (List.mem_cons_self ..)).1.consensusOf
    rw [← hid, ← h.consensus, hc] at hu
    cases hu
  have hst : stateOf (setState block.id .validated t₁).db x = stateOf t.db x := by
    have hupdate := stateOf_update t₁.db block.id x .validated
    rw [if_neg hne] at hupdate
    exact hupdate.trans (by unfold stateOf; rw [hl])
  rcases hr.state x with ⟨hleaf, -⟩ | ⟨hsame, -⟩
  · exact .inr hleaf
  · unfold Applied
    rwa [hsame, hst]

/-- A confirmed block that is applied is so after every step. -/
theorem Config.Inv.keepsApplied {c c' : Config} (h : c.Inv sp.crypto) (hstep : Step sp c c') {x : ConstDataBuffer}
    (hc : consensusOf c.t.db x = true) (hx : Applied c.t.db x) : Applied c'.t.db x := by
  have hw := h.wellFormed
  have hp := h.phase
  have hshape {db db' : Database} (hs : shapeOf db' = shapeOf db) (hx : Applied db x) : Applied db' x :=
    (applied_of_shape hs x).mpr hx
  cases hstep with
  | tick | start | pass | reprocessed | finish | confirmed | rollback | rolledBack | skip | retried => exact hx
  | store _ inserted =>
    unfold Applied
    rw [stateOf_of_insertBlock inserted]
    split_ifs with he
    · subst he
      unfold Applied stateOf at hx
      rw [not_stored_of_insertBlock inserted] at hx
      rcases hx with hx | hx <;> cases hx
    · exact hx
  | wait _ waits =>
    obtain ⟨-, rfl, -⟩ := (processBlock_eq_ok waits).resolve_right fun h => by
      rcases h.2.state_eq with h | h <;> cases h
    exact hx
  | @judge _ _ _ _ _ _ _ block _ parses judged verdict =>
    obtain ⟨-, hj⟩ := (processBlock_eq_ok judged).resolve_left fun h => verdict h.1
    obtain ⟨rfl, -⟩ := hp.2.stored hw (List.mem_cons_self ..) parses
    have hne : x ≠ block.id := by
      rintro rfl
      exact (hp.2.entries _ _ (List.mem_cons_self ..)).2 hx
    exact (hj.applied_iff hne).mpr hx
  | elect walk | propose walk => exact hshape (OnlyVotes.voteWalk walk).shapeOf hx
  | confirm | confirmInvalid => exact hshape (shapeOf_setConsensus _ _) hx
  | records _ done =>
    obtain ⟨hl, hh⟩ := consensusRecords_keeps done
    exact hshape (shapeOf_of_eq hl hh) hx
  | follow found pushed => exact ((PhaseInv.follow_marked hw hp found pushed).applied rfl x).mpr hx
  | undo parses undone ancestors =>
    exact RollbackOf.keepsApplied hp parses (undoRecords_keeps undone).1 (rollbackAncestors_eq_ok ancestors) hc hx
  | again invalid parses cleared judged =>
    obtain ⟨hm, -, -, hn, hj⟩ := PhaseInv.again_judged hw hp invalid parses cleared judged
    have hx₁ := (hm.applied rfl x).mpr hx
    exact (hj.applied_iff fun he => hn (he ▸ hx₁)).mpr hx₁

/-! ### Runs -/

end Vds.LogSync

import Vds.LogSync.DagSteps

/-! What a call of `save` stores: the given block, and nothing else. -/

namespace Vds.LogSync

open StateError Dbo

variable {sp : ServiceProvider} {t t' : DatabaseTransaction}

/-! ### Processing stores nothing -/

/-- The queue ends with a block that is not stored, so it is never worked off. -/
def Stuck (x : ConstDataBuffer) (c : Config) : Prop :=
  (∃ qs, c.queued = qs ++ [[x]]) ∧ c.t.db.logRecords.lookup x = none

theorem Step.stuck {x : ConstDataBuffer} {c c' : Config} (hstep : Step sp c c') (h : Stuck x c) :
    Stuck x c' ∧ blocksOf c'.t.db = blocksOf c.t.db := by
  obtain ⟨⟨qs, hq⟩, hx⟩ := h
  have hne : c.queued ≠ [] := by simp [hq]
  have hb : blocksOf c'.t.db = blocksOf c.t.db := hstep.stores.resolve_right fun h => hne h.1
  have hx' : c'.t.db.logRecords.lookup x = none := by
    by_contra hs
    obtain ⟨row, hr⟩ := Option.ne_none_iff_exists'.mp hs
    obtain ⟨row', hr', -⟩ := lookup_of_blocksOf hb.symm hr
    rw [hx] at hr'
    cases hr'
  refine ⟨⟨?_, hx'⟩, hb⟩
  -- an entry that is taken from the queue is stored, so it is above the last one
  have htake {p : ConstDataBuffer} {fs : List ConstDataBuffer} {qs₁ : List (List ConstDataBuffer)}
      (hq : (p :: fs) :: qs₁ = qs ++ [[x]]) (hp : c.t.db.logRecords.lookup p ≠ none) :
      ∃ qs, fs :: qs₁ = qs ++ [[x]] := by
    cases qs with
    | nil =>
      cases hq
      exact absurd hx hp
    | cons q qs =>
      obtain ⟨-, rfl⟩ := List.cons.inj hq
      exact ⟨fs :: qs, rfl⟩
  cases hstep with
  | store => exact absurd rfl hne
  | start stored | pass stored => exact htake hq (by rw [stored]; exact Option.some_ne_none _)
  | reprocessed =>
    cases qs with
    | nil => cases hq
    | cons q qs =>
      obtain ⟨-, rfl⟩ := List.cons.inj hq
      exact ⟨qs, rfl⟩
  | @retried _ _ _ _ fs => exact ⟨fs :: qs, congrArg (fs :: ·) hq⟩
  | tick | finish | wait | judge | elect | propose | confirm | confirmInvalid | records | confirmed | follow | rollback
  | undo | rolledBack | skip | again => exact ⟨qs, hq⟩

theorem Steps.stuck {x : ConstDataBuffer} {c c' : Config} (hs : Steps sp c c') (h : Stuck x c) :
    Stuck x c' ∧ blocksOf c'.t.db = blocksOf c.t.db := by
  induction hs with
  | refl => exact ⟨h, rfl⟩
  | tail _ hstep ih =>
    obtain ⟨hstuck, hb⟩ := hstep.stuck ih.1
    exact ⟨hstuck, hb.trans ih.2⟩

/-- Some id is not used. -/
theorem exists_not_stored (db : Database) : ∃ x, db.logRecords.lookup x = none := by
  obtain ⟨x, hx⟩ := Infinite.exists_notMem_finset db.logRecords.keys.toFinset
  exact ⟨x, AList.lookup_eq_none.mpr fun hm => hx (List.mem_toFinset.mpr (AList.mem_keys.mp hm))⟩

theorem processBlockWithFollowers_blocks {n : Nat} {p : ConstDataBuffer} {data : Pending} {u : Unit}
    (h : processBlockWithFollowers sp n p data t = .ok u t') : blocksOf t'.db = blocksOf t.db := by
  obtain ⟨x, hx⟩ := exists_not_stored t.db
  have hstart : At sp ⟨t, [[x]], [(p, data)], [], .loop⟩ [[x]] [(p, data)] [] .loop t := .refl
  obtain ⟨ps, pr, hs⟩ := (processBlockWithFollowers_steps n [[x]] p data).ok hstart h
  exact (Steps.stuck hs ⟨⟨[], rfl⟩, hx⟩).2

/-! ### A call of `save` -/

/-- `data` is the block that is stored new under `id`. -/
structure Saves (crypto : Crypto) (data id : ConstDataBuffer) (db db' : Database) : Prop where
  parses : ∃ block, TransactionBlock.create crypto data = .ok block ∧ block.id = id
  fresh : dataOf db id = none
  dataOf : ∀ x, dataOf db' x = if x = id then some data else dataOf db x

theorem save_eq_ok {n : Nat} {data id : ConstDataBuffer} {allowRoot : Bool}
    (h : save sp n data allowRoot t = .ok id t') : Saves sp.crypto data id t.db t'.db := by
  unfold save at h
  rw [getExpected_bind_eq_ok] at h
  obtain ⟨block, hb, h⟩ := h
  split_ifs at h
  · cases h
  obtain ⟨_, t₁, he, h⟩ := bind_eq_ok.mp h
  obtain ⟨_, t₂, hi, h⟩ := bind_eq_ok.mp h
  obtain ⟨_, t₃, hp, h⟩ := bind_eq_ok.mp h
  cases h
  cases he
  refine ⟨⟨block, hb, rfl⟩, ?_, fun x => ?_⟩
  · rw [dataOf, not_stored_of_insertBlock hi, Option.map_none]
  · rw [dataOf_congr (processBlockWithFollowers_blocks hp), dataOf, lookup_of_insertBlock hi]
    split_ifs <;> rfl

/-! ### Runs -/

theorem Run.dataOf_iff {start db : Database} {blocks : List ConstDataBuffer} {journal : List Event}
    (h : Run sp start blocks journal db) (x data : ConstDataBuffer) : dataOf db x = some data ↔
      dataOf start x = some data ∨
        data ∈ blocks ∧ ∃ block, TransactionBlock.create sp.crypto data = .ok block ∧ block.id = x := by
  induction h generalizing x data with
  | refl => simp
  | @step blocks journal db t n data' allowRoot now id run saved ih =>
    obtain ⟨⟨block', hb', rfl⟩, hfresh, hdata⟩ := save_eq_ok saved
    have hparse {block : TransactionBlock} (hb : TransactionBlock.create sp.crypto data' = .ok block) :
        block = block' := Except.ok.inj (hb.symm.trans hb')
    rw [hdata]
    split_ifs with hx
    · subst hx
      constructor
      · intro hd
        cases hd
        exact .inr ⟨List.mem_cons_self .., block', hb', rfl⟩
      · intro hd
        have hold : dataOf db block'.id ≠ some data := by
          rw [show dataOf db block'.id = none from hfresh]
          exact (Option.some_ne_none data).symm
        rcases hd with hd | ⟨hm, block, hb, hid⟩
        · exact absurd ((ih _ _).mpr (.inl hd)) hold
        · rcases List.mem_cons.mp hm with rfl | hm
          · rfl
          · exact absurd ((ih _ _).mpr (.inr ⟨hm, block, hb, hid⟩)) hold
    · rw [show dataOf { db, journal, now : DatabaseTransaction }.db x = dataOf db x from rfl, ih]
      refine or_congr_right ⟨fun h => ⟨List.mem_cons_of_mem _ h.1, h.2⟩, fun h => ⟨?_, h.2⟩⟩
      obtain ⟨hm, block, hb, hid⟩ := h
      refine (List.mem_cons.mp hm).resolve_left ?_
      rintro rfl
      exact hx (hid.symm.trans (congrArg _ (hparse hb)))

/-- A run stores the blocks it was given, each of them once, and nothing else. -/
theorem saved_once {blocks : List ConstDataBuffer} {journal : List Event} {db : Database}
    (h : Run sp {} blocks journal db) : blocks.Nodup ∧ ∀ x data, dataOf db x = some data ↔
      data ∈ blocks ∧ ∃ block, TransactionBlock.create sp.crypto data = .ok block ∧ block.id = x := by
  refine ⟨?_, fun x data => (h.dataOf_iff x data).trans (or_iff_right fun h => (by cases h))⟩
  induction h with
  | refl => exact List.nodup_nil
  | @step blocks journal db t n data allowRoot now id run saved ih =>
    obtain ⟨⟨block, hb, rfl⟩, hfresh, -⟩ := save_eq_ok saved
    refine List.nodup_cons.mpr ⟨fun hm => ?_, ih⟩
    have hstored : dataOf db block.id = some data := (run.dataOf_iff _ _).mpr (.inr ⟨hm, block, hb, rfl⟩)
    rw [show dataOf db block.id = none from hfresh] at hstored
    cases hstored

theorem saved_once_fork : ∃ journal db, Run sampleProvider {} forkBlocks.reverse journal db ∧ forkBlocks.reverse.Nodup ∧
    dataOf db (sampleId 1) = some sampleRoot := by
  have hs : (saveAll sampleProvider 9 forkBlocks { db := {} }).isSome = true := by
    decide +kernel
  obtain ⟨t, ht⟩ := Option.isSome_iff_exists.mp hs
  have hrun := Run.saveAll (t := { db := {} }) .refl ht
  rw [List.append_nil] at hrun
  have hroot : ((TransactionBlock.create sampleProvider.crypto sampleRoot).toOption.any fun block =>
      block.id = sampleId 1) = true := by
    decide +kernel
  obtain ⟨hn, hd⟩ := saved_once hrun
  refine ⟨_, _, hrun, hn, (hd _ _).mpr ⟨?_, ?_⟩⟩
  · exact List.mem_reverse.mpr (List.mem_cons_self ..)
  · cases hb : TransactionBlock.create sampleProvider.crypto sampleRoot with
    | error e =>
      rw [hb] at hroot
      cases hroot
    | ok block =>
      rw [hb] at hroot
      exact ⟨block, rfl, of_decide_eq_true hroot⟩

end Vds.LogSync

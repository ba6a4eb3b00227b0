import Vds.LogSync.Build
import Vds.LogSync.DagInvariant
import Vds.LogSync.Shown

/-! Every step of the machine keeps the invariant of the leaves, and so does every run whose
rollbacks are safe. -/

namespace Vds.LogSync

open StateError Dbo

variable {sp : ServiceProvider} {crypto : Crypto}

/-! ### Votes -/

section Votes

variable {block : TransactionBlock} {data : Pending} {n : Nat} {w : VoteWalk}
  {t t' : DatabaseTransaction}

/-- The walk shows each candidate as it is stored. -/
theorem CandidatesOf.of_voteWalk (hw : WellFormed sp.crypto t.db)
    (hc : Current sp.crypto t.db block data)
    (h : voteWalk sp block n { notProcessed := [(block.id, data)] } t = .ok w t') :
    CandidatesOf t.db w.consensusCandidate := by
  have hwalk : WalkOk (fun k d => dataOf t.db k = some d.data ∧ stateOf t.db k = some d.state) w := by
    refine voteWalk_ok (fun k d b hd hb => ?_) (fun k row hr => ?_) ?_ h
    · exact hw.id_eq (stored_iff.mpr ⟨d.data, hd.1, hb⟩)
    · exact ⟨by rw [dataOf, hr]; rfl, by rw [stateOf, hr]; rfl⟩
    · refine ⟨fun k d hd => ?_, List.nodup_singleton _, by simp, by simp, by simp, by simp⟩
      cases List.mem_singleton.mp hd
      exact ⟨hc.data_eq, hc.state_eq⟩
  exact ⟨hwalk.distinct, fun p hp => (hwalk.candidates p hp).1⟩

end Votes

/-! ### Followers -/

theorem Waiting.marked {s : RecordState} {t t' : DatabaseTransaction}
    {ps : List (ConstDataBuffer × Pending)} (h : Waiting t.db ps) (hs : s.haveState = false)
    (hm : Marked s t t') : Waiting t'.db ps where
  nodup := h.nodup
  entries k d hd := by
    rw [dataOf_congr hm.blocks, hm.applied hs]
    exact h.entries k d hd

theorem Waiting.pushed {db : Database} {pr fs : List ConstDataBuffer}
    {ps ps' : List (ConstDataBuffer × Pending)} (h : Waiting db ps) (hp : Pushed db pr fs ps ps')
    (hf : ∀ f ∈ fs, ¬Applied db f) : Waiting db ps' where
  nodup := hp.nodup h.nodup
  entries k d hd := by
    rcases hp.only k d hd with hd | ⟨hk, -, row, hr, rfl⟩
    · exact h.entries k d hd
    · exact ⟨by rw [dataOf, hr]; rfl, hf k hk⟩

/-- Nothing applied follows the block that has just got its verdict. -/
theorem Current.followers {db : Database} {block : TransactionBlock} {data : Pending}
    (h : Current crypto db block data) (hf : FrontierOf crypto db) {f : ConstDataBuffer}
    (he : IsAncestor crypto db block.id f) : ¬Applied db f := by
  refine Frontier.not_followed hf (fun hp => ?_) he
  have hs := h.state_eq.symm.trans hp
  rcases h.verdict with hv | hv <;> rw [hv] at hs <;> cases hs

section Follow

variable {block : TransactionBlock} {data : Pending} {n : Nat} {pr fs : List ConstDataBuffer}
  {ps ps' : List (ConstDataBuffer × Pending)} {t t' : DatabaseTransaction}
  (hw : WellFormed crypto t.db) (h : PhaseInv crypto t.db ps (.followers block data))
  (found : selectFollowers block.id t = .ok fs t)
  (pushed : pushFollowers n data.state pr fs ps t = .ok ps' t')
include hw h found

theorem PhaseInv.not_applied_followers : ∀ f ∈ fs, ¬Applied t.db f := by
  obtain ⟨hf, -, hcur⟩ := h
  obtain ⟨fs', hfs', hmem⟩ := selectFollowers_apply (t := t) hw block.id
  obtain rfl : fs' = fs := by
    have := hfs'.symm.trans found
    cases this
    rfl
  exact fun f hfm => hcur.followers hf ((hmem f).mp hfm)

include pushed

/-- Pushing the followers marks blocks that are not applied, if any. -/
theorem PhaseInv.follow_marked : Marked .invalid t t' := by
  have hnot := PhaseInv.not_applied_followers hw h found
  rcases h.2.2.verdict with hv | hv
  · rw [hv] at pushed
    obtain ⟨rfl, -⟩ := pushFollowers_leaf pushed
    exact Marked.refl _
  · exact (pushFollowers_invalid (by rw [hv]; decide) pushed hnot).2

theorem PhaseInv.follow : PhaseInv crypto t'.db ps' .loop := by
  have hnot := PhaseInv.not_applied_followers hw h found
  have hm := PhaseInv.follow_marked hw h found pushed
  obtain ⟨hf, hwait, hcur⟩ := h
  refine ⟨hf.marked rfl hm, ?_⟩
  rcases hcur.verdict with hv | hv
  · rw [hv] at pushed
    obtain ⟨rfl, hp⟩ := pushFollowers_leaf pushed
    exact hwait.pushed hp hnot
  · obtain ⟨rfl, -⟩ := pushFollowers_invalid (by rw [hv]; decide) pushed hnot
    exact hwait.marked rfl hm

end Follow

/-! ### Rollback -/

/-- What a rollback undoes has been applied. -/
theorem Undone.applied {db : Database} {minOrder : UInt64} (hf : FrontierOf crypto db)
    {x : ConstDataBuffer} (h : Undone crypto db minOrder x) : Applied db x := by
  induction h with
  | leaf stored state =>
    refine .inr ?_
    rw [stateOf, stored, Option.map_some, state]
  | ancestor _ edge _ ih => exact .inl (Frontier.closed hf _ ih _ edge)

/-- An ancestor where the rollback turns back stays. -/
theorem Undone.not_low {db : Database} {minOrder : UInt64} {x : ConstDataBuffer}
    (h : Undone crypto db minOrder x) (hs : stateOf db x = some .processed) : ¬Low minOrder db x := by
  cases h with
  | leaf stored state =>
    rw [stateOf, stored, Option.map_some, state] at hs
    cases hs
  | ancestor _ _ high => exact high

theorem mem_keys_rollbackLeaves {minOrder : UInt64} {db : Database} {x : ConstDataBuffer}
    {row : LogRecord} (hr : db.logRecords.lookup x = some row) (hs : row.state = .leaf)
    (ho : minOrder.toInt64 ≤ row.orderNo) (hc : row.consensus = false) :
    x ∈ SortedMap.keys (rollbackLeaves minOrder db) := by
  refine (SortedMap.mem_keys_assigns ..).mpr (.inr ⟨(x, row), Table.mem_select.mpr ⟨hr, ?_⟩, rfl⟩)
  simp [hs, ho, hc]

theorem RollbackOf.start {db : Database} {w : VoteWalk} (hw : WellFormed crypto db)
    (hf : FrontierOf crypto db) (hs : SafeRollback crypto db w.minOrder)
    (hc : CandidatesOf db w.consensusCandidate) :
    RollbackOf crypto db w { notProcessed := rollbackLeaves w.minOrder db } db where
  wellFormed := hw
  frontier := hf
  safe := hs
  candidates := hc
  blocks := rfl
  consensus _ := rfl
  nodup := SortedMap.nodup_keys_assigns bufferLess _ _ _ List.nodup_nil
  pending k hk := by
    obtain ⟨d, hd⟩ := SortedMap.mem_keys.mp hk
    obtain ⟨row, hr, -, hst, ho, hcons⟩ := mem_rollbackLeaves hd
    exact ⟨.leaf hr hst ho hcons, List.not_mem_nil⟩
  data e he := by
    obtain ⟨row, hr, hd, -⟩ := mem_rollbackLeaves he
    rw [dataOf, hr, hd, Option.map_some]
  undone := by simp
  boundary := by simp
  other _ _ := rfl
  leaves x row hr hst ho hcons := .inr (mem_keys_rollbackLeaves hr hst ho hcons)
  closed := by simp

section Undo

variable {start : Database} {w : VoteWalk} {k data : ConstDataBuffer}
  {rest : List (ConstDataBuffer × ConstDataBuffer)} {processed : List ConstDataBuffer}
  {walk : RollbackWalk} {block : TransactionBlock} {t t₁ t' : DatabaseTransaction}

theorem RollbackOf.undo (h : RollbackOf crypto start w ⟨(k, data) :: rest, processed⟩ t.db)
    (parses : TransactionBlock.create crypto data = .ok block)
    (hl : t₁.db.logRecords = t.db.logRecords) (hh : t₁.db.logHierarchy = t.db.logHierarchy)
    (hr : Retreated w.minOrder block.ancestors ⟨rest, block.id :: processed⟩ walk
      (setState block.id .validated t₁) t') :
    RollbackOf crypto start w walk t'.db := by
  have hshape := shapeOf_of_eq hl hh
  have hstored : Stored crypto start k block :=
    stored_iff.mpr ⟨data, h.data (k, data) (List.mem_cons_self ..), parses⟩
  obtain rfl : block.id = k := h.wellFormed.id_eq hstored
  have hku := (h.pending block.id (List.mem_cons_self ..)).1
  obtain ⟨hkrest, hnodup⟩ := List.nodup_cons.mp h.nodup
  have hb₂ : blocksOf (setState block.id .validated t₁).db = blocksOf start := by
    have hb := blocksOf_update t₁.db block.id (g := fun row => { row with state := .validated })
      fun _ => rfl
    exact hb.trans ((congrArg Prod.fst hshape).trans h.blocks)
  have hc₂ : ∀ x, consensusOf (setState block.id .validated t₁).db x = consensusOf start x :=
    fun x => (consensusOf_update t₁.db block.id x .validated).trans
      ((consensusOf_of_eq hl x).trans (h.consensus x))
  -- the states before the loop over the ancestors
  have hs₂ : ∀ x, stateOf (setState block.id .validated t₁).db x =
      if x = block.id then (stateOf t.db x).map fun _ => .validated else stateOf t.db x := by
    intro x
    have hx := stateOf_update t₁.db block.id x .validated
    rwa [stateOf_of_shape hshape] at hx
  have hlow : ∀ x, Low w.minOrder (setState block.id .validated t₁).db x ↔ Low w.minOrder start x :=
    low_congr hb₂ hc₂
  have hproc : ∀ x, x ∈ walk.processed ↔ (x = block.id ∨ x ∈ processed) ∨
      x ∈ block.ancestors ∧ x ∉ SortedMap.keys rest ∧ Low w.minOrder start x := by
    intro x
    rw [hr.processed, hlow, List.mem_cons]
  have hpend : ∀ x, x ∈ SortedMap.keys walk.notProcessed ↔ x ∈ SortedMap.keys rest ∨
      x ∈ block.ancestors ∧ ¬(x = block.id ∨ x ∈ processed) ∧ ¬Low w.minOrder start x := by
    intro x
    rw [hr.notProcessed, hlow, List.mem_cons]
  -- where the rollback turns back, it leaves a processed block
  have hturn : ∀ x, x ∈ block.ancestors → x ∉ SortedMap.keys rest → ¬(x = block.id ∨ x ∈ processed) →
      stateOf start x = some .processed := by
    intro x hx hxr hxp
    have hst := hr.applied x hx (fun hm => hxp (List.mem_cons.mp hm)) hxr
    rw [hs₂, if_neg fun he => hxp (.inl he)] at hst
    rwa [← h.other x fun hm => hxp (.inr hm)]
  have hnew : ∀ x, x ∈ walk.processed → Undone crypto start w.minOrder x →
      x = block.id ∨ x ∈ processed := by
    intro x hx hu
    rcases (hproc x).mp hx with hx | ⟨hxa, hxr, hxl⟩
    · exact hx
    · by_contra hnp
      exact hu.not_low (hturn x hxa hxr hnp) hxl
  have hold : ∀ x, x = block.id ∨ x ∈ processed →
      stateOf t'.db x = stateOf (setState block.id .validated t₁).db x := by
    intro x hx
    rcases hr.state x with ⟨-, -, hn⟩ | ⟨hst, -⟩
    · exact absurd (List.mem_cons.mpr hx) hn
    · exact hst
  have hkeep : ∀ x, x ∈ processed → x ≠ block.id → stateOf t'.db x = stateOf t.db x := by
    intro x hx hne
    rw [hold x (.inr hx), hs₂, if_neg hne]
  refine ⟨h.wellFormed, h.frontier, h.safe, h.candidates, hr.blocks.trans hb₂,
    fun x => (hr.consensus x).trans (hc₂ x), hr.nodup hnodup, ?_, ?_, ?_, ?_, ?_, ?_, ?_⟩
  · intro x hx
    rcases (hpend x).mp hx with hx | ⟨hxa, hxp, hxl⟩
    · obtain ⟨hu, hxp⟩ := h.pending x (List.mem_cons_of_mem _ hx)
      refine ⟨hu, fun hxw => ?_⟩
      rcases hnew x hxw hu with rfl | hp
      · exact hkrest hx
      · exact hxp hp
    · refine ⟨.ancestor hku (hstored.isAncestor_iff.mpr hxa) hxl, fun hxw => ?_⟩
      rcases (hproc x).mp hxw with hp | hp
      · exact hxp hp
      · exact hxl hp.2.2
  · intro e he
    rcases hr.data e he with he | he
    · exact h.data e (List.mem_cons_of_mem _ he)
    · rwa [dataOf_congr hb₂] at he
  · intro x hx hu
    by_cases hxk : x = block.id
    · rw [hold x (.inl hxk), hs₂, if_pos hxk]
      have hst : (stateOf t.db x).isSome = true := by
        obtain ⟨row, hrow, -⟩ := hstored
        have hx₂ := hb₂.symm
        obtain ⟨row', hrow', -⟩ := lookup_of_blocksOf h.blocks hrow
        rw [hxk, stateOf, hrow']
        rfl
      obtain ⟨st, hst⟩ := Option.isSome_iff_exists.mp hst
      rw [hst]
      rfl
    · have hxp := (hnew x hx hu).resolve_left hxk
      rw [hkeep x hxp hxk]
      exact h.undone x hxp hu
  · intro x hx hu
    by_cases hp : x = block.id ∨ x ∈ processed
    · have hxk : x ≠ block.id := fun he => hu (he ▸ hku)
      have hxp := hp.resolve_left hxk
      rw [hkeep x hxp hxk]
      exact h.boundary x hxp hu
    · obtain ⟨hxa, -, -⟩ := ((hproc x).mp hx).resolve_left hp
      refine ⟨?_, block.id, hku, hstored.isAncestor_iff.mpr hxa⟩
      rcases hr.state x with ⟨hst, -⟩ | ⟨-, hin⟩
      · exact hst
      · exact absurd (List.mem_cons.mp (hin hx)) hp
  · intro x hx
    have hp : ¬(x = block.id ∨ x ∈ processed) := fun hp => hx ((hproc x).mpr (.inl hp))
    rcases hr.state x with ⟨-, hin, -⟩ | ⟨hst, -⟩
    · exact absurd hin hx
    · rw [hst, hs₂, if_neg fun he => hp (.inl he)]
      exact h.other x fun hm => hp (.inr hm)
  · intro x row hrow hs ho hc
    rcases h.leaves x row hrow hs ho hc with hx | hx
    · exact .inl ((hproc x).mpr (.inl (.inr hx)))
    · rcases List.mem_cons.mp hx with hx | hx
      · exact .inl ((hproc x).mpr (.inl (.inl hx)))
      · exact .inr ((hpend x).mpr (.inl hx))
  · intro d hd hu a ha
    rcases hnew d hd hu with rfl | hp
    · have haa := hstored.isAncestor_iff.mp ha
      by_cases hap : a = block.id ∨ a ∈ processed
      · exact .inl ((hproc a).mpr (.inl hap))
      · by_cases har : a ∈ SortedMap.keys rest
        · exact .inr ((hpend a).mpr (.inl har))
        · by_cases hal : Low w.minOrder start a
          · exact .inl ((hproc a).mpr (.inr ⟨haa, har, hal⟩))
          · exact .inr ((hpend a).mpr (.inr ⟨haa, hap, hal⟩))
    · rcases h.closed d hp hu a ha with ha | ha
      · exact .inl ((hproc a).mpr (.inl (.inr ha)))
      · rcases List.mem_cons.mp ha with ha | ha
        · exact .inl ((hproc a).mpr (.inl (.inl ha)))
        · exact .inr ((hpend a).mpr (.inl ha))

end Undo

section RolledBack

variable {start db : Database} {w : VoteWalk} {processed : List ConstDataBuffer}
  (h : RollbackOf crypto start w ⟨[], processed⟩ db)
include h

/-- The rollback has reached all that it has to undo. -/
theorem RollbackOf.reached {x : ConstDataBuffer} (hu : Undone crypto start w.minOrder x) :
    x ∈ processed := by
  induction hu with
  | leaf stored state order consensus =>
    exact (h.leaves _ _ stored state order consensus).resolve_right List.not_mem_nil
  | ancestor undone edge _ ih => exact (h.closed _ ih undone _ edge).resolve_right List.not_mem_nil

/-- The states after the rollback. -/
theorem RollbackOf.state (x : ConstDataBuffer) :
    Undone crypto start w.minOrder x ∧ stateOf db x = some .validated ∨
      ¬Undone crypto start w.minOrder x ∧
        (∃ d, Undone crypto start w.minOrder d ∧ IsAncestor crypto start x d) ∧
        stateOf db x = some .leaf ∨
      ¬Undone crypto start w.minOrder x ∧
        (¬∃ d, Undone crypto start w.minOrder d ∧ IsAncestor crypto start x d) ∧
        stateOf db x = stateOf start x := by
  by_cases hu : Undone crypto start w.minOrder x
  · exact .inl ⟨hu, h.undone x (h.reached hu) hu⟩
  · refine .inr ?_
    by_cases hp : x ∈ processed
    · obtain ⟨hs, hd⟩ := h.boundary x hp hu
      exact .inl ⟨hu, hd, hs⟩
    · refine .inr ⟨hu, ?_, h.other x hp⟩
      rintro ⟨d, hd, he⟩
      exact hp ((h.closed d (h.reached hd) hd x he).resolve_right List.not_mem_nil)

theorem RollbackOf.frontierOf : FrontierOf crypto db := by
  have hgone : {x | Undone crypto start w.minOrder x} ⊆ processedSet start ∪ leafSet start :=
    fun x hx => Undone.applied h.frontier hx
  have hrem := Frontier.remove h.frontier hgone
    (fun d hd a ha f hf he => h.safe d hd a ha f hf he)
  have hp : processedSet db = (processedSet start \ {x | Undone crypto start w.minOrder x}) \
      {a | ∃ d ∈ {x | Undone crypto start w.minOrder x}, IsAncestor crypto start a d} := by
    ext x
    simp only [processedSet, Set.mem_ofPred_eq, Set.mem_sdiff]
    rcases h.state x with ⟨hu, hs⟩ | ⟨hu, hd, hs⟩ | ⟨hu, hd, hs⟩
    · simp [hs, hu]
    · simp [hs, hu, hd]
    · simp [hs, hu, hd]
  have hl : leafSet db = (leafSet start \ {x | Undone crypto start w.minOrder x}) ∪
      {a | a ∉ {x | Undone crypto start w.minOrder x} ∧
        ∃ d ∈ {x | Undone crypto start w.minOrder x}, IsAncestor crypto start a d} := by
    ext x
    simp only [leafSet, Set.mem_ofPred_eq, Set.mem_sdiff, Set.mem_union]
    rcases h.state x with ⟨hu, hs⟩ | ⟨hu, hd, hs⟩ | ⟨hu, hd, hs⟩
    · simp [hs, hu]
    · simp [hs, hu, hd]
    · simp [hs, hu, hd]
  unfold FrontierOf
  rw [hp, hl]
  exact Frontier.congr hrem fun d _ a => isAncestor_congr h.blocks

theorem RollbackOf.retryOf : RetryOf db w.consensusCandidate where
  distinct := h.candidates.distinct
  stored p hp := by
    obtain ⟨hd, hs⟩ := h.candidates.stored p hp
    refine ⟨by rw [dataOf_congr h.blocks]; exact hd, fun hi => ?_⟩
    rw [hi] at hs
    have hn : ¬Applied start p.id := by
      unfold Applied
      rw [hs]
      rintro (h | h) <;> cases h
    rcases h.state p.id with ⟨hu, -⟩ | ⟨-, ⟨d, hd, he⟩, -⟩ | ⟨-, -, hst⟩
    · exact absurd (hu.applied h.frontier) hn
    · exact absurd (.inl (Frontier.closed h.frontier d (hd.applied h.frontier) _ he)) hn
    · unfold Applied at hn ⊢
      rwa [hst]

end RolledBack

/-! ### The second try -/

section Again

variable {p : Candidate} {todo : List Candidate} {n : Nat} {block : TransactionBlock}
  {ps : List (ConstDataBuffer × Pending)} {t t₁ t' : DatabaseTransaction} {u : Unit}
  (hw : WellFormed sp.crypto t.db) (h : PhaseInv sp.crypto t.db ps (.retry (p :: todo)))
  (invalid : p.state = .invalid) (parses : TransactionBlock.create sp.crypto p.data = .ok block)
  (cleared : invalidBlock n p.id false t = .ok u t₁)
  (judged : processBlock sp block t₁ = .ok .leaf t')
include hw h invalid parses cleared judged

/-- The block and what has waited for it are marked, then the block is applied. -/
theorem PhaseInv.again_judged : Marked .validated t t₁ ∧ block.id = p.id ∧
    Stored sp.crypto t₁.db block.id block ∧ ¬Applied t₁.db block.id ∧ Judged sp block t₁ .leaf t' := by
  obtain ⟨hp, -⟩ := List.forall_mem_cons.mp h.2.stored
  have hm : Marked .validated t t₁ := invalidBlock_eq_ok cleared (hp.2 invalid)
  have hst : Stored sp.crypto t.db p.id block := stored_iff.mpr ⟨p.data, hp.1, parses⟩
  have hid : block.id = p.id := hw.id_eq hst
  obtain ⟨-, hj⟩ := (processBlock_eq_ok judged).resolve_left fun h => nomatch h.1
  exact ⟨hm, hid, hid ▸ hst.of_blocksOf hm.blocks,
    fun ha => hp.2 invalid (hid ▸ (hm.applied rfl _).mp ha), hj⟩

theorem PhaseInv.again : PhaseInv sp.crypto t'.db ps (.records p (.retry todo)) := by
  obtain ⟨hm, hid, hst₁, hn₁, hj⟩ := PhaseInv.again_judged hw h invalid parses cleared judged
  obtain ⟨hf, hr⟩ := h
  obtain ⟨hp, htodo⟩ := List.forall_mem_cons.mp hr.stored
  obtain ⟨hnp, hnd⟩ := List.nodup_cons.mp hr.distinct
  have hb : blocksOf t'.db = blocksOf t.db := hj.blocksOf.trans hm.blocks
  let data : Pending := ⟨p.data, .leaf, false⟩
  have hdata : dataOf t₁.db block.id = some data.data := by
    rw [dataOf_congr hm.blocks, hid]
    exact hp.1
  have hcur := Current.of_judged hst₁ hdata hn₁ hj
  refine ⟨?_, .inr (hid ▸ hcur.state_eq), (hf.marked rfl hm).judged hst₁ hn₁ hj, hnd, ?_⟩
  · rw [dataOf_congr hb]
    exact hp.1
  · intro q hq
    obtain ⟨hqd, hqn⟩ := htodo q hq
    have hne : q.id ≠ block.id := fun he => hnp (List.mem_map.mpr ⟨q, hq, he.trans hid⟩)
    refine ⟨by rw [dataOf_congr hb]; exact hqd, fun hi ha => hqn hi ?_⟩
    exact (hm.applied rfl _).mp ((hj.applied_iff hne).mp ha)

end Again

/-! ### The steps -/

theorem PhaseInv.judge {t t' : DatabaseTransaction} {k : ConstDataBuffer} {data : Pending}
    {rest : List (ConstDataBuffer × Pending)} {block : TransactionBlock} {state : RecordState}
    (hw : WellFormed sp.crypto t.db) (h : PhaseInv sp.crypto t.db ((k, data) :: rest) .loop)
    (parses : TransactionBlock.create sp.crypto data.data = .ok block)
    (hj : Judged sp block (visited block.id rest t) state t') :
    PhaseInv sp.crypto t'.db rest (.vote block { data with state }) := by
  obtain ⟨hf, hwait⟩ := h
  obtain ⟨rfl, hst⟩ := hwait.stored hw (List.mem_cons_self ..) parses
  obtain ⟨hd, hn⟩ := hwait.entries _ data (List.mem_cons_self ..)
  obtain ⟨hk, hnd⟩ := List.nodup_cons.mp hwait.nodup
  have hrest : Waiting t.db rest := ⟨hnd, fun k' d' hm => hwait.entries k' d' (List.mem_cons_of_mem _ hm)⟩
  exact ⟨FrontierOf.judged (t := visited block.id rest t) hf hst hn hj,
    Waiting.judged (t := visited block.id rest t) hrest hj hk,
    Current.of_judged (t := visited block.id rest t) hst hd hn hj⟩

theorem PhaseInv.confirmed {db db' : Database} {ps : List (ConstDataBuffer × Pending)}
    {block : TransactionBlock} {data : Pending} {w : VoteWalk} {p : Candidate} {todo : List Candidate}
    (h : PhaseInv crypto db ps (.confirm block data w (p :: todo))) (hs : shapeOf db' = shapeOf db) :
    PhaseInv crypto db' ps (.confirm block data w todo) :=
  ⟨h.1.of_shape hs, h.2.1.of_shape hs, h.2.2.1.of_shape hs, h.2.2.2.1.of_shape hs,
    fun _ hq => h.2.2.2.2 (List.mem_cons_of_mem p hq)⟩

/-- One step keeps the invariant, if a rollback that it starts is safe. -/
theorem Config.Inv.step {c c' : Config} (hg : AllGood (SafeRollbacks sp.crypto) c'.t)
    (h : c.Inv sp.crypto) (hstep : Step sp c c') : c'.Inv sp.crypto := by
  refine ⟨hstep.wellFormed h.wellFormed, ?_⟩
  have hw := h.wellFormed
  have hp := h.phase
  cases hstep with
  | tick | pass | reprocessed => exact hp
  | confirmed => exact ⟨hp.1, hp.2.1, hp.2.2.1⟩
  | store parses inserted =>
    exact ⟨FrontierOf.insertBlock parses inserted hp,
      Waiting.one (dataOf_of_insertBlock inserted) (not_applied_of_insertBlock inserted)⟩
  | start stored waits =>
    refine ⟨hp, Waiting.one (by rw [dataOf, stored]; rfl) ?_⟩
    unfold Applied stateOf
    rw [stored, Option.map_some, waits]
    rintro (h | h) <;> cases h
  | finish => exact hp.1
  | wait parses waits =>
    obtain ⟨-, rfl, -⟩ := (processBlock_eq_ok waits).resolve_right fun h => by
      rcases h.2.state_eq with h | h <;> cases h
    exact ⟨hp.1, (List.nodup_cons.mp hp.2.nodup).2,
      fun k d hd => hp.2.entries k d (List.mem_cons_of_mem _ hd)⟩
  | judge parses judged verdict =>
    obtain ⟨-, hj⟩ := (processBlock_eq_ok judged).resolve_left fun h => verdict h.1
    exact PhaseInv.judge hw hp parses hj
  | elect walk =>
    have hs := (OnlyVotes.voteWalk walk).shapeOf
    exact ⟨hp.1.of_shape hs, hp.2.1.of_shape hs, hp.2.2.of_shape hs⟩
  | propose walk =>
    have hs := (OnlyVotes.voteWalk walk).shapeOf
    exact ⟨hp.1.of_shape hs, hp.2.1.of_shape hs, hp.2.2.of_shape hs,
      (CandidatesOf.of_voteWalk hw hp.2.2 walk).of_shape hs, fun _ hq => hq⟩
  | @confirm t _ _ _ _ _ _ p _ applied =>
    have hs := shapeOf_setConsensus p.id t
    obtain ⟨hd, hst⟩ := (hp.2.2.2.1.of_shape hs).stored p (hp.2.2.2.2 (List.mem_cons_self ..))
    refine ⟨hd, ?_, hp.confirmed hs⟩
    exact applied.imp (fun e => hst.trans (congrArg some e)) fun e => hst.trans (congrArg some e)
  | @confirmInvalid t _ _ _ _ _ _ p => exact hp.confirmed (shapeOf_setConsensus p.id t)
  | records parses done =>
    obtain ⟨hl, hh⟩ := consensusRecords_keeps done
    exact hp.2.2.of_shape (shapeOf_of_eq hl hh) (consensusOf_of_eq hl)
  | follow found pushed => exact PhaseInv.follow hw hp found pushed
  | rollback invalid =>
    exact RollbackOf.start hw hp.1 (hg _ (List.mem_cons_self ..) _ _ rfl) hp.2.2.2.1
  | undo parses undone ancestors =>
    obtain ⟨hl, hh, -⟩ := undoRecords_keeps undone
    exact hp.undo parses hl hh (rollbackAncestors_eq_ok ancestors)
  | rolledBack => exact ⟨hp.frontierOf, hp.retryOf⟩
  | skip => exact ⟨hp.1, (List.nodup_cons.mp hp.2.distinct).2,
      (List.forall_mem_cons.mp hp.2.stored).2⟩
  | again invalid parses cleared judged => exact PhaseInv.again hw hp invalid parses cleared judged
  | retried => exact hp.1

/-! ### Runs -/

theorem Config.Inv.empty (crypto : Crypto) : (Config.rest {}).Inv crypto where
  wellFormed := WellFormed.empty crypto
  phase := by
    have hp : processedSet {} = ∅ := Set.ext fun x => iff_of_false (fun h => nomatch h) id
    have hl : leafSet {} = ∅ := Set.ext fun x => iff_of_false (fun h => nomatch h) id
    change FrontierOf crypto {}
    unfold FrontierOf
    rw [hp, hl]
    exact Frontier.empty _

/-- After every run whose rollbacks are safe, the leaves are the frontier of the applied blocks. -/
theorem Run.frontierOf {blocks : List ConstDataBuffer} {journal : List Event} {db : Database}
    (h : Run sp {} blocks journal db) (hg : ∀ e ∈ journal, SafeRollbacks sp.crypto e) :
    WellFormed sp.crypto db ∧ FrontierOf sp.crypto db := by
  obtain ⟨t, rfl, rfl, ps, pr, hs⟩ := h.steps
  have := hs.invariant (I := Config.Inv sp.crypto) (Config.Inv.empty sp.crypto)
    (fun _ _ hg hi hs => hi.step hg hs) hg
  exact ⟨this.wellFormed, this.phase⟩

/-- The applied blocks have their ancestors behind them, and the leaves are the last ones. -/
structure LeavesLast (crypto : Crypto) (db : Database) : Prop where
  ancestors : ∀ d, Applied db d → ∀ a, Relation.TransGen (IsAncestor crypto db) a d →
    stateOf db a = some .processed
  leaves : ∀ x, stateOf db x = some .leaf ↔
    Applied db x ∧ ∀ d, IsAncestor crypto db x d → ¬Applied db d

theorem FrontierOf.leavesLast {db : Database} (h : FrontierOf crypto db) : LeavesLast crypto db where
  ancestors _ hd _ ha := Frontier.closed_trans h hd ha
  leaves _ := Frontier.tip_iff h

/-- Blocks 4 and 5 become leaves again when a rollback undoes 6 and 7 above them, one after the
other; 5 stays applied on 4. -/
def forkBlocks : List ConstDataBuffer :=
  [sampleRoot, sampleBlock 2 2 (sampleNode 1) [sampleId 1] [sampleIssue 10],
    sampleBlock 3 3 (sampleNode 2) [sampleId 2] [], sampleBlock 4 2 (sampleNode 1) [sampleId 1] [],
    sampleBlock 5 4 (sampleNode 1) [sampleId 4] [],
    sampleBlock 6 5 (sampleNode 1) [sampleId 3, sampleId 4] [samplePayment 2 60 10],
    sampleBlock 7 5 (sampleNode 2) [sampleId 3] [samplePayment 2 61 10],
    sampleBlock 8 6 (sampleNode 1) [sampleId 7] []]

end Vds.LogSync

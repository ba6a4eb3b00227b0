import Vds.LogSync.DagInvariant
import Vds.LogSync.Build

/-! Two nodes compare their logs: the handler of `transaction_log_state`, what starts the exchange,
and when the replies come to an end. -/

namespace Vds.LogSync

open StateError

structure TransactionLogState where
  leafs : List ConstDataBuffer
  sourceNode : ConstDataBuffer

structure TransactionLogRequest where
  transactionId : ConstDataBuffer
  sourceNode : ConstDataBuffer

inductive SyncMessage
  | state (message : TransactionLogState)
  | request (message : TransactionLogRequest)

/-- A message that is sent when the transaction of its handler is done. -/
structure FinalTask where
  target : ConstDataBuffer
  message : SyncMessage

/-- The ancestors that are neither stored nor wait for ancestors of their own. -/
def selectUnknown : LogM (List ConstDataBuffer) := do
  let t ← get
  let rows ← Orm.transactionLogHierarchy.select fun key _ =>
    (t.db.logHierarchy.select fun key' _ => key'.2 = key.1).isEmpty &&
      (t.db.logRecords.lookup key.1).isNone
  return toSet (rows.map fun row => row.1.1)

def selectLeafs : LogM (List ConstDataBuffer) := do
  let rows ← Orm.transactionLogRecord.select fun _ row => row.state = .leaf
  return rows.map fun row => row.1

/-- The listed ids that are not stored, and those that are `validated`. -/
def lookUp : List ConstDataBuffer → LogM (List ConstDataBuffer × List ConstDataBuffer)
  | [] => return ([], [])
  | p :: leafs => do
    let found ← Orm.transactionLogRecord.find p
    let (requests, validated) ← lookUp leafs
    match found with
    | none => return (p :: requests, validated)
    | some row => return (requests, if row.state = .validated then p :: validated else validated)

variable (sp : ServiceProvider)

def requestOf (target id : ConstDataBuffer) : FinalTask :=
  ⟨target, .request ⟨id, sp.currentNodeId⟩⟩

def stateTo (target : ConstDataBuffer) (leafs : List ConstDataBuffer) : FinalTask :=
  ⟨target, .state ⟨leafs, sp.currentNodeId⟩⟩

/-- `query_unknown_records`, with the neighbors that the client knows. -/
def queryUnknownRecords (neighbors : List ConstDataBuffer) : LogM (List FinalTask) := do
  let recordIds ← selectUnknown
  if recordIds.isEmpty then do
    let currentState ← selectLeafs
    if currentState.isEmpty then return []
    else return neighbors.map fun node => stateTo sp node currentState
  else return recordIds.flatMap fun p => neighbors.map fun node => requestOf sp node p

/-- `sync_local_channels`, which a new session starts. -/
def syncLocalChannels (partnerId : ConstDataBuffer) : LogM (List FinalTask) := do
  let leafs ← selectLeafs
  if leafs.isEmpty then return [] else return [stateTo sp partnerId leafs]

/-- `apply_message` of a `transaction_log_state`. -/
def applyState (message : TransactionLogState) : LogM (Bool × List FinalTask) := do
  let (requests, validated) ← lookUp message.leafs
  if !requests.isEmpty then
    return (true, requests.map (requestOf sp message.sourceNode))
  else if !validated.isEmpty then do
    let recordIds ← selectUnknown
    return (true, recordIds.map (requestOf sp message.sourceNode))
  else do
    let leafs ← selectLeafs
    let currentState := leafs.filter (· ∉ message.leafs)
    if currentState.isEmpty then return (true, [])
    else return (true, [stateTo sp message.sourceNode currentState])

/-! ### What the handler answers -/

variable {sp} {db : Database}

/-- The block is stored, and not in the state in which it waits for its ancestors. -/
def Known (db : Database) (id : ConstDataBuffer) : Prop :=
  ∃ s, stateOf db id = some s ∧ s ≠ .validated

/-- `query_unknown_records` asks for nothing. -/
def NothingMissing (sp : ServiceProvider) (db : Database) : Prop :=
  ∀ neighbors tasks t, queryUnknownRecords sp neighbors { db } = .ok tasks t →
    ∀ task ∈ tasks, ∃ m, task.message = .state m

theorem lookUp_apply (leafs : List ConstDataBuffer) (t : DatabaseTransaction) :
    ∃ requests validated, lookUp leafs t = .ok (requests, validated) t ∧
      (∀ p, p ∈ requests ↔ p ∈ leafs ∧ stateOf t.db p = none) ∧
      ∀ p, p ∈ validated ↔ p ∈ leafs ∧ stateOf t.db p = some .validated := by
  induction leafs with
  | nil => exact ⟨[], [], rfl, by simp, by simp⟩
  | cons a leafs ih =>
    obtain ⟨requests, validated, he, hr, hv⟩ := ih
    unfold lookUp
    rw [Dbo.find_bind, bind_of_ok he]
    cases hrow : t.db.logRecords.lookup a with
    | none =>
      have hst : stateOf t.db a = none := by rw [stateOf, hrow, Option.map_none]
      simp only [Orm.transactionLogRecord_rows, hrow]
      refine ⟨_, _, rfl, fun p => ?_, fun p => ?_⟩
      · rw [List.mem_cons, List.mem_cons, hr]
        constructor
        · rintro (rfl | h)
          · exact ⟨.inl rfl, hst⟩
          · exact ⟨.inr h.1, h.2⟩
        · exact fun h => h.1.imp id fun hp => ⟨hp, h.2⟩
      · rw [hv, List.mem_cons]
        refine ⟨fun h => ⟨.inr h.1, h.2⟩, fun h => ⟨h.1.resolve_left ?_, h.2⟩⟩
        rintro rfl
        cases hst.symm.trans h.2
    | some row =>
      have hst : stateOf t.db a = some row.state := by rw [stateOf, hrow, Option.map_some]
      simp only [Orm.transactionLogRecord_rows, hrow]
      refine ⟨_, _, rfl, fun p => ?_, fun p => ?_⟩
      · rw [hr, List.mem_cons]
        refine ⟨fun h => ⟨.inr h.1, h.2⟩, fun h => ⟨h.1.resolve_left ?_, h.2⟩⟩
        rintro rfl
        cases hst.symm.trans h.2
      · split_ifs with hs
        · rw [List.mem_cons, List.mem_cons, hv]
          constructor
          · rintro (rfl | h)
            · exact ⟨.inl rfl, hst.trans (congrArg some hs)⟩
            · exact ⟨.inr h.1, h.2⟩
          · exact fun h => h.1.imp id fun hp => ⟨hp, h.2⟩
        · rw [hv, List.mem_cons]
          refine ⟨fun h => ⟨.inr h.1, h.2⟩, fun h => ⟨h.1.resolve_left ?_, h.2⟩⟩
          rintro rfl
          exact hs (Option.some.inj (hst.symm.trans h.2))

theorem selectLeafs_apply (t : DatabaseTransaction) :
    ∃ leafs, selectLeafs t = .ok leafs t ∧ ∀ p, p ∈ leafs ↔ p ∈ leafSet t.db := by
  refine ⟨_, rfl, fun p => ?_⟩
  simp only [List.mem_map, leafSet, Set.mem_ofPred_eq, stateOf, Option.map_eq_some_iff]
  constructor
  · rintro ⟨⟨k, row⟩, hm, rfl⟩
    obtain ⟨hl, hs⟩ := Table.mem_select.mp hm
    exact ⟨row, hl, of_decide_eq_true hs⟩
  · rintro ⟨row, hl, hs⟩
    exact ⟨(p, row), Table.mem_select.mpr ⟨hl, decide_eq_true hs⟩, rfl⟩

theorem selectUnknown_apply (t : DatabaseTransaction) :
    ∃ ids, selectUnknown t = .ok ids t := ⟨_, rfl⟩

theorem nothingMissing_iff : NothingMissing sp db ↔ selectUnknown { db } = .ok [] { db } := by
  obtain ⟨ids, he⟩ := selectUnknown_apply { db }
  have hq : ∀ neighbors, queryUnknownRecords sp neighbors { db } =
      (if ids.isEmpty then do
        let currentState ← selectLeafs
        if currentState.isEmpty then return []
        else return neighbors.map fun node => stateTo sp node currentState
      else return ids.flatMap fun p => neighbors.map fun node => requestOf sp node p : LogM _) { db } :=
    fun _ => bind_of_ok he
  rw [he]
  constructor
  · intro h
    have hnil : ids = [] := by
      by_contra hne
      obtain ⟨p, hp⟩ := List.exists_mem_of_ne_nil _ hne
      have hr := hq [[]]
      rw [if_neg (by rwa [List.isEmpty_iff])] at hr
      have hmem : requestOf sp [] p ∈ ids.flatMap fun p => [[]].map fun node => requestOf sp node p :=
        List.mem_flatMap.mpr ⟨p, hp, List.mem_singleton_self _⟩
      obtain ⟨m, hm⟩ := h [[]] _ _ hr _ hmem
      cases hm
    rw [hnil]
  · intro h
    have hnil : ids = [] := by
      cases h
      rfl
    intro neighbors tasks t hr task htask
    rw [hq, hnil, if_pos List.isEmpty_nil] at hr
    obtain ⟨leafs, hl, -⟩ := selectLeafs_apply { db }
    rw [bind_of_ok hl] at hr
    split_ifs at hr
    · cases hr
      cases htask
    · cases hr
      obtain ⟨node, -, rfl⟩ := List.mem_map.mp htask
      exact ⟨_, rfl⟩

/-- What the handler does, read from the states of the listed blocks. -/
inductive Answers (sp : ServiceProvider) (db : Database) (message : TransactionLogState) :
    List FinalTask → Prop
  /-- Listed blocks are asked for. -/
  | requests {ids} (unknown : ∃ p ∈ message.leafs, stateOf db p = none) (some_id : ids ≠ []) :
      Answers sp db message (ids.map (requestOf sp message.sourceNode))
  /-- Something that a listed block may wait for is asked for. -/
  | missing {ids t} (stored : ∀ p ∈ message.leafs, stateOf db p ≠ none)
      (waits : ∃ p ∈ message.leafs, stateOf db p = some .validated)
      (unknown : selectUnknown { db } = .ok ids t) :
      Answers sp db message (ids.map (requestOf sp message.sourceNode))
  /-- The leaves that are not listed are sent back. -/
  | state {leafs} (known : ∀ p ∈ message.leafs, Known db p)
      (mem : ∀ p, p ∈ leafs ↔ p ∈ leafSet db ∧ p ∉ message.leafs) (some_leaf : leafs ≠ []) :
      Answers sp db message [stateTo sp message.sourceNode leafs]
  | silent (known : ∀ p ∈ message.leafs, Known db p) (mem : ∀ p ∈ leafSet db, p ∈ message.leafs) :
      Answers sp db message []

theorem applyState_apply (sp : ServiceProvider) (db : Database) (message : TransactionLogState) :
    ∃ tasks, applyState sp message { db } = .ok (true, tasks) { db } ∧ Answers sp db message tasks := by
  obtain ⟨requests, validated, he, hr, hv⟩ := lookUp_apply message.leafs { db }
  unfold applyState
  rw [bind_of_ok he]
  simp only [Bool.not_eq_true', List.isEmpty_eq_false_iff]
  split_ifs with hreq hval
  · obtain ⟨p, hp⟩ := List.exists_mem_of_ne_nil _ hreq
    exact ⟨_, rfl, .requests ⟨p, (hr p).mp hp⟩ hreq⟩
  · obtain ⟨p, hp⟩ := List.exists_mem_of_ne_nil _ hval
    refine ⟨_, rfl, .missing (fun q hq hn => hreq ?_) ⟨p, (hv p).mp hp⟩ rfl⟩
    exact List.ne_nil_of_mem ((hr q).mpr ⟨hq, hn⟩)
  · have hknown : ∀ p ∈ message.leafs, Known db p := by
      intro p hp
      rw [not_not] at hreq hval
      cases hst : stateOf db p with
      | none =>
        have := (hr p).mpr ⟨hp, hst⟩
        rw [hreq] at this
        cases this
      | some s =>
        refine ⟨s, hst, ?_⟩
        rintro rfl
        have := (hv p).mpr ⟨hp, hst⟩
        rw [hval] at this
        cases this
    obtain ⟨leafs, hl, hmem⟩ := selectLeafs_apply { db }
    rw [bind_of_ok hl]
    have hf : ∀ p, p ∈ leafs.filter (· ∉ message.leafs) ↔ p ∈ leafSet db ∧ p ∉ message.leafs := by
      intro p
      rw [List.mem_filter, hmem, decide_eq_true_iff]
    split_ifs with hnil
    · refine ⟨_, rfl, .silent hknown fun p hp => by_contra fun hn => ?_⟩
      have := (hf p).mpr ⟨hp, hn⟩
      rw [List.isEmpty_iff.mp hnil] at this
      cases this
    · exact ⟨_, rfl, .state hknown hf (by rwa [List.isEmpty_iff] at hnil)⟩

theorem known_of_leaf {p : ConstDataBuffer} (h : p ∈ leafSet db) : Known db p :=
  ⟨.leaf, h, fun he => (by cases he)⟩

/-! ### The replies -/

/-- A `transaction_log_state` on its way. -/
structure Delivery where
  target : ConstDataBuffer
  message : TransactionLogState

/-- The logs of the nodes by their ids. They do not change. -/
abbrev Network := ConstDataBuffer → Option Database

variable {crypto : Crypto} {logs : Network}

/-- The handler of the node that gets `d` sends `d'`. -/
def Replies (crypto : Crypto) (logs : Network) (d d' : Delivery) : Prop :=
  ∃ db tasks t, logs d.target = some db ∧
    applyState ⟨crypto, d.target⟩ d.message { db } = .ok (true, tasks) t ∧
    ⟨d'.target, .state d'.message⟩ ∈ tasks

/-- The chain of replies from `d` on is finite. -/
def ChainEnds (crypto : Crypto) (logs : Network) (d : Delivery) : Prop :=
  Acc (fun next prev => Replies crypto logs prev next) d

theorem Replies.spec {d d' : Delivery} (h : Replies crypto logs d d') :
    ∃ db, logs d.target = some db ∧ d'.target = d.message.sourceNode ∧
      d'.message.sourceNode = d.target ∧ (∀ p ∈ d.message.leafs, Known db p) ∧
      (∀ p, p ∈ d'.message.leafs ↔ p ∈ leafSet db ∧ p ∉ d.message.leafs) ∧
      ∃ p, p ∈ d'.message.leafs := by
  obtain ⟨db, tasks, t, hdb, he, hm⟩ := h
  obtain ⟨tasks', he', ha⟩ := applyState_apply ⟨crypto, d.target⟩ db d.message
  rw [he'] at he
  cases he
  have hno : ∀ ids : List ConstDataBuffer, (⟨d'.target, .state d'.message⟩ : FinalTask) ∉
      ids.map (requestOf ⟨crypto, d.target⟩ d.message.sourceNode) := by
    intro ids hin
    obtain ⟨id, -, hid⟩ := List.mem_map.mp hin
    cases (FinalTask.mk.inj hid).2
  cases ha with
  | requests unknown some_id => exact absurd hm (hno _)
  | missing stored waits unknown => exact absurd hm (hno _)
  | silent known mem => cases hm
  | state known mem some_leaf =>
    obtain ⟨ht, hs⟩ := FinalTask.mk.inj (List.mem_singleton.mp hm)
    have hs := SyncMessage.state.inj hs
    rw [hs]
    exact ⟨db, hdb, ht, rfl, known, mem, List.exists_mem_of_ne_nil _ some_leaf⟩

theorem exists_reply (crypto : Crypto) {d : Delivery} (hdb : logs d.target = some db)
    (hk : ∀ p ∈ d.message.leafs, Known db p) (hp : ∃ p ∈ leafSet db, p ∉ d.message.leafs) :
    ∃ d', Replies crypto logs d d' := by
  obtain ⟨tasks, he, ha⟩ := applyState_apply ⟨crypto, d.target⟩ db d.message
  cases ha with
  | requests unknown some_id =>
    obtain ⟨p, hp, hn⟩ := unknown
    obtain ⟨s, hs, -⟩ := hk p hp
    cases hn.symm.trans hs
  | missing stored waits unknown =>
    obtain ⟨p, hp, hv⟩ := waits
    obtain ⟨s, hs, hne⟩ := hk p hp
    exact absurd (Option.some.inj (hs.symm.trans hv)) hne
  | silent known mem =>
    obtain ⟨p, hp, hn⟩ := hp
    exact absurd (mem p hp) hn
  | state known mem some_leaf =>
    exact ⟨⟨d.message.sourceNode, _⟩, db, _, _, hdb, he, List.mem_singleton_self _⟩

/-- The logs of the receiver and of the sender with which a list of leaves goes in circles: each has
dealt with the leaves of the other, the list leaves out a leaf of the receiver, and a leaf of the
sender is not among those that are left out. -/
structure Circular (db db' : Database) (leafs : List ConstDataBuffer) : Prop where
  listed : ∀ p ∈ leafs, Known db p
  ours : ∀ p ∈ leafSet db, Known db' p
  theirs : ∀ p ∈ leafSet db', Known db p
  unlisted : ∃ p ∈ leafSet db, p ∉ leafs
  back : ∃ p ∈ leafSet db', ¬(p ∈ leafSet db ∧ p ∉ leafs)

/-- The reply goes in circles too. -/
theorem Circular.reply {db' : Database} {leafs leafs' : List ConstDataBuffer}
    (h : Circular db db' leafs) (hm : ∀ p, p ∈ leafs' ↔ p ∈ leafSet db ∧ p ∉ leafs) :
    Circular db' db leafs' where
  listed p hp := h.ours p ((hm p).mp hp).1
  ours := h.theirs
  theirs := h.ours
  unlisted := by
    obtain ⟨p, hp, hn⟩ := h.back
    exact ⟨p, hp, fun hl => hn ((hm p).mp hl)⟩
  back := by
    obtain ⟨p, hp, hn⟩ := h.unlisted
    exact ⟨p, hp, fun hb => hb.2 ((hm p).mpr ⟨hp, hn⟩)⟩

/-- The two nodes of a delivery and their logs go in circles. -/
def GoesInCircles (logs : Network) (d : Delivery) : Prop :=
  ∃ db db', logs d.target = some db ∧ logs d.message.sourceNode = some db' ∧
    Circular db db' d.message.leafs

theorem GoesInCircles.not_chainEnds {d : Delivery} (h : GoesInCircles logs d) :
    ¬ChainEnds crypto logs d := by
  intro hd
  induction hd with
  | intro d _ ih =>
    obtain ⟨db, db', hdb, hdb', hc⟩ := h
    obtain ⟨d', hr⟩ := exists_reply crypto hdb hc.listed hc.unlisted
    obtain ⟨db₁, hdb₁, ht, hs, -, hm, -⟩ := hr.spec
    cases hdb.symm.trans hdb₁
    refine ih d' hr ⟨db', db, ?_, ?_, hc.reply hm⟩
    · rw [ht, hdb']
    · rw [hs, hdb]

/-- Three replies come back to what the first one has been. -/
theorem circular_of_replies {d₀ d₁ d₂ d₃ d₄ : Delivery} (h₁ : Replies crypto logs d₀ d₁)
    (h₂ : Replies crypto logs d₁ d₂) (h₃ : Replies crypto logs d₂ d₃) (h₄ : Replies crypto logs d₃ d₄) :
    GoesInCircles logs d₀ := by
  obtain ⟨db, hdb, ht₁, hs₁, hk₀, hm₁, hne₁⟩ := h₁.spec
  obtain ⟨db', hdb', ht₂, hs₂, hk₁, hm₂, hne₂⟩ := h₂.spec
  obtain ⟨db₂, hdb₂, ht₃, hs₃, hk₂, hm₃, -⟩ := h₃.spec
  obtain ⟨db₃, hdb₃, -, -, hk₃, -, -⟩ := h₄.spec
  rw [ht₂, hs₁, hdb] at hdb₂
  cases hdb₂
  rw [ht₃, hs₂, hdb'] at hdb₃
  cases hdb₃
  rw [ht₁] at hdb'
  refine ⟨db, db', hdb, hdb', hk₀, fun p hp => ?_, fun p hp => ?_, ?_, ?_⟩
  · by_cases hin : p ∈ d₂.message.leafs
    · exact known_of_leaf ((hm₂ p).mp hin).1
    · exact hk₃ p ((hm₃ p).mpr ⟨hp, hin⟩)
  · by_cases hin : p ∈ d₁.message.leafs
    · exact known_of_leaf ((hm₁ p).mp hin).1
    · exact hk₂ p ((hm₂ p).mpr ⟨hp, hin⟩)
  · obtain ⟨p, hp⟩ := hne₁
    exact ⟨p, (hm₁ p).mp hp⟩
  · obtain ⟨p, hp⟩ := hne₂
    exact ⟨p, ((hm₂ p).mp hp).1, fun h => ((hm₂ p).mp hp).2 ((hm₁ p).mpr h)⟩

/-- The chain of replies ends, unless the list goes in circles. -/
theorem chainEnds_iff (crypto : Crypto) (logs : Network) (d : Delivery) :
    ChainEnds crypto logs d ↔ ¬GoesInCircles logs d := by
  constructor
  · exact fun h hc => hc.not_chainEnds h
  · intro h
    refine .intro d fun d₁ h₁ => .intro d₁ fun d₂ h₂ => .intro d₂ fun d₃ h₃ => .intro d₃ fun d₄ h₄ => ?_
    exact absurd (circular_of_replies h₁ h₂ h₃ h₄) h

/-- Two leaves on one block; both nodes have them. -/
def twinBlocks : List ConstDataBuffer :=
  [sampleRoot, sampleBlock 2 2 (sampleNode 1) [sampleId 1] [],
    sampleBlock 3 2 (sampleNode 2) [sampleId 1] []]

/-- A list with one of the leaves never comes to rest. -/
theorem chain_endless : ∃ blocks journal db, Run sampleProvider {} blocks journal db ∧
    ∃ logs d, logs d.target = some db ∧ logs d.message.sourceNode = some db ∧
      d.target ≠ d.message.sourceNode ∧ ¬ChainEnds sampleProvider.crypto logs d := by
  have hs : (saveAll sampleProvider 9 twinBlocks { db := {} }).any (fun t =>
      stateOf t.db (sampleId 2) = some .leaf ∧ stateOf t.db (sampleId 3) = some .leaf) = true := by
    decide +kernel
  obtain ⟨t, ht, hst⟩ := (Option.any_eq_true ..).mp hs
  obtain ⟨h2, h3⟩ := of_decide_eq_true hst
  refine ⟨_, _, _, Run.saveAll (t := { db := {} }) .refl ht, fun _ => some t.db,
    ⟨sampleNode 1, [sampleId 2], sampleNode 2⟩, rfl, rfl, by decide, ?_⟩
  refine GoesInCircles.not_chainEnds ⟨t.db, t.db, rfl, rfl, ?_, ?_, ?_, ?_, ?_⟩
  · intro p hp
    rw [List.mem_singleton.mp hp]
    exact known_of_leaf h2
  · exact fun p hp => known_of_leaf hp
  · exact fun p hp => known_of_leaf hp
  · exact ⟨sampleId 3, h3, by decide⟩
  · exact ⟨sampleId 2, h2, fun h => h.2 (List.mem_singleton_self _)⟩

end Vds.LogSync

import Vds.DhtNetwork.ReplicaStorage
import Vds.LogSync.Build
import Vds.Library.SortedMap
import Vds.Transactions.Messages

/-! The repair of replicas: `sync_process::do_sync`, the scan of `sync_replicas`, and the
`_client::restore_async` it starts. -/

namespace Vds.DhtNetwork.SyncReplicas

open StateError NodeState Transactions

/-- What a scan can end with. -/
inductive ScanError
  | error (e : Error)
  /-- `chunk_restore` fails. -/
  | restore (e : RestoreError)
  /-- A read behind the end of `replicas_hashes`. -/
  | outOfRange
  /-- `sync_replicas_timeout_` overflows. -/
  | overflow

/-- What `final_tasks` send. -/
inductive ReplicaRequest
  | toNode (node replicaHash : ConstDataBuffer)
  | toNear (replicaHash : ConstDataBuffer)

/-- The nodes that have replicas of an object, and which of them. -/
abbrev ReplicaMap := List (ConstDataBuffer × List Int16)

/-- The state of a scan. -/
structure Scan where
  node : NodeState
  finalTasks : List ReplicaRequest := []
  requestedObjects : List ConstDataBuffer := []
  nodes : List (ConstDataBuffer × ReplicaMap) := []
  /-- The hashes of the rows that a `host_block` record was saved for; nothing reads them. -/
  hosted : List ConstDataBuffer := []

abbrev ScanM (α : Type) := EStateM ScanError Scan α

/-- A step on the tables and files of the node. -/
def onNode {α : Type} (x : NodeM α) : ScanM α := fun s =>
  match x s.node with
  | .ok a node => .ok a { s with node }
  | .error e node => .error (.error e) { s with node }

/-- `file::read_all` -/
def readAll (fn : StdString) : NodeM ConstDataBuffer := do
  attempt "Unable to open file"
  let s ← get
  match s.files.lookup fn with
  | some data => return data
  | none => throw (.runtimeError "Unable to open file")

section

variable (sp : ServiceProvider)

/-! ### Restoring an object -/

def pushTask (task : ReplicaRequest) : ScanM Unit :=
  modify fun s => { s with finalTasks := s.finalTasks ++ [task] }

/-- `sync_process::restore_replica` -/
def restoreReplica (replicaHash : ConstDataBuffer) : ScanM Unit := do
  let rows ← onNode (select fun tables =>
    tables.db.chunkReplicaMap.select fun key _ => key.1 = replicaHash)
  let candidates := rows.foldl
    (fun candidates row =>
      if row.1.2 ≠ sp.currentNodeId then SortedMap.emplace bufferLess row.1.2 candidates else candidates)
    []
  if candidates.isEmpty then pushTask (.toNear replicaHash)
  else candidates.forM fun candidate => pushTask (.toNode candidate replicaHash)

/-- What the loop of `restore_async` has found. -/
structure Found where
  replicas : List UInt16 := []
  datas : List ConstDataBuffer := []
  unknownReplicas : List ConstDataBuffer := []

def Found.add (found : Found) (replica : Nat) (data : ConstDataBuffer) : Found :=
  { found with
    replicas := found.replicas ++ [UInt16.ofNat replica]
    datas := found.datas ++ [data] }

/-- The loop ends with enough replicas. -/
def restoreNext (loop : Found → ScanM Found) (found : Found) : ScanM Found :=
  if minHorcrux ≤ found.replicas.length then return found else loop found

/-- The loop of `restore_async`, with so many replicas to go. -/
def restoreLoop (replicasHashes : List ConstDataBuffer) : Nat → Found → ScanM Found
  | 0, found => return found
  | left + 1, found => do
    match replicasHashes[generateHorcrux - (left + 1)]? with
    | none => throw .outOfRange
    | some replicaHash => do
      match ← onNode (select fun tables => findReplica tables replicaHash) with
      | some row => do
        let data ← onNode (readAll (join row.2.localPath row.1.storagePath))
        restoreNext (restoreLoop replicasHashes left) (found.add (generateHorcrux - (left + 1)) data)
      | none =>
        restoreLoop replicasHashes left
          { found with unknownReplicas := found.unknownReplicas ++ [replicaHash] }

/-- `chunk_restore<uint16_t>` for these replicas. -/
def chunkRestore (found : Found) : ScanM ConstDataBuffer :=
  match (ChunkRestore.create (k := minHorcrux) fun i => found.replicas.getD i 0).restore
      fun i => found.datas.getD i [] with
  | .ok data => return data
  | .error e => throw (.restore e)

/-- `_client::restore_async`; the data, if it could be restored. -/
def restoreAsync (replicasHashes : List ConstDataBuffer) : ScanM ConstDataBuffer := do
  let found ← restoreLoop replicasHashes generateHorcrux {}
  if minHorcrux ≤ found.replicas.length then chunkRestore found
  else do
    found.unknownReplicas.forM (restoreReplica sp)
    return []

/-! ### The scan -/

/-- A row of `chunk_replica_data`. -/
abbrev ReplicaRow := ReplicaKey × ChunkReplicaData

/-- `replica_map`: who has which replicas of the object. -/
def replicaMapOf (objectHash : ConstDataBuffer) (db : Database) : ReplicaMap :=
  (db.chunkReplicaData.select fun key _ => key.objectHash = objectHash).foldl
    (fun map row =>
      (db.chunkReplicaMap.select fun key _ => key.1 = row.2.replicaHash).foldl
        (fun map entry => SortedMap.assign bufferLess entry.1.2
          (row.1.replica :: (map.lookup entry.1.2).getD []) map)
        map)
    []

/-- The entry of the object in `nodes`, which is made where it is missing. -/
def nodesOf (objectHash : ConstDataBuffer) : ScanM ReplicaMap := do
  let s ← get
  match s.nodes.lookup objectHash with
  | some map => return map
  | none => do
    let map ← onNode (select fun tables => replicaMapOf objectHash tables.db)
    modify fun s => { s with nodes := SortedMap.assign bufferLess objectHash map s.nodes }
    return map

/-- The nodes that have this replica. -/
def storedAt (map : ReplicaMap) (replica : Int16) : List ConstDataBuffer :=
  (map.filter fun n => n.2.contains replica).map Prod.fst

/-- The replica needs a place, or this node is to have one of them. -/
def isDue (map : ReplicaMap) (replica : Int16) : Bool :=
  (storedAt map replica).isEmpty ||
    map.length < generateHorcrux && !(storedAt map replica).contains sp.currentNodeId

/-- The hashes of the replicas from number 0 on, up to the first gap. -/
def replicasUpTo : List ReplicaRow → List ConstDataBuffer → List ConstDataBuffer
  | [], replicas => replicas
  | row :: rows, replicas =>
    if (replicas.length : Int) = row.1.replica.toInt then
      replicasUpTo rows (replicas ++ [row.2.replicaHash])
    else replicas

/-- The rows of the object, by the number of the replica. -/
def replicasOf (objectHash : ConstDataBuffer) (db : Database) : List ConstDataBuffer :=
  replicasUpTo
    ((db.chunkReplicaData.select fun key _ => key.objectHash = objectHash).mergeSort
      fun a b => a.1.replica ≤ b.1.replica)
    []

/-- An object that no node is known for is restored and stored anew. -/
def restoreObject (objectHash owner : ConstDataBuffer) : ScanM Unit := do
  let s ← get
  if objectHash ∈ s.requestedObjects then return ()
  else do
    modify fun s =>
      { s with requestedObjects := SortedMap.emplace bufferLess objectHash s.requestedObjects }
    let replicas ← onNode (select fun tables => replicasOf objectHash tables.db)
    let result ← restoreAsync sp replicas
    if 0 < result.length then onNode (saveDataObject sp result owner)

/-- `client::save` with a block that has one record. -/
abbrev SaveHostBlock := HostBlockTransaction → NodeM Unit

variable (save : SaveHostBlock)

/-- The body of the loop over the rows. -/
def scanRow (row : ReplicaRow) : ScanM Unit := do
  let map ← nodesOf row.1.objectHash
  if isDue sp map row.1.replica then do
    match ← onNode (select fun tables => findReplica tables row.2.replicaHash) with
    | some _ => do
      onNode (save ⟨row.1.ownerId, row.2.replicaHash⟩)
      modify fun s => { s with hosted := s.hosted ++ [row.2.replicaHash] }
    | none =>
      if (storedAt map row.1.replica).isEmpty then restoreObject sp row.1.objectHash row.1.ownerId
      else (storedAt map row.1.replica).forM fun candidate =>
        pushTask (.toNode candidate row.2.replicaHash)

/-- The rows in the order of the scan; sqlite sorts them before the first one is read. -/
def scanRows (db : Database) : List ReplicaRow :=
  (db.chunkReplicaData.select fun _ _ => true).mergeSort fun a b => a.2.distance ≤ b.2.distance

/-- The scan of `sync_replicas`. -/
def scanReplicas : ScanM Unit := do
  let rows ← onNode (select fun tables => scanRows tables.db)
  rows.forM (scanRow sp save)

/-! ### The calls -/

structure SyncProcess where
  syncReplicasTimeout : Nat := 0

/-- `do_sync`: every call counts, and the one that finds 30 scans. -/
def doSync (process : SyncProcess) (node : NodeState) :
    SyncProcess × EStateM.Result ScanError Scan Unit :=
  if process.syncReplicasTimeout = 2 ^ 31 - 1 then (process, .error .overflow { node })
  else
    let next : SyncProcess := ⟨process.syncReplicasTimeout + 1⟩
    if process.syncReplicasTimeout = 30 then (next, scanReplicas sp save { node })
    else (next, .ok () { node })

/-- A call with the node that it finds. -/
structure SyncCall where
  node : NodeState
  result : EStateM.Result ScanError Scan Unit

/-- The calls of a process, one after another; between them anything can happen to the node. -/
def syncCalls : SyncProcess → List NodeState → List SyncCall
  | _, [] => []
  | process, node :: nodes =>
    let (process, result) := doSync sp save process node
    ⟨node, result⟩ :: syncCalls process nodes

/-! ### The rows of a scan -/

/-- What the scan takes for the nodes of the object. -/
def mapFor (s : Scan) (objectHash : ConstDataBuffer) : ReplicaMap :=
  (s.nodes.lookup objectHash).getD (replicaMapOf objectHash s.node.tables.db)

/-- The replica is due and held here. -/
def Hosts (s : Scan) (row : ReplicaRow) : Prop :=
  isDue sp (mapFor s row.1.objectHash) row.1.replica = true ∧
    (findReplica s.node.tables row.2.replicaHash).isSome

/-- A scan of the node comes to the row in the state `s`. -/
def Turn (node : NodeState) (row : ReplicaRow) (s : Scan) : Prop :=
  ∃ rows s₀ done rest, onNode (select fun tables => scanRows tables.db) { node } = .ok rows s₀ ∧
    rows = done ++ row :: rest ∧ done.forM (scanRow sp save) s₀ = .ok () s

/-! ### Calls -/

/-- The replica is known and held here, and recorded at no node. -/
structure Waits (hash : ConstDataBuffer) (node : NodeState) : Prop where
  known : ∃ key row, node.tables.db.chunkReplicaData.lookup key = some row ∧ row.replicaHash = hash
  held : (findReplica node.tables hash).isSome
  nowhere : ∀ id, node.tables.db.chunkReplicaMap.lookup (hash, id) = none

/-- From the call `i` on the replica waits through 31 calls, which all succeed. -/
def WaitsThrough (calls : List SyncCall) (i : Nat) (hash : ConstDataBuffer) : Prop :=
  ∀ j < 31, ∃ call s, calls[i + j]? = some call ∧ call.result = .ok () s ∧ Waits hash call.node

/-- The call succeeds and saves a record for the replica. -/
def Serves (hash : ConstDataBuffer) (call : SyncCall) : Prop :=
  ∃ s, call.result = .ok () s ∧ hash ∈ s.hosted

/-- The records of the call are for different rows. -/
def OncePerRow (call : SyncCall) : Prop :=
  ∃ rows : List ReplicaRow, (rows.map Prod.fst).Nodup ∧
    (∀ row ∈ rows, call.node.tables.db.chunkReplicaData.lookup row.1 = some row.2) ∧
    (final call.result).hosted = rows.map fun row => row.2.replicaHash

structure KeepsGoing (calls : List SyncCall) : Prop where
  served : ∀ i hash, WaitsThrough calls i hash →
    ∃ j < 31, ∃ call, calls[i + j]? = some call ∧ Serves hash call
  once : ∀ call ∈ calls, OncePerRow call

/-- The 31st call of the process is among the 31, and its scan finds the replica due and held. -/
def Scanned (calls : List SyncCall) (i : Nat) (hash : ConstDataBuffer) : Prop :=
  i ≤ 30 ∧ ∃ call row s, calls[30]? = some call ∧ Turn sp save call.node row s ∧
    row.2.replicaHash = hash ∧ Hosts sp s row

end

/-! ### One row -/

theorem select_eq_ok {α : Type} {f : NodeTables → α} {n n' : NodeState} {a : α}
    (h : select f n = .ok a n') : a = f n.tables ∧ n'.tables = n.tables := by
  unfold select at h
  obtain ⟨u, n₁, hattempt, h⟩ := bind_eq_ok.mp h
  cases h
  unfold attempt at hattempt
  obtain ⟨o, n₂, hnext, hattempt⟩ := bind_eq_ok.mp hattempt
  cases hnext
  cases houtcome : n.outcomes.headD .done with
  | done =>
    rw [houtcome] at hattempt
    cases hattempt
    exact ⟨rfl, rfl⟩
  | refused | torn rest =>
    rw [houtcome] at hattempt
    cases hattempt

theorem onNode_eq_ok {α : Type} {x : NodeM α} {s s' : Scan} {a : α} :
    onNode x s = .ok a s' ↔ ∃ n, x s.node = .ok a n ∧ s' = { s with node := n } := by
  unfold onNode
  cases x s.node with
  | ok b n =>
    constructor
    · intro h
      cases h
      exact ⟨n, rfl, rfl⟩
    · rintro ⟨_, h, rfl⟩
      cases h
      rfl
  | error e n =>
    constructor
    · intro h
      cases h
    · rintro ⟨_, h, -⟩
      cases h

section Frames

variable {sp : ServiceProvider} {save : SaveHostBlock}

/-- Only `scanRow` notes what is hosted. -/
theorem frames_onNode {α : Type} (x : NodeM α) : Frames Scan.hosted (onNode x) := by
  intro s
  unfold onNode
  cases x s.node with
  | ok a n => rfl
  | error e n => rfl

theorem frames_pushTask (task : ReplicaRequest) : Frames Scan.hosted (pushTask task) := fun _ => rfl

theorem frames_restoreReplica (hash : ConstDataBuffer) :
    Frames Scan.hosted (restoreReplica sp hash) := by
  refine (frames_onNode _).bind fun rows => Moves.ite (fun _ => frames_pushTask _) fun _ => ?_
  exact Moves.forM fun candidate _ => frames_pushTask _

theorem frames_restoreLoop (hashes : List ConstDataBuffer) (left : Nat) (found : Found) :
    Frames Scan.hosted (restoreLoop hashes left found) := by
  induction left generalizing found with
  | zero => exact Moves.pure _
  | succ left ih =>
    unfold restoreLoop
    cases hashes[generateHorcrux - (left + 1)]? with
    | none => exact Moves.throw _
    | some hash =>
      refine (frames_onNode _).bind fun row => ?_
      cases row with
      | none => exact ih _
      | some row =>
        exact (frames_onNode _).bind fun data => Moves.ite (fun _ => Moves.pure _) fun _ => ih _

theorem frames_chunkRestore (found : Found) : Frames Scan.hosted (chunkRestore found) := by
  unfold chunkRestore
  cases (ChunkRestore.create (k := minHorcrux) fun i => found.replicas.getD i 0).restore
      fun i => found.datas.getD i [] with
  | ok data => exact Moves.pure _
  | error e => exact Moves.throw _

theorem frames_restoreObject (objectHash owner : ConstDataBuffer) :
    Frames Scan.hosted (restoreObject sp objectHash owner) := by
  refine Moves.get.bind fun s => Moves.ite (fun _ => Moves.pure _) fun _ => ?_
  refine Moves.bind (fun _ => rfl) fun _ => (frames_onNode _).bind fun replicas => ?_
  refine Moves.bind ?_ fun result => Moves.ite (fun _ => frames_onNode _) fun _ => Moves.pure _
  refine (frames_restoreLoop _ _ _).bind fun found =>
    Moves.ite (fun _ => frames_chunkRestore _) fun _ => ?_
  exact Moves.bind (Moves.forM fun hash _ => frames_restoreReplica hash) fun _ => Moves.pure _

theorem nodesOf_eq_ok {objectHash : ConstDataBuffer} {s s' : Scan} {map : ReplicaMap}
    (h : nodesOf objectHash s = .ok map s') : map = mapFor s objectHash ∧
      s'.node.tables = s.node.tables ∧ s'.hosted = s.hosted := by
  unfold nodesOf at h
  obtain ⟨t, s₁, hget, h⟩ := bind_eq_ok.mp h
  cases hget
  cases hlookup : s.nodes.lookup objectHash with
  | some found =>
    rw [hlookup] at h
    cases h
    refine ⟨?_, rfl, rfl⟩
    rw [mapFor, hlookup]
    rfl
  | none =>
    rw [hlookup] at h
    obtain ⟨fresh, s₂, hselect, h⟩ := bind_eq_ok.mp h
    obtain ⟨n, hn, rfl⟩ := onNode_eq_ok.mp hselect
    obtain ⟨rfl, htables⟩ := select_eq_ok hn
    cases h
    refine ⟨?_, htables, rfl⟩
    rw [mapFor, hlookup]
    rfl

theorem frames_nodesOf (objectHash : ConstDataBuffer) : Frames Scan.hosted (nodesOf objectHash) := by
  refine Moves.get.bind fun s => ?_
  cases s.nodes.lookup objectHash with
  | some map => exact Moves.pure _
  | none => exact (frames_onNode _).bind fun map => Moves.bind (fun _ => rfl) fun _ => Moves.pure _

/-- What the scan does with a row that it does not host. -/
theorem frames_other (map : ReplicaMap) (row : ReplicaRow) : Frames Scan.hosted
    (if (storedAt map row.1.replica).isEmpty then restoreObject sp row.1.objectHash row.1.ownerId
      else (storedAt map row.1.replica).forM fun candidate =>
        pushTask (.toNode candidate row.2.replicaHash)) :=
  Moves.ite (fun _ => frames_restoreObject _ _) fun _ => Moves.forM fun _ _ => frames_pushTask _

/-- Of a row the scan hosts its replica, if it is due and held, or nothing. -/
theorem scanRow_cases (row : ReplicaRow) (s : Scan) :
    Hosts sp s row ∧ (final (scanRow sp save row s)).hosted = s.hosted ++ [row.2.replicaHash] ∨
      (final (scanRow sp save row s)).hosted = s.hosted ∧
        ∀ s', scanRow sp save row s = .ok () s' → ¬Hosts sp s row := by
  unfold scanRow
  cases hnodes : nodesOf row.1.objectHash s with
  | error e s₁ =>
    refine .inr ?_
    rw [bind_of_error hnodes]
    exact ⟨(frames_nodesOf _).error hnodes, fun s' h => (by cases h)⟩
  | ok map s₁ =>
    rw [bind_of_ok hnodes]
    obtain ⟨rfl, htables, hhosted⟩ := nodesOf_eq_ok hnodes
    by_cases hdue : isDue sp (mapFor s row.1.objectHash) row.1.replica = true
    · rw [if_pos hdue]
      cases hselect : onNode (select fun tables => findReplica tables row.2.replicaHash) s₁ with
      | error e s₂ =>
        refine .inr ?_
        rw [bind_of_error hselect]
        exact ⟨((frames_onNode _).error hselect).trans hhosted, fun s' h => (by cases h)⟩
      | ok found s₂ =>
        rw [bind_of_ok hselect]
        have hkept := ((frames_onNode _).ok hselect).trans hhosted
        obtain ⟨n, hn, rfl⟩ := onNode_eq_ok.mp hselect
        obtain ⟨hfound, -⟩ := select_eq_ok hn
        rw [htables] at hfound
        cases found with
        | none =>
          refine .inr ⟨Eq.trans ?_ hkept, fun s' _ hhosts => ?_⟩
          · exact frames_other (mapFor s row.1.objectHash) row _
          have hsome := hhosts.2
          rw [← hfound] at hsome
          cases hsome
        | some found =>
          cases hsave : onNode (save ⟨row.1.ownerId, row.2.replicaHash⟩) { s₁ with node := n } with
          | error e s₃ =>
            refine .inr ?_
            simp only
            rw [bind_of_error hsave]
            exact ⟨((frames_onNode _).error hsave).trans hkept, fun s' h => (by cases h)⟩
          | ok u s₃ =>
            refine .inl ⟨⟨hdue, ?_⟩, ?_⟩
            · rw [← hfound]
              rfl
            · simp only
              rw [bind_of_ok hsave, modify_apply, final_ok]
              exact congrArg (· ++ [row.2.replicaHash]) (((frames_onNode _).ok hsave).trans hkept)
    · rw [if_neg hdue]
      exact .inr ⟨hhosted, fun s' _ hhosts => hdue hhosts.1⟩

/-! ### The scan -/

/-- What is hosted are replicas of some of the rows, in their order. -/
theorem hosted_forM (rows : List ReplicaRow) (s : Scan) : ∃ picked : List ReplicaRow,
    picked.Sublist rows ∧ (final (rows.forM (scanRow sp save) s)).hosted =
      s.hosted ++ picked.map fun row => row.2.replicaHash := by
  induction rows generalizing s with
  | nil => exact ⟨[], List.Sublist.slnil, (List.append_nil _).symm⟩
  | cons row rows ih =>
    have hcases : ∃ picked : List ReplicaRow, picked.Sublist [row] ∧
        (final (scanRow sp save row s)).hosted = s.hosted ++ picked.map fun row => row.2.replicaHash := by
      rcases @scanRow_cases sp save row s with ⟨-, h⟩ | ⟨h, -⟩
      · exact ⟨[row], List.Sublist.refl _, h⟩
      · exact ⟨[], List.nil_sublist _, h.trans (List.append_nil _).symm⟩
    obtain ⟨first, hfirst, hrow⟩ := hcases
    change ∃ picked : List ReplicaRow, _ ∧
      (final ((scanRow sp save row >>= fun _ => rows.forM (scanRow sp save)) s)).hosted = _
    cases hstep : scanRow sp save row s with
    | error e s₁ =>
      rw [hstep] at hrow
      rw [bind_of_error hstep]
      exact ⟨first, hfirst.trans (List.singleton_sublist.mpr List.mem_cons_self), hrow⟩
    | ok u s₁ =>
      rw [hstep] at hrow
      obtain ⟨picked, hpicked, hrows⟩ := ih s₁
      rw [bind_of_ok hstep]
      refine ⟨first ++ picked, hfirst.append hpicked, ?_⟩
      rw [hrows, List.map_append, ← List.append_assoc]
      exact congrArg (· ++ picked.map fun row => row.2.replicaHash) hrow

/-- A scan that comes to its end has hosted what was due and held when it came to its row. -/
theorem mem_hosted_forM {rows : List ReplicaRow} {s s' : Scan}
    (h : rows.forM (scanRow sp save) s = .ok () s') (hash : ConstDataBuffer) :
    hash ∈ s'.hosted ↔ hash ∈ s.hosted ∨ ∃ done row rest s₁, rows = done ++ row :: rest ∧
      done.forM (scanRow sp save) s = .ok () s₁ ∧ row.2.replicaHash = hash ∧ Hosts sp s₁ row := by
  induction rows using List.reverseRecOn generalizing s' with
  | nil =>
    cases h
    refine ⟨.inl, ?_⟩
    rintro (hmem | ⟨done, row, rest, s₁, hsplit, -⟩)
    · exact hmem
    · exact absurd hsplit.symm (List.append_ne_nil_of_right_ne_nil _ (List.cons_ne_nil _ _))
  | append_singleton rows row ih =>
    rw [forM_concat] at h
    obtain ⟨u, s₁, hrows, hrow⟩ := bind_eq_ok.mp h
    rw [show (hash ∈ s'.hosted ↔ hash ∈ s₁.hosted ∨ row.2.replicaHash = hash ∧ Hosts sp s₁ row) from ?_,
      ih hrows]
    · constructor
      · rintro ((hmem | ⟨done, row', rest, s₂, rfl, hdone, hhash, hhosts⟩) | ⟨hhash, hhosts⟩)
        · exact .inl hmem
        · exact .inr ⟨done, row', rest ++ [row], s₂, by simp, hdone, hhash, hhosts⟩
        · exact .inr ⟨rows, row, [], s₁, rfl, hrows, hhash, hhosts⟩
      · rintro (hmem | ⟨done, row', rest, s₂, hsplit, hdone, hhash, hhosts⟩)
        · exact .inl (.inl hmem)
        · rcases List.eq_nil_or_concat rest with rfl | ⟨rest, last, rfl⟩
          · obtain ⟨rfl, hlast⟩ := List.append_inj' hsplit rfl
            cases hlast
            cases hrows.symm.trans hdone
            exact .inr ⟨hhash, hhosts⟩
          · refine .inl (.inr ⟨done, row', rest, s₂, ?_, hdone, hhash, hhosts⟩)
            have hsplit' : rows ++ [row] = (done ++ row' :: rest) ++ [last] := by simp [hsplit]
            exact (List.append_inj' hsplit' rfl).1
    · rcases @scanRow_cases sp save row s₁ with ⟨hhosts, hnow⟩ | ⟨hnow, hnot⟩
      · rw [hrow, final_ok] at hnow
        rw [hnow, List.mem_append, List.mem_singleton]
        exact or_congr_right ⟨fun he => ⟨he.symm, hhosts⟩, fun he => he.1.symm⟩
      · have hno := hnot s' hrow
        rw [hrow, final_ok] at hnow
        rw [hnow]
        exact (or_iff_left fun he => hno he.2).symm

theorem frames_scanReplicas_rows {s s₁ : Scan} {rows : List ReplicaRow}
    (h : onNode (select fun tables => scanRows tables.db) s = .ok rows s₁) :
    rows = scanRows s.node.tables.db ∧ s₁.hosted = s.hosted := by
  obtain ⟨n, hn, rfl⟩ := onNode_eq_ok.mp h
  exact ⟨(select_eq_ok hn).1, rfl⟩

theorem mem_scanRows {db : Database} {row : ReplicaRow} :
    row ∈ scanRows db ↔ db.chunkReplicaData.lookup row.1 = some row.2 := by
  unfold scanRows
  rw [List.mem_mergeSort, Table.mem_select]
  exact and_iff_left rfl

theorem nodup_scanRows (db : Database) : ((scanRows db).map Prod.fst).Nodup := by
  refine ((List.mergeSort_perm _ _).map Prod.fst).nodup_iff.mpr ?_
  unfold Table.select
  rw [List.filter_true, List.map_map]
  exact db.chunkReplicaData.nodupKeys

/-- The scan hosts at most one replica for a row. -/
theorem hosted_scanReplicas (node : NodeState) : ∃ rows : List ReplicaRow,
    (rows.map Prod.fst).Nodup ∧
      (∀ row ∈ rows, node.tables.db.chunkReplicaData.lookup row.1 = some row.2) ∧
      (final (scanReplicas sp save { node })).hosted = rows.map fun row => row.2.replicaHash := by
  unfold scanReplicas
  cases hselect : onNode (select fun tables => scanRows tables.db) ({ node } : Scan) with
  | error e s₁ =>
    rw [bind_of_error hselect]
    exact ⟨[], List.nodup_nil, fun row hrow => absurd hrow List.not_mem_nil,
      (frames_onNode _).error hselect⟩
  | ok rows s₁ =>
    obtain ⟨rfl, hhosted⟩ := frames_scanReplicas_rows hselect
    obtain ⟨picked, hpicked, hfinal⟩ := @hosted_forM sp save (scanRows node.tables.db) s₁
    rw [bind_of_ok hselect]
    refine ⟨picked, (nodup_scanRows node.tables.db).sublist (hpicked.map Prod.fst),
      fun row hrow => mem_scanRows.mp (hpicked.subset hrow), ?_⟩
    rw [hfinal, hhosted]
    rfl

/-- The scan hosts the replicas that are due and held when it comes to their rows. -/
theorem mem_hosted_scanReplicas {node : NodeState} {s : Scan}
    (h : scanReplicas sp save { node } = .ok () s) (hash : ConstDataBuffer) :
    hash ∈ s.hosted ↔
      ∃ row s₁, Turn sp save node row s₁ ∧ row.2.replicaHash = hash ∧ Hosts sp s₁ row := by
  unfold scanReplicas at h
  obtain ⟨rows, s₀, hselect, hrows⟩ := bind_eq_ok.mp h
  have hhosted := (frames_scanReplicas_rows hselect).2
  rw [mem_hosted_forM hrows, hhosted]
  constructor
  · rintro (hmem | ⟨done, row, rest, s₁, hsplit, hdone, hhash, hhosts⟩)
    · exact absurd hmem List.not_mem_nil
    · exact ⟨row, s₁, ⟨rows, s₀, done, rest, hselect, hsplit, hdone⟩, hhash, hhosts⟩
  · rintro ⟨row, s₁, ⟨rows', s₀', done, rest, hselect', hsplit, hdone⟩, hhash, hhosts⟩
    cases hselect.symm.trans hselect'
    exact .inr ⟨done, row, rest, s₁, hsplit, hdone, hhash, hhosts⟩

end Frames

/-! ### The calls of a process -/

section Calls

variable (sp : ServiceProvider) (save : SaveHostBlock)

/-- The call number `i` finds `i` counted, or the counter at its end. -/
theorem getElem?_syncCalls (k : Nat) (hk : k ≤ 2 ^ 31 - 1) (nodes : List NodeState) (i : Nat) :
    (syncCalls sp save ⟨k⟩ nodes)[i]? =
      nodes[i]?.map fun node => ⟨node, (doSync sp save ⟨min (k + i) (2 ^ 31 - 1)⟩ node).2⟩ := by
  induction nodes generalizing k i with
  | nil => rfl
  | cons node nodes ih =>
    cases i with
    | zero =>
      rw [Nat.add_zero, Nat.min_eq_left hk]
      rfl
    | succ i =>
      have hnext : (doSync sp save ⟨k⟩ node).1 = ⟨min (k + 1) (2 ^ 31 - 1)⟩ := by
        unfold doSync
        split_ifs with hmax hthirty
        · exact congrArg SyncProcess.mk (by simp only at hmax; omega)
        · exact congrArg SyncProcess.mk (by simp only at hmax ⊢; omega)
        · exact congrArg SyncProcess.mk (by simp only at hmax ⊢; omega)
      change (syncCalls sp save (doSync sp save ⟨k⟩ node).1 nodes)[i]? = _
      rw [hnext, ih _ (Nat.min_le_right _ _)]
      have hsum : min (min (k + 1) (2 ^ 31 - 1) + i) (2 ^ 31 - 1) = min (k + (i + 1)) (2 ^ 31 - 1) := by
        omega
      rw [hsum]
      rfl

variable {sp save}

/-- Only with 30 calls counted there is a scan. -/
theorem doSync_cases (k : Nat) (node : NodeState) :
    k = 30 ∧ (doSync sp save ⟨k⟩ node).2 = scanReplicas sp save { node } ∨
      k ≠ 30 ∧ (final (doSync sp save ⟨k⟩ node).2).hosted = [] := by
  unfold doSync
  split_ifs with hmax hthirty
  · exact .inr ⟨fun h => by simp only [h] at hmax; omega, rfl⟩
  · exact .inl ⟨hthirty, rfl⟩
  · exact .inr ⟨hthirty, rfl⟩

theorem doSync_idle {k : Nat} (hk : k < 2 ^ 31 - 1) (hthirty : k ≠ 30) (node : NodeState) :
    (doSync sp save ⟨k⟩ node).2 = .ok () { node } := by
  unfold doSync
  rw [if_neg hk.ne]
  exact congrArg Prod.snd (if_neg hthirty)

variable {nodes : List NodeState}

theorem mem_syncCalls {call : SyncCall} (h : call ∈ syncCalls sp save {} nodes) :
    ∃ k, call.result = (doSync sp save ⟨k⟩ call.node).2 := by
  obtain ⟨i, hi⟩ := List.mem_iff_getElem?.mp h
  rw [getElem?_syncCalls sp save 0 (by omega)] at hi
  obtain ⟨node, -, rfl⟩ := Option.map_eq_some_iff.mp hi
  exact ⟨_, rfl⟩

theorem once_syncCalls {call : SyncCall} (h : call ∈ syncCalls sp save {} nodes) : OncePerRow call := by
  obtain ⟨k, hk⟩ := mem_syncCalls h
  unfold OncePerRow
  rw [hk]
  rcases @doSync_cases sp save k call.node with ⟨-, hscan⟩ | ⟨-, hhosted⟩
  · rw [hscan]
    exact hosted_scanReplicas call.node
  · exact ⟨[], List.nodup_nil, fun row hrow => absurd hrow List.not_mem_nil, hhosted⟩

/-- Only the call number 30 serves. -/
theorem serves_iff {i : Nat} {call : SyncCall} (hcall : (syncCalls sp save {} nodes)[i]? = some call)
    (hash : ConstDataBuffer) : Serves hash call ↔ i = 30 ∧ ∃ s, call.result = .ok () s ∧
      ∃ row s₁, Turn sp save call.node row s₁ ∧ row.2.replicaHash = hash ∧ Hosts sp s₁ row := by
  rw [getElem?_syncCalls sp save 0 (by omega)] at hcall
  obtain ⟨node, -, rfl⟩ := Option.map_eq_some_iff.mp hcall
  have hcount : min (0 + i) (2 ^ 31 - 1) = 30 ↔ i = 30 := by omega
  unfold Serves
  rcases @doSync_cases sp save (min (0 + i) (2 ^ 31 - 1)) node with ⟨hi, hscan⟩ | ⟨hi, hhosted⟩
  · simp only [hcount.mp hi, true_and]
    exact exists_congr fun s => and_congr_right fun hs => mem_hosted_scanReplicas hs hash
  · constructor
    · rintro ⟨s, hs, hmem⟩
      simp only at hs
      rw [hs, final_ok] at hhosted
      rw [hhosted] at hmem
      exact absurd hmem List.not_mem_nil
    · rintro ⟨rfl, -⟩
      exact absurd rfl hi

/-- A replica that waits is served in time if and only if it waits through the one scan of the process
and is due when the scan comes to it. -/
theorem keepsGoing_iff (sp : ServiceProvider) (save : SaveHostBlock) (nodes : List NodeState) :
    KeepsGoing (syncCalls sp save {} nodes) ↔
      ∀ i hash, WaitsThrough (syncCalls sp save {} nodes) i hash →
        Scanned sp save (syncCalls sp save {} nodes) i hash := by
  constructor
  · intro h i hash hwaits
    obtain ⟨j, hj, call, hcall, hserves⟩ := h.served i hash hwaits
    obtain ⟨hij, s, -, row, s₁, hturn, hhash, hhosts⟩ := (serves_iff hcall hash).mp hserves
    rw [hij] at hcall
    exact ⟨by omega, call, row, s₁, hcall, hturn, hhash, hhosts⟩
  · intro h
    refine ⟨fun i hash hwaits => ?_, fun call hcall => once_syncCalls hcall⟩
    obtain ⟨hi, call, row, s₁, hcall, hturn, hhash, hhosts⟩ := h i hash hwaits
    obtain ⟨call', s, hcall', hresult, -⟩ := hwaits (30 - i) (by omega)
    have hindex : i + (30 - i) = 30 := by omega
    rw [hindex] at hcall'
    cases hcall.symm.trans hcall'
    refine ⟨30 - i, by omega, call, ?_, ?_⟩
    · rw [hindex]
      exact hcall
    · exact (serves_iff hcall hash).mpr ⟨rfl, s, hresult, row, s₁, hturn, hhash, hhosts⟩

end Calls

/-- A node that holds a replica which is recorded nowhere. -/
def waitingNode : NodeState where
  tables :=
    { db := { chunkReplicaData := AList.insert ⟨[1], [2], 0⟩ ⟨[3], 4, 0⟩ ∅ }
      nodeStorages := AList.insert [5] ⟨[0x73], [1], 9, .share⟩ ∅
      localData := AList.insert ([3], [1]) ⟨[5], 4, [0x66], 0⟩ ∅ }

theorem waits_waitingNode : Waits [3] waitingNode where
  known := ⟨⟨[1], [2], 0⟩, ⟨[3], 4, 0⟩, rfl, rfl⟩
  held := rfl
  nowhere _ := rfl

def lateNodes : List NodeState := List.replicate 31 ({} : NodeState) ++ List.replicate 31 waitingNode

theorem getElem?_lateNodes {j : Nat} (hj : j < 31) : lateNodes[31 + j]? = some waitingNode := by
  unfold lateNodes
  rw [List.getElem?_append_right (by rw [List.length_replicate]; omega), List.length_replicate,
    Nat.add_sub_cancel_left, List.getElem?_replicate_of_lt hj]

/-- A replica that appears after the scan waits for good. -/
theorem not_keepsGoing_late :
    ¬KeepsGoing (syncCalls LogSync.sampleProvider (fun _ => pure ()) {} lateNodes) := by
  intro h
  have hcall : ∀ j < 31, (syncCalls LogSync.sampleProvider (fun _ => pure ()) {} lateNodes)[31 + j]? =
      some ⟨waitingNode, .ok () { node := waitingNode }⟩ := by
    intro j hj
    have hcount : min (0 + (31 + j)) (2 ^ 31 - 1) = 31 + j := by omega
    rw [getElem?_syncCalls _ _ 0 (by omega), getElem?_lateNodes hj, hcount]
    exact congrArg (fun r => some (SyncCall.mk waitingNode r))
      (doSync_idle (by omega) (by omega) waitingNode)
  obtain ⟨j, hj, call, hj', hserves⟩ := h.served 31 [3] fun j hj =>
    ⟨_, _, hcall j hj, rfl, waits_waitingNode⟩
  have hlast := ((serves_iff hj' [3]).mp hserves).1
  omega

end Vds.DhtNetwork.SyncReplicas

import Vds.LogSync.Records

/-! The transaction log: a saved block is checked against its ancestors, its messages are
applied, its author votes for it and for all that it follows, and blocks with a majority of
votes are confirmed. The number that the loops count down bounds their rounds. -/

namespace Vds.LogSync

variable (sp : ServiceProvider)

/-- An entry of a worklist: data, state and consensus of the block as they were read. -/
structure Pending where
  data : ConstDataBuffer
  state : RecordState
  consensus : Bool

def toSet (ids : List ConstDataBuffer) : List ConstDataBuffer :=
  ids.foldl (fun s id => SortedMap.emplace bufferLess id s) []

/-- The `follower_id` of the rows of a block. -/
def selectFollowers (id : ConstDataBuffer) : LogM (List ConstDataBuffer) := do
  let rows ← Orm.transactionLogHierarchy.select fun key _ => key.1 = id
  return toSet ((rows.map fun row => row.1.2).filter (· ≠ []))

/-- The owners of the vote rows of a block. -/
def selectOwners (id : ConstDataBuffer) : LogM (List ConstDataBuffer) := do
  let rows ← Orm.transactionLogVoteRequest.select fun key _ => key.1 = id
  return rows.map fun row => row.1.2

def updateState (id : ConstDataBuffer) (state : RecordState) : LogM Unit :=
  Orm.transactionLogRecord.update id fun row => { row with state }

/-! ### Blocks -/

/-- What the loop over the ancestors collects. -/
structure AncestorCheck where
  state : RecordState
  removeLeaf : List ConstDataBuffer
  voteRequests : List ConstDataBuffer

/-- The loop over the ancestors; `none` if the block has to wait for one of them. -/
def checkAncestors (block : TransactionBlock) :
    List ConstDataBuffer → AncestorCheck → LogM (Option AncestorCheck)
  | [], check => return some check
  | ancestor :: ancestors, check => do
    let owners ← selectOwners ancestor
    let check := { check with
      voteRequests := owners.foldl (fun s o => SortedMap.emplace bufferLess o s) check.voteRequests }
    match ← Orm.transactionLogRecord.find ancestor with
    | none => return none
    | some row =>
      -- vds_assert(false) here is empty in a build without exceptions
      if block.orderNo ≤ row.orderNo.toUInt64 ∨ block.timePoint < fromTimeT row.timePoint then
        checkAncestors block ancestors { check with state := .invalid }
      else
        match row.state with
        | .leaf =>
          checkAncestors block ancestors
            { check with removeLeaf := SortedMap.emplace bufferLess ancestor check.removeLeaf }
        | .processed => checkAncestors block ancestors check
        | .validated => return none
        | .invalid => checkAncestors block ancestors { check with state := .invalid }

/-- Writes the verdict on a block; an applied block takes the leaves among its ancestors over. -/
def writeVerdict (id : ConstDataBuffer) (removeLeaf : List ConstDataBuffer) (state : RecordState) :
    LogM RecordState := do
  updateState id state
  if state = .leaf then
    removeLeaf.forM fun p => updateState p .processed
  return state

def processBlock (block : TransactionBlock) : LogM RecordState := do
  match ← checkAncestors block block.ancestors ⟨.leaf, [], []⟩ with
  | none => return .validated
  | some check => do
    let owners ← selectOwners block.id
    (check.voteRequests.filter (· ∉ owners)).forM fun owner =>
      Orm.transactionLogVoteRequest.insert (block.id, owner) { approved := false, newMember := false }
    let isProcessed ← (if check.state = .leaf ∨ check.state = .processed then processRecords sp block
      else pure true : LogM Bool)
    writeVerdict block.id check.removeLeaf (if isProcessed then check.state else .invalid)

/-- Sets the state of a block and, through the followers, of all that depends on it. -/
def invalidBlock : Nat → ConstDataBuffer → Bool → LogM Unit
  | 0, _, _ => throw .outOfFuel
  | n + 1, blockId, value => do
    updateState blockId (if value then .invalid else .validated)
    let followers ← selectFollowers blockId
    followers.forM fun p => do
      match ← Orm.transactionLogRecord.find p with
      | none => throw (.runtimeError "Invalid data")
      | some row =>
        if row.state = .leaf ∨ row.state = .processed ∨ row.consensus then
          throw (.runtimeError "Invalid data")
        else invalidBlock n p value

/-! ### Votes -/

/-- A majority of the voters of a block that are not new members have approved it. -/
def checkConsensus (logId : ConstDataBuffer) : LogM Bool := do
  let voters ← Orm.transactionLogVoteRequest.select fun key row => key.1 = logId && !row.newMember
  if voters.length = 0 then return true
  else do
    let approved ← Orm.transactionLogVoteRequest.select fun key row =>
      key.1 = logId && row.approved && !row.newMember
    return approved.length > voters.length / 2

structure Candidate extends Pending where
  id : ConstDataBuffer

structure VoteWalk where
  notProcessed : List (ConstDataBuffer × Pending)
  processed : List ConstDataBuffer := []
  consensusCandidate : List Candidate := []
  haveInvalidConsensus : Bool := false
  minOrder : UInt64 := 0

/-- Approves `current` for the author of `block`. The result is `new_member` of the vote row,
or `none` if it was approved before. -/
def castVote (block current : TransactionBlock) (consensus : Bool) : LogM (Option Bool) := do
  match ← Orm.transactionLogVoteRequest.find (current.id, block.writePublicKeyId) with
  | none =>
    if consensus then do
      record fun db => .newVoter db current.id block.writePublicKeyId
      Orm.transactionLogVoteRequest.insert (current.id, block.writePublicKeyId)
        { approved := true, newMember := true }
      return some true
    else throw (.runtimeError "Invalid data")
  | some row =>
    if row.approved then return none
    else do
      Orm.transactionLogVoteRequest.update (current.id, block.writePublicKeyId) fun row =>
        { row with approved := true }
      return some row.newMember

def VoteWalk.addCandidate (w : VoteWalk) (current : TransactionBlock) (data : Pending) :
    VoteWalk :=
  { w with
    minOrder := if w.consensusCandidate.isEmpty || current.orderNo < w.minOrder
      then current.orderNo else w.minOrder
    consensusCandidate := { data with id := current.id } :: w.consensusCandidate
    haveInvalidConsensus := w.haveInvalidConsensus || data.state == .invalid }

def pushAncestors : List ConstDataBuffer → VoteWalk → LogM VoteWalk
  | [], w => return w
  | ancestor :: ancestors, w =>
    if ancestor ∈ w.processed ∨ ancestor ∈ SortedMap.keys w.notProcessed then
      pushAncestors ancestors w
    else do
      match ← Orm.transactionLogRecord.find ancestor with
      | none => throw (.runtimeError "Invalid data")
      | some row =>
        pushAncestors ancestors { w with
          notProcessed := SortedMap.assign bufferLess ancestor
            ⟨row.data, row.state, row.consensus⟩ w.notProcessed }

/-- The walk of `update_consensus` from a new block back through its ancestors. -/
def voteWalk (block : TransactionBlock) : Nat → VoteWalk → LogM VoteWalk
  | 0, _ => throw .outOfFuel
  | n + 1, w =>
    match w.notProcessed with
    | [] => return w
    | (_, data) :: rest => do
      let current ← getExpected (TransactionBlock.create sp.crypto data.data)
      let w := { w with notProcessed := rest, processed := current.id :: w.processed }
      match ← castVote block current data.consensus with
      | none => voteWalk block n w
      | some isNew => do
        let consensus ← checkConsensus current.id
        let w := if consensus && !data.consensus then w.addCandidate current data else w
        if (current.writePublicKeyId ≠ block.writePublicKeyId ∨ current.id = block.id) ∧ !isNew then do
          let w ← pushAncestors current.ancestors w
          voteWalk block n w
        else voteWalk block n w

/-- Confirms the candidates in the order of the list. -/
def confirmCandidates (haveInvalidConsensus : Bool) (candidates : List Candidate) : LogM Unit :=
  candidates.forM fun p => do
    Orm.transactionLogRecord.update p.id fun row => { row with consensus := true }
    if p.state = .processed ∨ p.state = .leaf then do
      let block ← getExpected (TransactionBlock.create sp.crypto p.data)
      consensusRecords sp block
    else if !haveInvalidConsensus then throw (.runtimeError "Invalid program")

/-! ### Rollback -/

structure RollbackWalk where
  notProcessed : List (ConstDataBuffer × ConstDataBuffer)
  processed : List ConstDataBuffer := []

def rollbackAncestors (minOrder : UInt64) : List ConstDataBuffer → RollbackWalk → LogM RollbackWalk
  | [], w => return w
  | ancestor :: ancestors, w =>
    if ancestor ∈ w.processed ∨ ancestor ∈ SortedMap.keys w.notProcessed then
      rollbackAncestors minOrder ancestors w
    else do
      match ← Orm.transactionLogRecord.find ancestor with
      | none => throw (.runtimeError "Invalid data")
      | some row =>
        if row.state ≠ .processed then throw (.runtimeError "Invalid data")
        else if row.orderNo.toUInt64 < minOrder ∨ row.consensus then do
          updateState ancestor .leaf
          rollbackAncestors minOrder ancestors { w with processed := ancestor :: w.processed }
        else
          rollbackAncestors minOrder ancestors { w with
            notProcessed := SortedMap.assign bufferLess ancestor row.data w.notProcessed }

def rollbackLoop (minOrder : UInt64) : Nat → RollbackWalk → LogM Unit
  | 0, _ => throw .outOfFuel
  | n + 1, w =>
    match w.notProcessed with
    | [] => return ()
    | (_, data) :: rest => do
      let current ← getExpected (TransactionBlock.create sp.crypto data)
      let w := { w with notProcessed := rest, processed := current.id :: w.processed }
      undoRecords sp current
      updateState current.id .validated
      let w ← rollbackAncestors minOrder current.ancestors w
      rollbackLoop minOrder n w

/-- Undoes the applied blocks from `min_order` on that are not confirmed, leaves first. -/
def rollbackAll (n : Nat) (minOrder : UInt64) : LogM Unit := do
  record fun db => .rollback db minOrder
  let rows ← Orm.transactionLogRecord.select fun _ row =>
    row.state = .leaf && minOrder.toInt64 ≤ row.orderNo && !row.consensus
  rollbackLoop sp minOrder n
    { notProcessed := SortedMap.assigns bufferLess Prod.fst (fun row => row.2.data) rows [] }

/-- The invalid blocks among the candidates get another try after the rollback. -/
def reprocessInvalid (n : Nat) (candidates : List Candidate) : LogM Unit :=
  candidates.forM fun p => do
    let block ← getExpected (TransactionBlock.create sp.crypto p.data)
    if p.state = .invalid then do
      invalidBlock n p.id false
      let state ← processBlock sp block
      if state ≠ .leaf then throw (.runtimeError "Invalid program")
      consensusRecords sp block

/-! ### The loops over the followers -/

/-- `process_block_with_followers`, as a parameter of what calls it again. -/
abbrev ProcessFollowers := ConstDataBuffer → Pending → LogM Unit

/-- The `follower_id` of the rows of the leaves. -/
def selectLeafFollowers : LogM (List ConstDataBuffer) := do
  let t ← get
  let rows ← Orm.transactionLogHierarchy.select fun key _ =>
    (t.db.logRecords.lookup key.1).any fun row => row.state = .leaf
  return toSet ((rows.map fun row => row.1.2).filter (· ≠ []))

/-- The followers of the leaves that wait for their ancestors are processed again. -/
def reprocessFollowers (process : ProcessFollowers) : LogM Unit := do
  record fun db => .reprocess db
  let followers ← selectLeafFollowers
  followers.forM fun p => do
    match ← Orm.transactionLogRecord.find p with
    | none => throw (.runtimeError "Invalid data")
    | some row =>
      if row.state = .validated then process p ⟨row.data, row.state, row.consensus⟩

/-- `false` stops the loop that called it. -/
def updateConsensus (process : ProcessFollowers) (n : Nat) (block : TransactionBlock)
    (data : Pending) : LogM Bool := do
  let w ← voteWalk sp block n { notProcessed := [(block.id, data)] }
  if w.consensusCandidate.isEmpty then return true
  else do
    record fun db => .confirm db (w.consensusCandidate.map (·.id))
    confirmCandidates sp w.haveInvalidConsensus w.consensusCandidate
    if !w.haveInvalidConsensus then return true
    else do
      rollbackAll sp n w.minOrder
      reprocessInvalid sp n w.consensusCandidate
      reprocessFollowers process
      return false

def pushFollowers (n : Nat) (result : RecordState) (processed : List ConstDataBuffer) :
    List ConstDataBuffer → List (ConstDataBuffer × Pending) →
    LogM (List (ConstDataBuffer × Pending))
  | [], notProcessed => return notProcessed
  | p :: followers, notProcessed =>
    if p ∈ processed ∨ p ∈ SortedMap.keys notProcessed then
      pushFollowers n result processed followers notProcessed
    else do
      match ← Orm.transactionLogRecord.find p with
      | none => throw (.runtimeError "Invalid data")
      | some row =>
        if result = .leaf then
          pushFollowers n result processed followers
            (SortedMap.assign bufferLess p ⟨row.data, row.state, row.consensus⟩ notProcessed)
        else do
          invalidBlock n p true
          pushFollowers n result processed followers notProcessed

/-- The loop of `process_block_with_followers`. -/
def followersLoop (process : ProcessFollowers) (n : Nat) :
    Nat → List (ConstDataBuffer × Pending) → List ConstDataBuffer → LogM Unit
  | 0, _, _ => throw .outOfFuel
  | m + 1, notProcessed, processed =>
    match notProcessed with
    | [] => return ()
    | (_, data) :: rest => do
      let current ← getExpected (TransactionBlock.create sp.crypto data.data)
      record fun db => .visit db current.id (SortedMap.keys rest)
      let result ← processBlock sp current
      if result = .validated then
        followersLoop process n m rest (current.id :: processed)
      else do
        let goOn ← updateConsensus sp process n current { data with state := result }
        if !goOn then return ()
        else do
          let followers ← selectFollowers current.id
          let rest ← pushFollowers n result (current.id :: processed) followers rest
          followersLoop process n m rest (current.id :: processed)

def processBlockWithFollowers : Nat → ProcessFollowers
  | 0 => fun _ _ => throw .outOfFuel
  | n + 1 => fun blockId data =>
    followersLoop sp (processBlockWithFollowers n) n n [(blockId, data)] []

/-- The rows of a new block. -/
def insertBlock (block : TransactionBlock) (blockData : ConstDataBuffer) : LogM Unit := do
  Orm.transactionLogRecord.insert block.id
    { data := blockData, state := .validated, consensus := false,
      orderNo := block.orderNo.toInt64, timePoint := toTimeT block.timePoint }
  block.ancestors.forM fun ancestor =>
    Orm.transactionLogHierarchy.insert (ancestor, block.id) ()

/-- Stores a new block and processes it and whatever has waited for it. -/
def save (n : Nat) (blockData : ConstDataBuffer) (allowRoot : Bool) : LogM ConstDataBuffer := do
  let block ← getExpected (TransactionBlock.create sp.crypto blockData)
  if block.ancestors.isEmpty && !allowRoot then
    throw (.runtimeError "Root block is not allowed")
  else do
    let _ ← block.blockExists
    insertBlock block blockData
    processBlockWithFollowers sp n block.id ⟨blockData, .validated, false⟩
    return block.id

end Vds.LogSync

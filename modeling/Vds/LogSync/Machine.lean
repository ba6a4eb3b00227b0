import Vds.LogSync.ProcessBlock

/-! `transaction_log::save` as a machine that takes one step at a time: its nested loops and
its recursion become phases, and what holds of a run of it is proved step by step. -/

namespace Vds.LogSync

open StateError

inductive Phase
  /-- No block is being processed. -/
  | idle
  /-- `process_block_with_followers` takes the next block of its worklist. -/
  | loop
  /-- `block` has got the state `data.state`, and its author votes. -/
  | vote (block : TransactionBlock) (data : Pending)
  /-- The candidates `todo` of the walk `w` are still to be confirmed. -/
  | confirm (block : TransactionBlock) (data : Pending) (w : VoteWalk) (todo : List Candidate)
  /-- `consensus_records` runs for `p`. -/
  | records (p : Candidate) (next : Phase)
  /-- The followers of `block` go to the worklist. -/
  | followers (block : TransactionBlock) (data : Pending)
  /-- `rollback_all` from the database `start`. -/
  | rollback (start : Database) (w : VoteWalk) (walk : RollbackWalk)
  /-- The candidates `todo` are tried again. -/
  | retry (todo : List Candidate)

structure Config where
  t : DatabaseTransaction
  /-- The blocks that `update_consensus` processes again, the innermost call first. -/
  queued : List (List ConstDataBuffer) := []
  pending : List (ConstDataBuffer × Pending) := []
  processed : List ConstDataBuffer := []
  phase : Phase := .idle

/-- The transaction with the event of a visit. -/
def visited (id : ConstDataBuffer) (rest : List (ConstDataBuffer × Pending))
    (t : DatabaseTransaction) : DatabaseTransaction :=
  { t with journal := .visit t.db id (SortedMap.keys rest) :: t.journal }

/-- The transaction with the event of a new search for waiting blocks. -/
def reprocessing (t : DatabaseTransaction) : DatabaseTransaction :=
  { t with journal := .reprocess t.db :: t.journal }

/-- The leaves a rollback starts with. -/
def rollbackLeaves (minOrder : UInt64) (db : Database) : List (ConstDataBuffer × ConstDataBuffer) :=
  SortedMap.assigns bufferLess Prod.fst (fun row => row.2.data)
    (db.logRecords.select fun _ row =>
      row.state = .leaf && minOrder.toInt64 ≤ row.orderNo && !row.consensus) []

/-- The record of a confirmed block. -/
def setConsensus (id : ConstDataBuffer) (t : DatabaseTransaction) : DatabaseTransaction :=
  { t with db := { t.db with
    logRecords := t.db.logRecords.update id fun row => { row with consensus := true } } }

def setState (id : ConstDataBuffer) (state : RecordState) (t : DatabaseTransaction) :
    DatabaseTransaction :=
  { t with db := { t.db with
    logRecords := t.db.logRecords.update id fun row => { row with state } } }

inductive Step (sp : ServiceProvider) : Config → Config → Prop
  | tick {t qs ps pr} (now : TimePoint) : Step sp ⟨t, qs, ps, pr, .idle⟩ ⟨{ t with now }, qs, ps, pr, .idle⟩
  | store {t t' ps pr blockData block} (parses : TransactionBlock.create sp.crypto blockData = .ok block)
      (inserted : insertBlock block blockData t = .ok () t') :
      Step sp ⟨t, [], ps, pr, .idle⟩ ⟨t', [], [(block.id, ⟨blockData, .validated, false⟩)], [], .loop⟩
  | start {t p fs qs ps pr row} (stored : t.db.logRecords.lookup p = some row)
      (waits : row.state = .validated) :
      Step sp ⟨t, (p :: fs) :: qs, ps, pr, .idle⟩
        ⟨t, fs :: qs, [(p, ⟨row.data, row.state, row.consensus⟩)], [], .loop⟩
  | pass {t p fs qs ps pr row} (stored : t.db.logRecords.lookup p = some row)
      (done : row.state ≠ .validated) :
      Step sp ⟨t, (p :: fs) :: qs, ps, pr, .idle⟩ ⟨t, fs :: qs, ps, pr, .idle⟩
  | reprocessed {t qs ps pr} : Step sp ⟨t, [] :: qs, ps, pr, .idle⟩ ⟨t, qs, ps, pr, .idle⟩
  | finish {t qs pr} : Step sp ⟨t, qs, [], pr, .loop⟩ ⟨t, qs, [], pr, .idle⟩
  | wait {t t' qs k data rest pr block} (parses : TransactionBlock.create sp.crypto data.data = .ok block)
      (waits : processBlock sp block (visited block.id rest t) = .ok .validated t') :
      Step sp ⟨t, qs, (k, data) :: rest, pr, .loop⟩ ⟨t', qs, rest, block.id :: pr, .loop⟩
  | judge {t t' qs k data rest pr block state}
      (parses : TransactionBlock.create sp.crypto data.data = .ok block)
      (judged : processBlock sp block (visited block.id rest t) = .ok state t')
      (verdict : state ≠ .validated) :
      Step sp ⟨t, qs, (k, data) :: rest, pr, .loop⟩
        ⟨t', qs, rest, block.id :: pr, .vote block { data with state }⟩
  | elect {t t' qs ps pr block data n w}
      (walk : voteWalk sp block n { notProcessed := [(block.id, data)] } t = .ok w t')
      (none : w.consensusCandidate = []) :
      Step sp ⟨t, qs, ps, pr, .vote block data⟩ ⟨t', qs, ps, pr, .followers block data⟩
  | propose {t t' qs ps pr block data n w}
      (walk : voteWalk sp block n { notProcessed := [(block.id, data)] } t = .ok w t')
      (some : w.consensusCandidate ≠ []) :
      Step sp ⟨t, qs, ps, pr, .vote block data⟩
        ⟨{ t' with journal := .confirm t'.db (w.consensusCandidate.map (·.id)) :: t'.journal },
          qs, ps, pr, .confirm block data w w.consensusCandidate⟩
  | confirm {t qs ps pr block data w p todo} (applied : p.state = .processed ∨ p.state = .leaf) :
      Step sp ⟨t, qs, ps, pr, .confirm block data w (p :: todo)⟩
        ⟨setConsensus p.id t, qs, ps, pr, .records p (.confirm block data w todo)⟩
  | confirmInvalid {t qs ps pr block data w p todo} (invalid : ¬(p.state = .processed ∨ p.state = .leaf))
      (rollback : w.haveInvalidConsensus = true) :
      Step sp ⟨t, qs, ps, pr, .confirm block data w (p :: todo)⟩
        ⟨setConsensus p.id t, qs, ps, pr, .confirm block data w todo⟩
  | records {t t' qs ps pr p next block} (parses : TransactionBlock.create sp.crypto p.data = .ok block)
      (done : consensusRecords sp block t = .ok () t') :
      Step sp ⟨t, qs, ps, pr, .records p next⟩ ⟨t', qs, ps, pr, next⟩
  | confirmed {t qs ps pr block data w} (valid : w.haveInvalidConsensus = false) :
      Step sp ⟨t, qs, ps, pr, .confirm block data w []⟩ ⟨t, qs, ps, pr, .followers block data⟩
  | follow {t t' qs ps ps' pr block data n fs} (found : selectFollowers block.id t = .ok fs t)
      (pushed : pushFollowers n data.state pr fs ps t = .ok ps' t') :
      Step sp ⟨t, qs, ps, pr, .followers block data⟩ ⟨t', qs, ps', pr, .loop⟩
  | rollback {t qs ps pr block data w} (invalid : w.haveInvalidConsensus = true) :
      Step sp ⟨t, qs, ps, pr, .confirm block data w []⟩
        ⟨{ t with journal := .rollback t.db w.minOrder :: t.journal }, qs, ps, pr,
          .rollback t.db w { notProcessed := rollbackLeaves w.minOrder t.db }⟩
  | undo {t t₁ t' qs ps pr start w k data rest processed walk block}
      (parses : TransactionBlock.create sp.crypto data = .ok block)
      (undone : undoRecords sp block t = .ok () t₁)
      (ancestors : rollbackAncestors w.minOrder block.ancestors ⟨rest, block.id :: processed⟩
        (setState block.id .validated t₁) = .ok walk t') :
      Step sp ⟨t, qs, ps, pr, .rollback start w ⟨(k, data) :: rest, processed⟩⟩
        ⟨t', qs, ps, pr, .rollback start w walk⟩
  | rolledBack {t qs ps pr start w processed} :
      Step sp ⟨t, qs, ps, pr, .rollback start w ⟨[], processed⟩⟩ ⟨t, qs, ps, pr, .retry w.consensusCandidate⟩
  | skip {t qs ps pr p todo} (valid : p.state ≠ .invalid) :
      Step sp ⟨t, qs, ps, pr, .retry (p :: todo)⟩ ⟨t, qs, ps, pr, .retry todo⟩
  | again {t t₁ t' qs ps pr p todo n block} (invalid : p.state = .invalid)
      (parses : TransactionBlock.create sp.crypto p.data = .ok block)
      (cleared : invalidBlock n p.id false t = .ok () t₁)
      (judged : processBlock sp block t₁ = .ok .leaf t') :
      Step sp ⟨t, qs, ps, pr, .retry (p :: todo)⟩ ⟨t', qs, ps, pr, .records p (.retry todo)⟩
  | retried {t qs ps pr fs} (found : selectLeafFollowers (reprocessing t) = .ok fs (reprocessing t)) :
      Step sp ⟨t, qs, ps, pr, .retry []⟩ ⟨reprocessing t, fs :: qs, ps, pr, .idle⟩

/-- Runs of the machine. -/
abbrev Steps (sp : ServiceProvider) : Config → Config → Prop := Relation.ReflTransGen (Step sp)

end Vds.LogSync

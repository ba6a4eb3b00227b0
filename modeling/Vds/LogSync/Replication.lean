import Vds.LogSync.Agreement
import Vds.LogSync.History
import Vds.LogSync.Saved
import Vds.LogSync.SyncProcess

/-! The nodes that share a log: they save blocks of their own, tell each other their leaves, ask for blocks and
send them. Messages are delivered in any order, any number of times or never. -/

namespace Vds.LogSync

open StateError Dbo Table Transactions

/-! ### Messages and handlers -/

inductive LogMessage
  | state (message : TransactionLogState)
  | request (message : TransactionLogRequest)
  | record (recordId data : ConstDataBuffer)

def SyncMessage.toLogMessage : SyncMessage → LogMessage
  | .state message => .state message
  | .request message => .request message

/-- A message on its way; `sourceNode` is the one of `message_info`. -/
structure Envelope where
  target : ConstDataBuffer
  sourceNode : ConstDataBuffer
  message : LogMessage

section Handlers

variable (sp : ServiceProvider)

def FinalTask.toEnvelope (task : FinalTask) : Envelope := ⟨task.target, sp.currentNodeId, task.message.toLogMessage⟩

/-- `apply_message` of a `transaction_log_request`. -/
def applyRequest (message : TransactionLogRequest) : LogM (Bool × List Envelope) := do
  match ← Orm.transactionLogRecord.find message.transactionId with
  | none => return (false, [])
  | some row =>
    return (true, [⟨message.sourceNode, sp.currentNodeId, .record message.transactionId row.data⟩])

/-- `process_message` for the messages of the log. -/
def applyLogMessage (n : Nat) (e : Envelope) : LogM (Bool × List Envelope) := do
  match e.message with
  | .state message => do
    let (result, tasks) ← applyState sp message
    return (result, tasks.map (·.toEnvelope sp))
  | .request message => applyRequest sp message
  | .record _ data => do
    let (result, ids) ← applyMessage sp n data
    return (result, ids.map fun id => (requestOf sp e.sourceNode id).toEnvelope sp)

/-- A node saves a block of its own. -/
def saveOwn (n : Nat) (data : ConstDataBuffer) (allowRoot : Bool) : LogM (Bool × List Envelope) := do
  let _ ← save sp n data allowRoot
  return (true, [])

/-- `do_sync`, which the timer calls. -/
def doSync (neighbors : List ConstDataBuffer) : LogM (Bool × List Envelope) := do
  let tasks ← queryUnknownRecords sp neighbors
  return (true, tasks.map (·.toEnvelope sp))

def onNewSession (partnerId : ConstDataBuffer) : LogM (Bool × List Envelope) := do
  let tasks ← syncLocalChannels sp partnerId
  return (true, tasks.map (·.toEnvelope sp))

end Handlers

/-! ### The nodes -/

/-- The logs of all nodes by their ids, and all messages sent so far. -/
structure Cluster where
  logs : ConstDataBuffer → Database := fun _ => {}
  sent : List Envelope := []
  /-- The blocks that nodes have made. No handler reads it. -/
  authored : List ConstDataBuffer := []

/-- `node` runs a transaction: its log changes, and the messages go out when it is done. -/
def Cluster.run (c : Cluster) (node : ConstDataBuffer) (now : TimePoint) (handler : LogM (Bool × List Envelope)) :
    Cluster :=
  let r := asyncTransaction handler (c.logs node) now
  { c with
    logs := Function.update c.logs node r.2
    sent := (r.1.toOption.elim [] Prod.snd) ++ c.sent }

inductive Cluster.Step (crypto : Crypto) (c : Cluster) : Cluster → Prop
  | author (node : ConstDataBuffer) (now : TimePoint) (n : Nat) (data : ConstDataBuffer) (allowRoot : Bool) :
      Step crypto c (Cluster.run { c with authored := data :: c.authored } node now
        (saveOwn ⟨crypto, node⟩ n data allowRoot))
  | deliver {e : Envelope} (now : TimePoint) (n : Nat) (sent : e ∈ c.sent) :
      Step crypto c (c.run e.target now (applyLogMessage ⟨crypto, e.target⟩ n e))
  | timer (node : ConstDataBuffer) (now : TimePoint) (neighbors : List ConstDataBuffer) :
      Step crypto c (c.run node now (doSync ⟨crypto, node⟩ neighbors))
  | session (node : ConstDataBuffer) (now : TimePoint) (partnerId : ConstDataBuffer) :
      Step crypto c (c.run node now (onNewSession ⟨crypto, node⟩ partnerId))

/-- What may happen to the nodes, in any order. -/
abbrev Cluster.Steps (crypto : Crypto) : Cluster → Cluster → Prop := Relation.ReflTransGen (Cluster.Step crypto)

/-! ### What a handler does to the log of its node -/

variable {crypto : Crypto} {sp : ServiceProvider} {t t' : DatabaseTransaction}

/-- Nothing but the table of nodes has changed, or after that a block with `P` has been saved. -/
inductive LogStep (sp : ServiceProvider) (P : ConstDataBuffer → Prop) (db : Database) : Database → Prop
  | seen (nodeInfos) : LogStep sp P db { db with nodeInfos }
  | saved {n data allowRoot now id t nodeInfos} (from_peer : P data)
      (saved : save sp n data allowRoot { db := { db with nodeInfos }, now } = .ok id t) : LogStep sp P db t.db

theorem LogStep.mono {P Q : ConstDataBuffer → Prop} {db db' : Database} (h : LogStep sp P db db')
    (hPQ : ∀ data, P data → Q data) : LogStep sp Q db db' := by
  cases h with
  | seen nodeInfos => exact .seen nodeInfos
  | saved hP saved => exact .saved (hPQ _ hP) saved

theorem frames_lookUp (leafs : List ConstDataBuffer) : Frames id (lookUp leafs) := by
  induction leafs with
  | nil => exact Moves.pure _
  | cons a leafs ih =>
    refine (moves_find _).bind fun found => ih.bind fun r => ?_
    cases found <;> exact Moves.pure _

theorem frames_selectUnknown : Frames id selectUnknown :=
  Moves.get.bind fun _ => (moves_select _).bind fun _ => Moves.pure _

theorem frames_selectLeafs : Frames id selectLeafs := (moves_select _).bind fun _ => Moves.pure _

theorem frames_applyState (message : TransactionLogState) : Frames id (applyState sp message) := by
  refine (frames_lookUp _).bind fun r => Moves.ite (fun _ => Moves.pure _) fun _ => Moves.ite (fun _ => ?_) fun _ => ?_
  · exact frames_selectUnknown.bind fun _ => Moves.pure _
  · exact frames_selectLeafs.bind fun _ => Moves.ite (fun _ => Moves.pure _) fun _ => Moves.pure _

theorem frames_queryUnknownRecords (neighbors : List ConstDataBuffer) :
    Frames id (queryUnknownRecords sp neighbors) := by
  refine frames_selectUnknown.bind fun ids => Moves.ite (fun _ => ?_) fun _ => Moves.pure _
  exact frames_selectLeafs.bind fun _ => Moves.ite (fun _ => Moves.pure _) fun _ => Moves.pure _

theorem frames_syncLocalChannels (partnerId : ConstDataBuffer) : Frames id (syncLocalChannels sp partnerId) :=
  frames_selectLeafs.bind fun _ => Moves.ite (fun _ => Moves.pure _) fun _ => Moves.pure _

theorem frames_applyRequest (message : TransactionLogRequest) : Frames id (applyRequest sp message) := by
  refine (moves_find _).bind fun row => ?_
  cases row <;> exact Moves.pure _

theorem frames_missingAncestors (as : List ConstDataBuffer) : Frames id (missingAncestors as) := by
  induction as with
  | nil => exact Moves.pure _
  | cons a as ih => exact (moves_find _).bind fun _ => ih.bind fun _ => Moves.pure _

/-- Only the table of nodes is written. -/
def OnlyNodes (t t' : DatabaseTransaction) : Prop :=
  ∃ nodeInfos, t' = { t with db := { t.db with nodeInfos } }

instance : Std.Refl OnlyNodes := ⟨fun t => ⟨t.db.nodeInfos, rfl⟩⟩

instance : IsTrans DatabaseTransaction OnlyNodes :=
  ⟨by rintro _ _ _ ⟨nodeInfos, rfl⟩ ⟨nodeInfos', rfl⟩; exact ⟨nodeInfos', rfl⟩⟩

theorem moves_of_frames {α : Type} {x : LogM α} (h : Frames id x) : Moves OnlyNodes x := by
  intro t
  have ht : final (x t) = t := h t
  rw [ht]
  exact refl_of OnlyNodes t

theorem moves_writePublicKey (block : TransactionBlock) : Moves OnlyNodes (writePublicKey sp block) := by
  refine (moves_find _).bind fun row => ?_
  cases row with
  | none => exact moves_getExpected _
  | some row =>
    refine (moves_getExpected _).bind fun key => ?_
    have hwrites : Orm.nodeInfo.Writes OnlyNodes := fun rows t => ⟨rows, rfl⟩
    exact Moves.ite (fun _ => (moves_update hwrites _ _).bind fun _ => Moves.pure _) fun _ => Moves.pure _

theorem moves_signatureGate (data : ConstDataBuffer) : Moves OnlyNodes (signatureGate sp data) := by
  refine (moves_getExpected _).bind fun block => Moves.bind ((moves_find _).bind fun _ => Moves.pure _) fun stored => ?_
  refine Moves.ite (fun _ => Moves.pure _) fun _ => (moves_writePublicKey block).bind fun key => ?_
  refine Moves.ite (fun _ => ?_) fun _ => (moves_select _).bind fun _ => Moves.pure _
  exact (moves_of_frames (frames_missingAncestors _)).bind fun _ => Moves.pure _

theorem applyMessage_logStep {n : Nat} {data : ConstDataBuffer} {db : Database} {now : TimePoint}
    {r : Bool × List ConstDataBuffer} (h : applyMessage sp n data { db, now } = .ok r t') :
    LogStep sp (· = data) db t'.db := by
  unfold applyMessage at h
  obtain ⟨gate, t₁, hg, h⟩ := bind_eq_ok.mp h
  obtain ⟨nodeInfos, rfl⟩ := (moves_signatureGate data).ok hg
  cases gate with
  | refused requests =>
    cases h
    exact .seen nodeInfos
  | save allowRoot =>
    obtain ⟨id, t₂, hs, h⟩ := bind_eq_ok.mp h
    cases h
    exact .saved rfl hs

/-- The block that a message brings along. -/
def Envelope.Brings (e : Envelope) (data : ConstDataBuffer) : Prop := ∃ id, e.message = .record id data

theorem applyLogMessage_logStep {n : Nat} {e : Envelope} {db : Database} {now : TimePoint} {r : Bool × List Envelope}
    (h : applyLogMessage sp n e { db, now } = .ok r t') : LogStep sp e.Brings db t'.db := by
  unfold applyLogMessage at h
  cases hm : e.message with
  | state message =>
    rw [hm] at h
    obtain ⟨a, t₁, hs, h⟩ := bind_eq_ok.mp h
    cases h
    have ht : t' = { db, now } := (frames_applyState message).ok hs
    rw [ht]
    exact .seen db.nodeInfos
  | request message =>
    rw [hm] at h
    have ht : t' = { db, now } := (frames_applyRequest message).ok h
    rw [ht]
    exact .seen db.nodeInfos
  | record recordId data =>
    rw [hm] at h
    obtain ⟨a, t₁, hs, h⟩ := bind_eq_ok.mp h
    cases h
    exact (applyMessage_logStep hs).mono fun d hd => ⟨recordId, hd ▸ hm⟩

/-! ### What it sends -/

theorem SyncMessage.not_record (m : SyncMessage) (id data : ConstDataBuffer) : m.toLogMessage ≠ .record id data := by
  cases m <;> exact nofun

/-- Only a request is answered with a block, and with the one that is stored. -/
theorem applyLogMessage_brings {n : Nat} {e e' : Envelope} {r : Bool × List Envelope}
    (h : applyLogMessage sp n e t = .ok r t') (he : e' ∈ r.2) {id data : ConstDataBuffer}
    (hm : e'.message = .record id data) : dataOf t.db id = some data := by
  have hno {tasks : List FinalTask} (he : e' ∈ tasks.map (·.toEnvelope sp)) : False := by
    obtain ⟨task, -, rfl⟩ := List.mem_map.mp he
    exact task.message.not_record id data hm
  unfold applyLogMessage at h
  cases hmsg : e.message with
  | state message =>
    rw [hmsg] at h
    obtain ⟨a, t₁, -, h⟩ := bind_eq_ok.mp h
    cases h
    exact (hno he).elim
  | request message =>
    rw [hmsg] at h
    change applyRequest sp message t = _ at h
    unfold applyRequest at h
    rw [find_bind] at h
    cases hr : t.db.logRecords.lookup message.transactionId with
    | none =>
      simp only [Orm.transactionLogRecord_rows, hr] at h
      cases h
      cases he
    | some row =>
      simp only [Orm.transactionLogRecord_rows, hr] at h
      cases h
      cases List.mem_singleton.mp he
      cases hm
      rw [dataOf, hr, Option.map_some]
  | record recordId data' =>
    rw [hmsg] at h
    obtain ⟨a, t₁, -, h⟩ := bind_eq_ok.mp h
    cases h
    obtain ⟨x, -, rfl⟩ := List.mem_map.mp he
    exact ((requestOf sp e.sourceNode x).message.not_record id data hm).elim

/-! ### Steps of the cluster -/

/-- A handler that takes the log along `P` and sends only blocks that are stored. -/
structure Serves (sp : ServiceProvider) (P : ConstDataBuffer → Prop) (handler : LogM (Bool × List Envelope)) : Prop where
  logStep : ∀ {db now r t'}, handler { db, now } = .ok r t' → LogStep sp P db t'.db
  brings : ∀ {db now r t'}, handler { db, now } = .ok r t' → ∀ e ∈ r.2, ∀ id data, e.message = .record id data →
    dataOf db id = some data

theorem serves_saveOwn (n : Nat) (data : ConstDataBuffer) (allowRoot : Bool) :
    Serves sp (· = data) (saveOwn sp n data allowRoot) where
  logStep {db now _ _} h := by
    obtain ⟨id, t₁, hs, h⟩ := bind_eq_ok.mp h
    cases h
    have hs' : save sp n data allowRoot { db := { db with nodeInfos := db.nodeInfos }, now } = .ok id _ := hs
    exact .saved rfl hs'
  brings h e he := by
    obtain ⟨id, t₁, hs, h⟩ := bind_eq_ok.mp h
    cases h
    cases he

theorem serves_applyLogMessage (n : Nat) (e : Envelope) : Serves sp e.Brings (applyLogMessage sp n e) :=
  ⟨fun h => applyLogMessage_logStep h, fun h _ he _ _ hm => applyLogMessage_brings h he hm⟩

theorem serves_tasks {x : LogM (List FinalTask)} (hx : Frames id x) :
    Serves sp (fun _ => False) (do
      let tasks ← x
      return (true, tasks.map (·.toEnvelope sp))) where
  logStep {db now _ _} h := by
    obtain ⟨tasks, t₁, ht, h⟩ := bind_eq_ok.mp h
    have hsame : t₁ = { db, now } := hx.ok ht
    rw [hsame] at h
    cases h
    exact .seen db.nodeInfos
  brings h e he id data hm := by
    obtain ⟨tasks, t₁, -, h⟩ := bind_eq_ok.mp h
    cases h
    obtain ⟨task, -, rfl⟩ := List.mem_map.mp he
    exact (task.message.not_record id data hm).elim

section Run

variable {c : Cluster} {node : ConstDataBuffer} {now : TimePoint} {handler : LogM (Bool × List Envelope)}
  {P : ConstDataBuffer → Prop} (h : Serves ⟨crypto, node⟩ P handler)
include h

theorem Serves.logStep_run (p : ConstDataBuffer) :
    LogStep ⟨crypto, p⟩ P (c.logs p) ((c.run node now handler).logs p) := by
  change LogStep _ P (c.logs p) (Function.update c.logs node (asyncTransaction handler (c.logs node) now).2 p)
  by_cases hp : p = node
  · subst hp
    rw [Function.update_self]
    unfold asyncTransaction
    cases hr : handler { db := c.logs p, now } with
    | ok r t' => exact h.logStep hr
    | error e t' => exact .seen (c.logs p).nodeInfos
  · rw [Function.update_of_ne hp]
    exact .seen (c.logs p).nodeInfos

theorem Serves.brings_run {e : Envelope} (he : e ∈ (c.run node now handler).sent) {id data : ConstDataBuffer}
    (hm : e.message = .record id data) : e ∈ c.sent ∨ ∃ p, dataOf (c.logs p) id = some data := by
  change e ∈ ((asyncTransaction handler (c.logs node) now).1.toOption.elim [] Prod.snd) ++ c.sent at he
  refine (List.mem_append.mp he).symm.imp_right fun he => ⟨node, ?_⟩
  unfold asyncTransaction at he
  cases hr : handler { db := c.logs node, now } with
  | ok r t' =>
    rw [hr] at he
    exact h.brings hr e he id data hm
  | error e' t' =>
    rw [hr] at he
    cases he

end Run

/-- A block that a step may store: a new one, or one that is on its way. -/
def Cluster.Offered (c c' : Cluster) (data : ConstDataBuffer) : Prop :=
  data ∈ c'.authored ∨ ∃ e ∈ c.sent, e.Brings data

theorem Cluster.Step.logStep {c c' : Cluster} (h : Cluster.Step crypto c c') (p : ConstDataBuffer) :
    LogStep ⟨crypto, p⟩ (c.Offered c') (c.logs p) (c'.logs p) := by
  cases h with
  | author node now n data allowRoot =>
    refine ((serves_saveOwn n data allowRoot).logStep_run (c := { c with authored := data :: c.authored }) p).mono ?_
    rintro _ rfl
    exact .inl (List.mem_cons_self ..)
  | deliver now n sent =>
    exact ((serves_applyLogMessage n _).logStep_run p).mono fun data hd => .inr ⟨_, sent, hd⟩
  | timer node now neighbors =>
    exact ((serves_tasks (frames_queryUnknownRecords neighbors)).logStep_run p).mono fun _ => False.elim
  | session node now partnerId =>
    exact ((serves_tasks (frames_syncLocalChannels partnerId)).logStep_run p).mono fun _ => False.elim

theorem Cluster.Step.brings {c c' : Cluster} (h : Cluster.Step crypto c c') {e : Envelope} (he : e ∈ c'.sent)
    {id data : ConstDataBuffer} (hm : e.message = .record id data) :
    e ∈ c.sent ∨ ∃ p, dataOf (c.logs p) id = some data := by
  cases h with
  | author node now n data' allowRoot =>
    exact (serves_saveOwn n data' allowRoot).brings_run (c := { c with authored := data' :: c.authored }) he hm
  | deliver now n sent => exact (serves_applyLogMessage n _).brings_run he hm
  | timer node now neighbors => exact (serves_tasks (frames_queryUnknownRecords neighbors)).brings_run he hm
  | session node now partnerId => exact (serves_tasks (frames_syncLocalChannels partnerId)).brings_run he hm

theorem Cluster.Step.authored {c c' : Cluster} (h : Cluster.Step crypto c c') : c.authored ⊆ c'.authored := by
  cases h with
  | author => exact List.subset_cons_self ..
  | deliver | timer | session => exact List.Subset.refl _

/-! ### Every log holds the blocks that were made -/

theorem Run.wellFormed {start db : Database} {blocks : List ConstDataBuffer} {journal : List Event}
    (h : Run sp start blocks journal db) (hw : WellFormed sp.crypto start) : WellFormed sp.crypto db := by
  obtain ⟨t, rfl, -, ps, pr, hs⟩ := h.steps
  have hsteps : ∀ {c c' : Config}, LogSync.Steps sp c c' → WellFormed sp.crypto c.t.db → WellFormed sp.crypto c'.t.db := by
    intro c c' hs hw
    induction hs with
    | refl => exact hw
    | tail _ hstep ih => exact hstep.wellFormed ih
  exact hsteps hs hw

theorem LogStep.wellFormed {P : ConstDataBuffer → Prop} {db db' : Database} (h : LogStep sp P db db')
    (hw : WellFormed sp.crypto db) : WellFormed sp.crypto db' := by
  cases h with
  | seen nodeInfos => exact hw.of_blocksOf rfl
  | @saved _ _ _ _ _ t nodeInfos _ saved =>
    have hw' : WellFormed sp.crypto { db with nodeInfos } := hw.of_blocksOf rfl
    exact Run.wellFormed (.step .refl saved) hw'

theorem extends_nodeInfos (db : Database) (nodeInfos : Table ConstDataBuffer NodeInfo) :
    Extends db { db with nodeInfos } := ⟨Kept.refl _, fun _ h => h, Kept.refl _⟩

theorem LogStep.extended {P : ConstDataBuffer → Prop} {db db' : Database} (h : LogStep sp P db db') :
    Extends db db' := by
  cases h with
  | seen nodeInfos => exact extends_nodeInfos db nodeInfos
  | @saved _ _ _ _ _ t nodeInfos _ saved =>
    have hrun : Run sp { db with nodeInfos } _ _ t.db := .step .refl saved
    obtain ⟨t', ht', -, ps, pr, hs⟩ := hrun.steps
    rw [← ht']
    exact (extends_nodeInfos db nodeInfos).trans (Steps.extended hs)

theorem LogStep.stored {P : ConstDataBuffer → Prop} {db db' : Database} (h : LogStep sp P db db')
    {id data : ConstDataBuffer} (hd : dataOf db' id = some data) : dataOf db id = some data ∨
      P data ∧ ∃ block, TransactionBlock.create sp.crypto data = .ok block ∧ block.id = id := by
  cases h with
  | seen nodeInfos => exact .inl hd
  | saved hP saved =>
    obtain ⟨hparse, -, hdata⟩ := save_eq_ok saved
    rw [hdata] at hd
    split_ifs at hd with hid
    · cases hd
      cases hid
      exact .inr ⟨hP, hparse⟩
    · exact .inl hd

/-- The bytes are those of a block that was made, and this is its id. -/
def MadeAs (crypto : Crypto) (authored : List ConstDataBuffer) (id data : ConstDataBuffer) : Prop :=
  data ∈ authored ∧ ∃ block, TransactionBlock.create crypto data = .ok block ∧ block.id = id

/-- What is stored or on its way was made by a node. -/
structure Cluster.Genuine (crypto : Crypto) (c : Cluster) : Prop where
  wellFormed : ∀ p, WellFormed crypto (c.logs p)
  stored : ∀ p id data, dataOf (c.logs p) id = some data → MadeAs crypto c.authored id data
  sent : ∀ e ∈ c.sent, ∀ id data, e.message = .record id data → MadeAs crypto c.authored id data

theorem Cluster.Genuine.start (crypto : Crypto) : Cluster.Genuine crypto {} where
  wellFormed _ := WellFormed.empty crypto
  stored _ _ _ h := nomatch h
  sent _ h := nomatch h

theorem Cluster.Genuine.step {c c' : Cluster} (h : c.Genuine crypto) (hs : Cluster.Step crypto c c') :
    c'.Genuine crypto where
  wellFormed p := (hs.logStep p).wellFormed (h.wellFormed p)
  stored p id data hd := by
    rcases (hs.logStep p).stored hd with hd | ⟨hP, hparse⟩
    · exact (h.stored p id data hd).imp_left fun hm => hs.authored hm
    · refine ⟨?_, hparse⟩
      rcases hP with hP | ⟨e, he, id', hm⟩
      · exact hP
      · exact hs.authored (h.sent e he id' data hm).1
  sent e he id data hm := by
    rcases hs.brings he hm with he | ⟨p, hd⟩
    · exact (h.sent e he id data hm).imp_left fun hm => hs.authored hm
    · exact (h.stored p id data hd).imp_left fun hm => hs.authored hm

theorem Cluster.Genuine.steps {c c' : Cluster} (h : c.Genuine crypto) (hs : Cluster.Steps crypto c c') :
    c'.Genuine crypto := by
  induction hs with
  | refl => exact h
  | tail _ hstep ih => exact ih.step hstep

/-- No two of the blocks have one id. -/
def NoCollision (crypto : Crypto) (blocks : List ConstDataBuffer) : Prop :=
  ∀ id data data', MadeAs crypto blocks id data → MadeAs crypto blocks id data' → data = data'

/-- However the messages are ordered, lost or repeated, what two nodes store under one id is the same, and
what is stored anywhere was made by a node. -/
theorem replicas_agree {c : Cluster} (h : Cluster.Steps crypto {} c) (hn : NoCollision crypto c.authored) :
    (∀ p q, SameData (c.logs p) (c.logs q)) ∧ ∀ p id data, dataOf (c.logs p) id = some data → data ∈ c.authored := by
  have hg := (Cluster.Genuine.start crypto).steps h
  refine ⟨fun p q id data data' hd hd' => ?_, fun p id data hd => (hg.stored p id data hd).1⟩
  exact hn id data data' (hg.stored p id data hd) (hg.stored q id data' hd')

/-- The delivery of one of the messages that were sent last. -/
def Cluster.deliverAt (crypto : Crypto) (n i : Nat) (c : Cluster) : Cluster :=
  match c.sent[i]? with
  | some e => c.run e.target 0 (applyLogMessage ⟨crypto, e.target⟩ n e)
  | none => c

theorem Cluster.Steps.deliverAt {c₀ c : Cluster} (h : Cluster.Steps crypto c₀ c) (n i : Nat) :
    Cluster.Steps crypto c₀ (c.deliverAt crypto n i) := by
  unfold Cluster.deliverAt
  cases he : c.sent[i]? with
  | none => exact h
  | some e => exact h.tail (.deliver 0 n (List.mem_of_getElem? he))

/-- A node has made the first block and starts a session with another one. -/
def meeting : Cluster :=
  Cluster.run (Cluster.run { authored := [sampleRoot] } (sampleNode 1) 0
    (saveOwn ⟨sampleProvider.crypto, sampleNode 1⟩ 9 sampleRoot true)) (sampleNode 1) 0
      (onNewSession ⟨sampleProvider.crypto, sampleNode 1⟩ (sampleNode 2))

theorem meeting_steps : Cluster.Steps sampleProvider.crypto {} meeting :=
  (Relation.ReflTransGen.single (Cluster.Step.author (c := {}) (sampleNode 1) 0 9 sampleRoot true)).tail
    (.session (sampleNode 1) 0 (sampleNode 2))

/-- Three messages later the other node has the block. -/
theorem replicas_agree_meeting : ∃ c, Cluster.Steps sampleProvider.crypto {} c ∧
    dataOf (c.logs (sampleNode 2)) (sampleId 1) = some sampleRoot ∧
    SameData (c.logs (sampleNode 1)) (c.logs (sampleNode 2)) := by
  let c := ((meeting.deliverAt sampleProvider.crypto 9 0).deliverAt sampleProvider.crypto 9 0).deliverAt
    sampleProvider.crypto 9 0
  have hc : Cluster.Steps sampleProvider.crypto {} c := ((meeting_steps.deliverAt 9 0).deliverAt 9 0).deliverAt 9 0
  have hauthored : c.authored = [sampleRoot] := by
    decide +kernel
  have hdata : dataOf (c.logs (sampleNode 2)) (sampleId 1) = some sampleRoot := by
    decide +kernel
  refine ⟨c, hc, hdata, (replicas_agree hc fun id data data' hd hd' => ?_).1 _ _⟩
  rw [hauthored] at hd hd'
  exact (List.mem_singleton.mp hd.1).trans (List.mem_singleton.mp hd'.1).symm

/-- No message takes anything out of the log of a node. -/
theorem cluster_append_only {c c' : Cluster} (h : Cluster.Steps crypto c c') (p : ConstDataBuffer) :
    Extends (c.logs p) (c'.logs p) := by
  induction h with
  | refl => exact Extends.refl _
  | tail _ hs ih => exact ih.trans (hs.logStep p).extended

theorem cluster_append_only_meeting : ∃ c, Cluster.Steps sampleProvider.crypto meeting c ∧
    stateOf (meeting.logs (sampleNode 1)) (sampleId 1) = some .leaf ∧
    Extends (meeting.logs (sampleNode 1)) (c.logs (sampleNode 1)) := by
  have hstart : Cluster.Steps sampleProvider.crypto meeting meeting := .refl
  have hc := (hstart.deliverAt 9 0).deliverAt 9 0
  exact ⟨_, hc, by decide +kernel, cluster_append_only hc (sampleNode 1)⟩

end Vds.LogSync

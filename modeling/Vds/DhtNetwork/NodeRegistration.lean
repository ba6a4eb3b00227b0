import Vds.DhtNetwork.ClientSave
import Vds.LogSync.Build
import Vds.LogSync.Run

/-! When the first saved block of a node carries the record that registers the node: the flag
`is_new_node_` in memory is not rolled back with the tables. -/

namespace Vds.DhtNetwork

open StateError NodeState LogSync Transactions

variable (services : ClientServices)

/-- A call of `client::save`, in a transaction that may be committed or rolled back. -/
structure Attempt where
  node : NodeState
  block : ConstDataBuffer
  allowRoot : Bool

/-- The members of `client` after a call; no rollback restores them. -/
def clientAfter (client : Client) (a : Attempt) : Client :=
  (final (clientSave services a.block a.allowRoot { client, node := a.node })).client

def clientMemory (client : Client) (attempts : List Attempt) : Client :=
  attempts.foldl (clientAfter services) client

/-- The call fails while it loads the keys or looks whether the node is registered. -/
def FailsEarly (client : Client) (a : Attempt) : Prop :=
  ∃ e s, beforeBuild services a.block { client, node := a.node } = .error e s

/-- Each of the calls fails early, with the members that the calls before it have left. -/
def AllFailEarly (client : Client) : List Attempt → Prop
  | [] => True
  | a :: attempts => FailsEarly services client a ∧ AllFailEarly (clientAfter services client a) attempts

/-! ### What the parts of `save` leave alone -/

theorem frames_onNode {α : Type} (x : NodeM α) : Frames ClientState.client (onNode x) := by
  intro s
  unfold onNode
  cases x s.node <;> rfl

theorem frames_modifyClient {γ : Type} {f : Client → Client} {g : ClientState → γ}
    (h : ∀ s, g { s with client := f s.client } = g s) : Frames g (modifyClient f) := h

/-- What `loadKeys` never touches: the flag, the tables of the log and what was built. -/
def untouched (s : ClientState) : Bool × Database × List ConstDataBuffer :=
  (s.client.isNewNode, s.node.tables.db, s.built)

theorem untouched_onNode {α : Type} {x : NodeM α} (hx : Frames (fun s => s.tables.db) x) :
    Frames untouched (onNode x) := by
  intro s
  have h := hx s.node
  unfold onNode untouched
  cases hr : x s.node with
  | ok a node =>
    rw [hr] at h
    exact congrArg (fun db => (s.client.isNewNode, db, s.built)) h
  | error e node =>
    rw [hr] at h
    exact congrArg (fun db => (s.client.isNewNode, db, s.built)) h

theorem frames_getExpected {α γ : Type} (f : NodeState → γ) (v : Expected α) :
    Frames f (getExpected v) := by
  cases v with
  | ok a => exact Moves.pure a
  | error e => exact Moves.throw e

theorem frames_attempt {γ : Type} {f : NodeState → γ}
    (hf : ∀ s outcomes, f { s with outcomes } = f s) (what : String) : Frames f (attempt what) := by
  have hnext : Frames f nextOutcome := fun s => hf s s.outcomes.tail
  refine Moves.bind hnext fun outcome => ?_
  cases outcome with
  | done => exact Moves.pure ()
  | refused => exact Moves.throw _
  | torn rest => exact Moves.throw _

theorem frames_select {α γ : Type} {f : NodeState → γ}
    (hf : ∀ s outcomes, f { s with outcomes } = f s) (rows : NodeTables → α) :
    Frames f (select rows) :=
  Moves.bind (frames_attempt hf _) fun _ => Moves.bind Moves.get fun _ => Moves.pure _

theorem frames_insertCurrentConfig (nodeId : ConstDataBuffer) (row : CurrentConfig) :
    Frames (fun s => s.tables.db) (insertCurrentConfig nodeId row) := by
  refine Moves.bind (frames_attempt (fun _ _ => rfl) _) fun _ => Moves.bind Moves.get fun s => ?_
  cases s.tables.currentConfig.lookup nodeId with
  | some row => exact Moves.throw _
  | none => exact fun _ => rfl

theorem frames_insertNodeStorage (storageId : ConstDataBuffer) (storage : NodeStorage) :
    Frames (fun s => s.tables.db) (insertNodeStorage storageId storage) := by
  refine Moves.bind (frames_attempt (fun _ _ => rfl) _) fun _ => Moves.bind Moves.get fun s => ?_
  cases s.tables.nodeStorages.lookup storageId with
  | some row => exact Moves.throw _
  | none => exact fun _ => rfl

theorem untouched_readKeys (row : CurrentConfig) : Frames untouched (readKeys services row) := by
  refine Moves.bind (untouched_onNode (frames_getExpected _ _)) fun key => ?_
  refine Moves.bind (frames_modifyClient fun _ => rfl) fun _ => ?_
  refine Moves.bind (untouched_onNode (frames_getExpected _ _)) fun key => ?_
  exact frames_modifyClient fun _ => rfl

theorem untouched_makeKeys : Frames untouched (makeKeys services) := by
  refine Moves.bind (untouched_onNode (frames_getExpected _ _)) fun nodeKey => ?_
  refine Moves.bind (frames_modifyClient fun _ => rfl) fun _ => ?_
  refine Moves.bind (untouched_onNode (frames_getExpected _ _)) fun publicKey => ?_
  refine Moves.bind (frames_modifyClient fun _ => rfl) fun _ => untouched_onNode ?_
  refine Moves.bind (frames_insertCurrentConfig _ _) fun _ => ?_
  refine Moves.bind (frames_getExpected _ _) fun root => ?_
  refine Moves.bind (frames_attempt (fun _ _ => rfl) _) fun _ => ?_
  exact frames_insertNodeStorage _ _

theorem untouched_loadKeys : Frames untouched (loadKeys services) := by
  refine Moves.bind (untouched_onNode (frames_select (fun _ _ => rfl) _)) fun rows => ?_
  cases rows with
  | nil => exact untouched_makeKeys services
  | cons row rows => exact untouched_readKeys services row.2

theorem untouched_ensureKeys : Frames untouched (ensureKeys services) := by
  refine Moves.bind Moves.get fun s => ?_
  split_ifs
  · exact untouched_loadKeys services
  · exact Moves.pure _

/-! ### The registration check -/

variable {services} {block messages : ConstDataBuffer} {s s' : ClientState}

/-- The messages of a block whose author finds itself registered or not. -/
def registered (services : ClientServices) (db : Database) (block : ConstDataBuffer)
    (key : AsymmetricPublicKey) : ConstDataBuffer :=
  match db.nodeInfos.lookup (services.sp.crypto.fingerprint key) with
  | some _ => block
  | none => block ++ Message.serialize (.nodeAdd ⟨key⟩)

/-- A select that went through has read the tables and used up one outcome. -/
theorem onNode_select_eq_ok {α : Type} {rows : NodeTables → α} {a : α}
    (h : onNode (select rows) s = .ok a s') :
    a = rows s.node.tables ∧ s'.client = s.client ∧ untouched s' = untouched s := by
  have hclient : s'.client = s.client := (frames_onNode (select rows)).ok h
  have huntouched : untouched s' = untouched s :=
    (untouched_onNode (frames_select (fun _ _ => rfl) rows)).ok h
  refine ⟨?_, hclient, huntouched⟩
  unfold onNode at h
  cases hr : select rows s.node with
  | error e node =>
    rw [hr] at h
    cases h
  | ok b node =>
    rw [hr] at h
    cases h
    obtain ⟨_, t, hattempt, hrest⟩ := bind_eq_ok.1 hr
    have htables : t.tables = s.node.tables :=
      (frames_attempt (fun _ _ => rfl) _ : Frames NodeState.tables _).ok hattempt
    cases hrest
    rw [htables]

theorem registerNode_eq_ok {key : AsymmetricPublicKey}
    (h : registerNode services block key s = .ok messages s') :
    messages = registered services s.node.tables.db block key ∧
      s'.client = { s.client with isNewNode := false } ∧ s'.built = s.built := by
  obtain ⟨found, t, hfound, hrest⟩ := bind_eq_ok.1 h
  obtain ⟨rfl, hclient, huntouched⟩ := onNode_select_eq_ok hfound
  obtain ⟨block', t', hblock, hflag⟩ := bind_eq_ok.1 hrest
  cases hflag
  have hbuilt : t.built = s.built := congrArg (·.2.2) huntouched
  unfold registered
  cases hlookup : s.node.tables.db.nodeInfos.lookup (services.sp.crypto.fingerprint key) with
  | some row =>
    rw [hlookup] at hblock
    cases hblock
    exact ⟨rfl, congrArg (fun c : Client => { c with isNewNode := false }) hclient, hbuilt⟩
  | none =>
    rw [hlookup] at hblock
    obtain ⟨_, t'', hattempt, hpure⟩ := bind_eq_ok.1 hblock
    cases hpure
    have hclient' : t'.client = t.client := (frames_onNode _).ok hattempt
    have hbuilt' : t'.built = t.built :=
      congrArg (·.2.2) ((untouched_onNode (frames_attempt (fun _ _ => rfl) _)).ok hattempt)
    refine ⟨rfl, ?_, hbuilt'.trans hbuilt⟩
    exact congrArg (fun c : Client => { c with isNewNode := false }) (hclient'.trans hclient)

theorem registerNode_eq_error {key : AsymmetricPublicKey} {e : Error}
    (h : registerNode services block key s = .error e s') :
    s'.client.isNewNode = s.client.isNewNode := by
  obtain hfound | ⟨found, t, hfound, hrest⟩ := bind_eq_error.1 h
  · exact congrArg Client.isNewNode ((frames_onNode _).error hfound)
  · obtain ⟨-, hclient, -⟩ := onNode_select_eq_ok hfound
    have hflag : t.client.isNewNode = s.client.isNewNode := congrArg Client.isNewNode hclient
    obtain hblock | ⟨block', t', hblock, hset⟩ := bind_eq_error.1 hrest
    · cases found with
      | some row => cases hblock
      | none =>
        obtain hattempt | ⟨_, t', hattempt, hpure⟩ := bind_eq_error.1 hblock
        · exact (congrArg Client.isNewNode ((frames_onNode _).error hattempt)).trans hflag
        · cases hpure
    · cases hset

theorem beforeBuild_eq_ok (h : beforeBuild services block s = .ok messages s') :
    s'.client.isNewNode = false ∧ s'.built = s.built ∧
      ∃ key, s'.client.nodePublicKey = some key ∧
        messages = if s.client.isNewNode then registered services s.node.tables.db block key
          else block := by
  obtain ⟨_, t, hkeys, hrest⟩ := bind_eq_ok.1 h
  have huntouched : untouched t = untouched s := (untouched_ensureKeys services).ok hkeys
  have hflag : t.client.isNewNode = s.client.isNewNode := congrArg (·.1) huntouched
  have hdb : t.node.tables.db = s.node.tables.db := congrArg (·.2.1) huntouched
  have hbuilt : t.built = s.built := congrArg (·.2.2) huntouched
  obtain ⟨_, _, hget, hmatch⟩ := bind_eq_ok.1 hrest
  cases hget
  cases hkey : t.client.nodePublicKey with
  | none =>
    rw [hkey] at hmatch
    cases hmatch
  | some key =>
    rw [hkey] at hmatch
    simp only at hmatch
    rw [← hflag]
    cases hnew : t.client.isNewNode with
    | false =>
      rw [hnew] at hmatch
      cases hmatch
      exact ⟨hnew, hbuilt, key, hkey, rfl⟩
    | true =>
      rw [hnew] at hmatch
      obtain ⟨hmessages, hclient, hbuilt'⟩ := registerNode_eq_ok hmatch
      rw [hclient]
      exact ⟨rfl, hbuilt'.trans hbuilt, key, hkey, by rw [if_pos rfl, hmessages, hdb]⟩

theorem beforeBuild_eq_error {e : Error} (h : beforeBuild services block s = .error e s') :
    s'.client.isNewNode = s.client.isNewNode := by
  obtain hkeys | ⟨_, t, hkeys, hrest⟩ := bind_eq_error.1 h
  · exact congrArg (·.1) ((untouched_ensureKeys services).error hkeys)
  · have hflag : t.client.isNewNode = s.client.isNewNode :=
      congrArg (·.1) ((untouched_ensureKeys services).ok hkeys)
    obtain hget | ⟨_, _, hget, hmatch⟩ := bind_eq_error.1 hrest
    · cases hget
    · cases hget
      cases hkey : t.client.nodePublicKey with
      | none =>
        rw [hkey] at hmatch
        cases hmatch
        exact hflag
      | some key =>
        rw [hkey] at hmatch
        simp only at hmatch
        split_ifs at hmatch with hnew
        · exact (registerNode_eq_error hmatch).trans hflag
        · cases hmatch

/-! ### A whole call -/

/-- Building gives the messages to the journal and leaves the members alone. -/
theorem client_buildBlock (messages : ConstDataBuffer) :
    Frames ClientState.client (buildBlock services messages) := by
  refine Moves.bind (fun _ => rfl) fun _ => Moves.bind Moves.get fun s => ?_
  cases s.client.nodePublicKey <;> cases s.client.nodeKey
  · exact Moves.throw _
  · exact Moves.throw _
  · exact Moves.throw _
  · exact frames_onNode _

theorem built_onNode {α : Type} (x : NodeM α) : Frames ClientState.built (onNode x) := by
  intro s
  unfold onNode
  cases x s.node <;> rfl

theorem built_buildBlock {data : ConstDataBuffer}
    (h : buildBlock services messages s = .ok data s') : s'.built = messages :: s.built := by
  obtain ⟨_, t, hmodify, hrest⟩ := bind_eq_ok.1 h
  cases hmodify
  obtain ⟨_, _, hget, hmatch⟩ := bind_eq_ok.1 hrest
  cases hget
  revert hmatch
  cases s.client.nodePublicKey <;> cases s.client.nodeKey <;> intro hmatch
  · cases hmatch
  · cases hmatch
  · cases hmatch
  · exact (built_onNode _).ok hmatch

/-- The flag is cleared by the calls that get past the check, however they end. -/
theorem clientAfter_isNewNode (client : Client) (a : Attempt) :
    (clientAfter services client a).isNewNode = true ↔
      client.isNewNode = true ∧ FailsEarly services client a := by
  unfold clientAfter FailsEarly
  cases hbefore : beforeBuild services a.block { client, node := a.node } with
  | error e s =>
    have hrun : clientSave services a.block a.allowRoot { client, node := a.node } = .error e s :=
      bind_of_error hbefore
    rw [hrun, final_error, beforeBuild_eq_error hbefore]
    exact ⟨fun h => ⟨h, e, s, rfl⟩, fun h => h.1⟩
  | ok messages s =>
    have hflag : s.client.isNewNode = false := (beforeBuild_eq_ok hbefore).1
    have hrest : Frames ClientState.client (do
        let data ← buildBlock services messages
        onNode do
          let logBlock ← getExpected (TransactionBlock.create services.sp.crypto data)
          let _ ← walkReplicas services logBlock
          onLog (save services.sp services.rounds data a.allowRoot)) :=
      Moves.bind (client_buildBlock messages) fun data => frames_onNode _
    have hclient := hrest s
    rw [clientSave, bind_of_ok hbefore, hclient, hflag]
    constructor
    · intro h
      cases h
    · rintro ⟨-, e, s', h⟩
      cases h

theorem clientMemory_isNewNode (client : Client) (attempts : List Attempt) :
    (clientMemory services client attempts).isNewNode = true ↔
      client.isNewNode = true ∧ AllFailEarly services client attempts := by
  induction attempts generalizing client with
  | nil => exact ⟨fun h => ⟨h, trivial⟩, fun h => h.1⟩
  | cons a attempts ih =>
    have hstep := ih (clientAfter services client a)
    rw [clientAfter_isNewNode] at hstep
    exact hstep.trans ⟨fun h => ⟨h.1.1, h.1.2, h.2⟩, fun h => ⟨⟨h.1, h.2.1⟩, h.2.2⟩⟩

/-- The first saved block of an unregistered node carries the record of the node exactly when each
call before it failed before the check had cleared the flag. -/
theorem carries_nodeAdd_iff (services : ClientServices) (earlier : List Attempt) (a : Attempt)
    (id : ConstDataBuffer) (s : ClientState) (key : AsymmetricPublicKey)
    (hsaved : clientSave services a.block a.allowRoot
      { client := clientMemory services {} earlier, node := a.node } = .ok id s)
    (hkey : s.client.nodePublicKey = some key)
    (hnew : a.node.tables.db.nodeInfos.lookup (services.sp.crypto.fingerprint key) = none) :
    s.built = [a.block ++ Message.serialize (.nodeAdd ⟨key⟩)] ↔
      AllFailEarly services {} earlier := by
  obtain ⟨messages, t, hbefore, hrest⟩ := bind_eq_ok.1 hsaved
  obtain ⟨data, t', hbuild, hnode⟩ := bind_eq_ok.1 hrest
  obtain ⟨-, hbuilt, key', hkey', hmessages⟩ := beforeBuild_eq_ok hbefore
  have hclient : s.client = t.client :=
    ((frames_onNode _).ok hnode).trans ((client_buildBlock messages).ok hbuild)
  have hsame : key' = key := by
    rw [hclient, hkey'] at hkey
    exact Option.some.inj hkey
  subst hsame
  have hs : s.built = [messages] := by
    rw [(built_onNode _).ok hnode, built_buildBlock hbuild, hbuilt]
  have hregistered : registered services a.node.tables.db a.block key' =
      a.block ++ Message.serialize (.nodeAdd ⟨key'⟩) := by
    unfold registered
    rw [hnew]
  have hmemory := @clientMemory_isNewNode services {} earlier
  rw [hs, hmessages, hregistered]
  cases hflag : (clientMemory services {} earlier).isNewNode with
  | true => exact ⟨fun _ => (hmemory.1 hflag).2, fun _ => rfl⟩
  | false =>
    constructor
    · intro h
      have hlength := congrArg List.length (List.head_eq_of_cons_eq h)
      simp [Message.serialize, BinarySerializer.putUInt8] at hlength
    · intro h
      rw [hmemory.2 ⟨rfl, h⟩] at hflag
      cases hflag

/-! Two nodes have started a log; one block of the first registers a third node, and a block of
the second does so too but cannot be applied, which takes the registration back. -/

def sampleServices : ClientServices where
  sp := sampleProvider
  nodeCrypto :=
    { parsePrivateDer := fun der => .ok ⟨der⟩
      generate := .ok ⟨[9]⟩
      createPublicKey := fun _ => .ok ⟨LogSync.sampleNode 3⟩
      sign := fun _ _ => .ok [7] }
  currentUser := .ok [0x75]
  rootId := []
  rounds := 20

def registrations : List ConstDataBuffer :=
  [sampleBlock 1 1 (LogSync.sampleNode 1) [] [.nodeAdd ⟨⟨LogSync.sampleNode 1⟩⟩, .nodeAdd ⟨⟨LogSync.sampleNode 2⟩⟩],
    sampleBlock 2 2 (LogSync.sampleNode 1) [sampleId 1] [.nodeAdd ⟨⟨LogSync.sampleNode 3⟩⟩],
    sampleBlock 3 2 (LogSync.sampleNode 2) [sampleId 1] [.nodeAdd ⟨⟨LogSync.sampleNode 3⟩⟩, samplePayment 9 1 5]]

def walletMessage : ConstDataBuffer := Message.serialize (.createWallet ⟨[3], sampleWallet⟩)

/-- A save over the log of the first `blocks` of these. -/
def attemptAfter (blocks : Nat) : Attempt where
  node := { tables := { db :=
    ((saveAll sampleProvider 20 (registrations.take blocks) { db := {} }).map (·.db)).getD {} } }
  block := walletMessage
  allowRoot := false

def resultAfter (earlier : List Attempt) (blocks : Nat) :
    EStateM.Result Error ClientState ConstDataBuffer :=
  clientSave sampleServices (attemptAfter blocks).block (attemptAfter blocks).allowRoot
    { client := clientMemory sampleServices {} earlier, node := (attemptAfter blocks).node }

theorem resultAfter_first : resultAfter [] 1 = .ok (sampleId 7) (final (resultAfter [] 1)) :=
  eq_ok_of_returned (by decide +kernel)

/-- Without a failed call before it the block registers the node. -/
theorem carries_nodeAdd_first :
    (final (resultAfter [] 1)).built =
        [walletMessage ++ Message.serialize (.nodeAdd ⟨⟨LogSync.sampleNode 3⟩⟩)] ↔
      AllFailEarly sampleServices {} [] :=
  carries_nodeAdd_iff sampleServices [] (attemptAfter 1) (sampleId 7) (final (resultAfter [] 1))
    ⟨LogSync.sampleNode 3⟩ resultAfter_first (by decide +kernel) (by decide +kernel)

/-- A first call on an empty log is refused for want of ancestors; then the blocks of the other
nodes come in. The node is still unregistered, and its first saved block says nothing of it. -/
theorem refused_loses_nodeAdd :
    (saveAll sampleProvider 20 registrations { db := {} }).isSome = true ∧
    returned (resultAfter [] 0) = none ∧
    returned (resultAfter [attemptAfter 0] 3) = some (sampleId 7) ∧
    (final (resultAfter [attemptAfter 0] 3)).client.nodePublicKey = some ⟨LogSync.sampleNode 3⟩ ∧
    (attemptAfter 3).node.tables.db.nodeInfos.lookup
      (sampleProvider.crypto.fingerprint ⟨LogSync.sampleNode 3⟩) = none ∧
    (final (resultAfter [attemptAfter 0] 3)).built = [walletMessage] := by
  decide +kernel

end Vds.DhtNetwork

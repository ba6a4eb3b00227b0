import Vds.DhtNetwork.Route
import Vds.Library.Fallible
import Vds.Library.LabelledRun

/-! The timer of `dht_route`: the counter of unanswered pings of each node, over runs of the operations
that change the table. -/

namespace Vds.DhtNetwork

open DhtObjectId Library.LabelledRun

variable {α : Type}

/-- The id of a node and the address behind it, which `bucket` tells its nodes apart by. -/
def RouteNode.key (node : RouteNode α) : ConstDataBuffer × α := (node.nodeId, node.proxySession.address)

namespace DhtRoute

/-- `get_neighbors` -/
def getNeighbors (route : DhtRoute α) : List (RouteNode α) :=
  route.allNodes.filter fun p => p.hops = 0

/-- The first loop of `bucket::on_timer`: `pinged_++` -/
def bucketOnTimer (nodes : List (RouteNode α)) : List (RouteNode α) :=
  nodes.map fun p => { p with pinged := p.pinged + 1 }

theorem mem_bucketOnTimer {nodes : List (RouteNode α)} {node : RouteNode α} (h : node ∈ bucketOnTimer nodes) :
    ∃ old ∈ nodes, old.nodeId = node.nodeId := by
  obtain ⟨old, hold, rfl⟩ := List.mem_map.1 h
  exact ⟨old, hold, rfl⟩

variable [DecidableEq α]

/-- A bucket, if there is one, with its nodes changed. -/
def updateBucket (route : DhtRoute α) (index : Nat) (f : List (RouteNode α) → List (RouteNode α))
    (hf : ∀ nodes, ∀ node ∈ f nodes, ∃ old ∈ nodes, old.nodeId = node.nodeId) : DhtRoute α :=
  match hfind : route.buckets.find index with
  | none => route
  | some nodes =>
    { route with
      buckets := route.buckets.assign index (f nodes)
      placed := Placed.assign route.placed fun node hnode => by
        obtain ⟨old, hold, hid⟩ := hf nodes node hnode
        rw [← hid]
        exact route.placed _ (SortedMap.mem_of_lookup hfind) old hold }

/-- `bucket::on_timer` of a bucket of the table, as far as it changes the table. -/
def timer (route : DhtRoute α) (index : Nat) : DhtRoute α :=
  route.updateBucket index bucketOnTimer fun _ _ => mem_bucketOnTimer

/-- `ping_buckets` over the buckets with these numbers: each bucket counts, then pings its nodes, and
the first ping that fails ends the loop. -/
def pingBucketsLoop (pingNode : RouteNode α → Expected Unit) :
    List Nat → DhtRoute α → Expected Unit × DhtRoute α
  | [], route => (.ok (), route)
  | index :: rest, route =>
    match ((route.buckets.find index).getD []).forM pingNode with
    | .error e => (.error e, route.timer index)
    | .ok () => pingBucketsLoop pingNode rest (route.timer index)

/-- `on_timer`, when no other operation comes between its steps. -/
def onTimer (pingNode : RouteNode α → Expected Unit) (route : DhtRoute α) : Expected Unit × DhtRoute α :=
  pingBucketsLoop pingNode (route.buckets.entries.map Prod.fst) route

/-- `bucket::mark_pinged` -/
def bucketMarkPinged (targetNode : ConstDataBuffer) (address : α) :
    List (RouteNode α) → List (RouteNode α)
  | [] => []
  | p :: nodes =>
    if p.nodeId = targetNode ∧ p.proxySession.address = address then { p with pinged := 0 } :: nodes
    else p :: bucketMarkPinged targetNode address nodes

theorem mem_bucketMarkPinged {targetNode : ConstDataBuffer} {address : α} {nodes : List (RouteNode α)}
    {node : RouteNode α} (h : node ∈ bucketMarkPinged targetNode address nodes) :
    ∃ old ∈ nodes, old.nodeId = node.nodeId := by
  induction nodes with
  | nil => cases h
  | cons p nodes ih =>
    unfold bucketMarkPinged at h
    split_ifs at h
    · rcases List.mem_cons.1 h with rfl | h
      · exact ⟨p, List.mem_cons_self, rfl⟩
      · exact ⟨node, List.mem_cons_of_mem p h, rfl⟩
    · rcases List.mem_cons.1 h with rfl | h
      · exact ⟨node, List.mem_cons_self, rfl⟩
      · obtain ⟨old, hold, hid⟩ := ih h
        exact ⟨old, List.mem_cons_of_mem p hold, hid⟩

theorem keys_bucketMarkPinged (targetNode : ConstDataBuffer) (address : α) (nodes : List (RouteNode α)) :
    (bucketMarkPinged targetNode address nodes).map RouteNode.key = nodes.map RouteNode.key := by
  induction nodes with
  | nil => rfl
  | cons p nodes ih =>
    unfold bucketMarkPinged
    split_ifs
    · rfl
    · rw [List.map_cons, List.map_cons, ih]

def markPinged (route : DhtRoute α) (targetNode : ConstDataBuffer) (address : α) : DhtRoute α :=
  route.updateBucket (distanceExp route.currentNodeId targetNode) (bucketMarkPinged targetNode address)
    fun _ _ => mem_bucketMarkPinged

/-- `bucket::remove_session` -/
def bucketRemoveSession (address : α) (nodes : List (RouteNode α)) : List (RouteNode α) :=
  nodes.filter fun p => p.proxySession.address ≠ address

def removeSession (route : DhtRoute α) (address : α) : DhtRoute α where
  currentNodeId := route.currentNodeId
  buckets := route.buckets.mapValues (bucketRemoveSession address)
  placed := by
    intro bucket hbucket node hnode
    obtain ⟨old, hold, rfl⟩ := List.mem_map.1 hbucket
    exact route.placed old hold node (List.mem_of_mem_filter hnode)

end DhtRoute

/-! ### Runs -/

/-- The operations that change the table. `on_timer` takes one step for each bucket that it reaches,
and others may come between them. -/
inductive RouteStep (α : Type)
  | addNode (id : ConstDataBuffer) (proxySession : RouteSession α) (hops : UInt8) (allowSkip : Bool)
  | timer (index : Nat)
  | markPinged (targetNode : ConstDataBuffer) (address : α)
  | removeSession (address : α)

/-- The table, and how many ticks of its bucket each node has seen since it was pinged or set. -/
structure TimedRoute (α : Type) where
  route : DhtRoute α
  silence : ConstDataBuffer × α → Nat

/-! ### What a search gives -/

namespace DhtRoute

/-- Every node in the result is good. -/
def AllGood (resultNodes : ResultNodes α) : Prop :=
  ∀ e ∈ resultNodes, ∀ f ∈ e.2, f.2.isGood = true

theorem allGood_assign {resultNodes : ResultNodes α} (h : AllGood resultNodes) {key : ConstDataBuffer}
    {entries : List (ConstDataBuffer × RouteNode α)} (hentries : ∀ f ∈ entries, f.2.isGood = true) :
    AllGood (SortedMap.assign bufferLess key entries resultNodes) := by
  intro e he f hf
  rcases (SortedMap.mem_assign bufferLess).1 he with rfl | ⟨hold, -⟩
  · exact hentries f hf
  · exact h e hold f hf

theorem AllGood.added {resultNodes : ResultNodes α} (h : AllGood resultNodes) (targetId : ConstDataBuffer)
    {node : RouteNode α} (hnode : node.isGood = true) :
    AllGood (addResult targetId node resultNodes).1 := by
  have hold : ∀ f ∈ (resultNodes.lookup (distance node.nodeId targetId)).getD [], f.2.isGood = true := by
    intro f hf
    cases hlookup : resultNodes.lookup (distance node.nodeId targetId) with
    | none =>
      rw [hlookup] at hf
      cases hf
    | some entries =>
      rw [hlookup] at hf
      exact h _ (SortedMap.mem_of_lookup hlookup) f hf
  have hnew : ∀ f ∈ SortedMap.assign bufferLess node.nodeId node
      ((resultNodes.lookup (distance node.nodeId targetId)).getD []), f.2.isGood = true := by
    intro f hf
    rcases (SortedMap.mem_assign bufferLess).1 hf with rfl | ⟨hf, -⟩
    · exact hnode
    · exact hold f hf
  simp only [addResult]
  split
  · exact allGood_assign h hnew
  · split_ifs
    · exact allGood_assign h hnew
    · exact allGood_assign h hold

theorem AllGood.looked (targetId : ConstDataBuffer) (filter : RouteNode α → Expected Bool)
    (nodes : List (RouteNode α)) {resultNodes : ResultNodes α} (h : AllGood resultNodes) (found : Nat)
    {result : ResultNodes α × Nat} (hloop : lookingLoop targetId filter nodes resultNodes found = .ok result) :
    AllGood result.1 := by
  induction nodes generalizing resultNodes found with
  | nil =>
    cases hloop
    exact h
  | cons node nodes ih =>
    unfold lookingLoop at hloop
    split_ifs at hloop with hbad
    · exact ih h found hloop
    · cases hfilter : filter node with
      | error e =>
        rw [hfilter] at hloop
        cases hloop
      | ok accepted =>
        rw [hfilter] at hloop
        change (if !accepted then _ else _) = _ at hloop
        split_ifs at hloop
        · exact ih h found hloop
        · have hgood : node.isGood = true := by simpa using hbad
          exact ih (h.added targetId hgood) _ hloop

theorem AllGood.lookingNodes {route : DhtRoute α} {targetId : ConstDataBuffer}
    {filter : RouteNode α → Expected Bool} {resultNodes : ResultNodes α} (h : AllGood resultNodes) {index : Nat}
    {result : ResultNodes α × Nat}
    (hlook : route.lookingNodes targetId filter resultNodes index = .ok result) : AllGood result.1 := by
  unfold DhtRoute.lookingNodes at hlook
  split at hlook
  · cases hlook
    exact h
  · exact h.looked targetId filter _ 0 hlook

theorem AllGood.lookingIf {route : DhtRoute α} {targetId : ConstDataBuffer}
    {filter : RouteNode α → Expected Bool} {resultNodes : ResultNodes α} (h : AllGood resultNodes) {index : Nat}
    {p : Prop} [Decidable p] {result : ResultNodes α × Nat}
    (hlook : (if p then route.lookingNodes targetId filter resultNodes index else .ok (resultNodes, 0)) =
      .ok result) : AllGood result.1 := by
  split_ifs at hlook
  · exact h.lookingNodes hlook
  · cases hlook
    exact h

theorem AllGood.searched {route : DhtRoute α} {targetId : ConstDataBuffer} {maxCount : Nat}
    {filter : RouteNode α → Expected Bool} {index minIndex maxIndex : Nat} (fuel distance : Nat)
    {resultNodes result : ResultNodes α} (h : AllGood resultNodes) (count : Nat)
    (hloop : route.searchLoop targetId maxCount filter index minIndex maxIndex fuel distance resultNodes count =
      .ok result) : AllGood result := by
  induction fuel generalizing distance resultNodes count with
  | zero => cases hloop
  | succ fuel ih =>
    unfold searchLoop at hloop
    by_cases hgo : resultNodes.length < maxCount ∧
        (index + distance ≤ maxIndex ∨ distance ≤ index ∧ minIndex ≤ index - distance)
    · rw [if_pos hgo] at hloop
      obtain ⟨above, habove, hrest⟩ := Library.Fallible.bind_eq_ok.1 hloop
      obtain ⟨below, hbelow, hend⟩ := Library.Fallible.bind_eq_ok.1 hrest
      have hboth := (h.lookingIf habove).lookingIf hbelow
      change (if maxCount < count + above.2 + below.2 then pure below.1 else _) = _ at hend
      split_ifs at hend
      · cases hend
        exact hboth
      · exact ih (distance + 1) hboth _ hend
    · rw [if_neg hgo] at hloop
      cases hloop
      exact h

/-- Whatever the filter is, a search gives nodes that are good. -/
theorem mem_candidates_good {route : DhtRoute α} {targetId : ConstDataBuffer} {maxCount : Nat}
    {filter : RouteNode α → Expected Bool} {resultNodes : ResultNodes α}
    (h : route.searchNodes targetId maxCount filter = .ok resultNodes) {node : RouteNode α}
    (hnode : node ∈ candidates resultNodes) : node.isGood = true := by
  have hgood : AllGood resultNodes := by
    have hnil : AllGood ([] : ResultNodes α) := fun e he => absurd he List.not_mem_nil
    unfold searchNodes at h
    split at h
    · exact AllGood.searched _ 0 hnil 0 h
    · cases h
      exact hnil
  obtain ⟨e, he, hin⟩ := List.mem_flatMap.1 hnode
  obtain ⟨f, hf, rfl⟩ := List.mem_map.1 hin
  exact hgood e he f hf

end DhtRoute

namespace TimedRoute

section Step

variable [DecidableEq α]

def addNode (t : TimedRoute α) (id : ConstDataBuffer) (proxySession : RouteSession α) (hops : UInt8)
    (allowSkip : Bool) : TimedRoute α :=
  let added := t.route.addNode id proxySession hops allowSkip
  { route := added.2
    silence := if added.1 then Function.update t.silence (id, proxySession.address) 0 else t.silence }

def timer (t : TimedRoute α) (index : Nat) : TimedRoute α where
  route := t.route.timer index
  silence key := if distanceExp t.route.currentNodeId key.1 = index then t.silence key + 1 else t.silence key

def markPinged (t : TimedRoute α) (targetNode : ConstDataBuffer) (address : α) : TimedRoute α where
  route := t.route.markPinged targetNode address
  silence := Function.update t.silence (targetNode, address) 0

def removeSession (t : TimedRoute α) (address : α) : TimedRoute α :=
  { t with route := t.route.removeSession address }

def step (t : TimedRoute α) : RouteStep α → Option (TimedRoute α)
  | .addNode id proxySession hops allowSkip => some (t.addNode id proxySession hops allowSkip)
  | .timer index => some (t.timer index)
  | .markPinged targetNode address => some (t.markPinged targetNode address)
  | .removeSession address => some (t.removeSession address)

end Step

/-- The table when the node starts. -/
def start (currentNodeId : ConstDataBuffer) : TimedRoute α where
  route := { currentNodeId := currentNodeId, placed := fun _ h => absurd h List.not_mem_nil }
  silence _ := 0

/-- A node that has been silent for ten ticks is neither good nor used. -/
def SilentUnused (t : TimedRoute α) : Prop :=
  ∀ node ∈ t.route.allNodes, 10 ≤ t.silence node.key →
    node.isGood = false ∧ node ∉ t.route.getNeighbors ∧
      ∀ targetId maxCount filter resultNodes,
        t.route.searchNodes targetId maxCount filter = .ok resultNodes →
          node ∉ DhtRoute.candidates resultNodes

/-- No node has been silent for as many ticks as the counter can tell apart, and no neighbour for ten. -/
def Answering (t : TimedRoute α) : Prop :=
  ∀ node ∈ t.route.allNodes, t.silence node.key < 256 ∧ (node.hops = 0 → t.silence node.key < 10)

/-! ### What the buckets count -/

section Buckets

variable [DecidableEq α]

/-- The nodes of a bucket are told apart by their keys, and each counts the ticks of its silence in a
byte. -/
structure Counts (silence : ConstDataBuffer × α → Nat) (nodes : List (RouteNode α)) : Prop where
  unique : (nodes.map RouteNode.key).Nodup
  pinged : ∀ node ∈ nodes, node.pinged.toNat = silence node.key % 256

variable {silence silence' : ConstDataBuffer × α → Nat} {nodes : List (RouteNode α)}

omit [DecidableEq α] in
theorem Counts.congr (h : Counts silence nodes) (hsame : ∀ node ∈ nodes, silence' node.key = silence node.key) :
    Counts silence' nodes where
  unique := h.unique
  pinged node hnode := by rw [hsame node hnode, h.pinged node hnode]

omit [DecidableEq α] in
theorem Counts.onTimer (h : Counts silence nodes)
    (hsilence : ∀ node ∈ nodes, silence' node.key = silence node.key + 1) :
    Counts silence' (DhtRoute.bucketOnTimer nodes) := by
  constructor
  · unfold DhtRoute.bucketOnTimer
    rw [List.map_map]
    exact h.unique
  · intro node hnode
    obtain ⟨old, hold, rfl⟩ := List.mem_map.1 hnode
    have hcount := h.pinged old hold
    change (old.pinged + 1).toNat = silence' old.key % 256
    rw [hsilence old hold, UInt8.toNat_add, hcount]
    change (silence old.key % 256 + 1) % 256 = _
    omega

theorem Counts.addNode (h : Counts silence nodes) (id : ConstDataBuffer) (proxySession : RouteSession α)
    (hops : UInt8) (allowSkip : Bool) :
    let added := DhtRoute.bucketAddNode nodes id proxySession hops allowSkip
    Counts (if added.1 then Function.update silence (id, proxySession.address) 0 else silence) added.2 := by
  intro added
  set node : RouteNode α := { nodeId := id, proxySession := proxySession, hops := hops } with hnode
  by_cases hany : nodes.any fun p => p.nodeId = id ∧ p.proxySession.address = proxySession.address
  · have hadded : added = (false, nodes) := if_pos hany
    rw [hadded]
    exact h
  have hfresh : node.key ∉ nodes.map RouteNode.key := by
    intro hmem
    obtain ⟨p, hp, hkey⟩ := List.mem_map.1 hmem
    apply hany
    rw [List.any_eq_true]
    refine ⟨p, hp, ?_⟩
    obtain ⟨hid, haddress⟩ := Prod.mk.inj hkey
    simp [hid, haddress, hnode]
  have hold : ∀ p ∈ nodes, p.pinged.toNat = Function.update silence node.key 0 p.key % 256 := by
    intro p hp
    have hne : p.key ≠ node.key := fun hkey => hfresh (hkey ▸ List.mem_map_of_mem hp)
    rw [Function.update_of_ne hne]
    exact h.pinged p hp
  have hnew : node.pinged.toNat = Function.update silence node.key 0 node.key % 256 := by
    rw [Function.update_self]
    rfl
  by_cases hroom : !allowSkip ∨ hops = 0 ∨ nodes.length < maxNodes
  · have hadded : added = (true, nodes ++ [node]) := (if_neg hany).trans (if_pos hroom)
    rw [hadded]
    constructor
    · rw [List.map_append, List.nodup_append]
      refine ⟨h.unique, List.nodup_singleton _, fun key hkey key' hkey' heq => ?_⟩
      rw [heq, List.mem_singleton.1 hkey'] at hkey
      exact hfresh hkey
    · intro p hp
      rcases List.mem_append.1 hp with hp | hp
      · exact hold p hp
      · rw [List.mem_singleton.1 hp]
        exact hnew
  cases hfind : nodes.findIdx? fun p => !p.isGood with
  | none =>
    have hadded : added = (false, nodes) :=
      (if_neg hany).trans ((if_neg hroom).trans (by rw [hfind]))
    rw [hadded]
    exact h
  | some i =>
    have hadded : added = (true, nodes.set i node) :=
      (if_neg hany).trans ((if_neg hroom).trans (by rw [hfind]))
    rw [hadded]
    constructor
    · rw [List.map_set]
      exact h.unique.set hfresh
    · intro p hp
      rcases List.mem_or_eq_of_mem_set hp with hp | rfl
      · exact hold p hp
      · exact hnew

theorem Counts.markPinged (h : Counts silence nodes) (targetNode : ConstDataBuffer) (address : α) :
    Counts (Function.update silence (targetNode, address) 0)
      (DhtRoute.bucketMarkPinged targetNode address nodes) := by
  induction nodes with
  | nil => exact ⟨List.nodup_nil, fun _ hnode => absurd hnode List.not_mem_nil⟩
  | cons p nodes ih =>
    obtain ⟨hfresh, hunique⟩ := List.nodup_cons.1 h.unique
    have hrest : Counts silence nodes :=
      ⟨hunique, fun node hnode => h.pinged node (List.mem_cons_of_mem p hnode)⟩
    unfold DhtRoute.bucketMarkPinged
    split_ifs with hp
    · have hkey : p.key = (targetNode, address) := Prod.ext hp.1 hp.2
      constructor
      · exact h.unique
      · refine List.forall_mem_cons.2 ⟨?_, fun node hnode => ?_⟩
        · change (0 : UInt8).toNat = Function.update silence (targetNode, address) 0 p.key % 256
          rw [hkey, Function.update_self]
          rfl
        · have hne : node.key ≠ (targetNode, address) := by
            intro heq
            exact hfresh (hkey ▸ heq ▸ List.mem_map_of_mem hnode)
          rw [Function.update_of_ne hne]
          exact hrest.pinged node hnode
    · have hne : p.key ≠ (targetNode, address) := fun hkey =>
        hp ⟨(Prod.mk.inj hkey).1, (Prod.mk.inj hkey).2⟩
      have hmarked := ih hrest
      constructor
      · refine List.nodup_cons.2 ⟨?_, hmarked.unique⟩
        rw [DhtRoute.keys_bucketMarkPinged]
        exact hfresh
      · refine List.forall_mem_cons.2 ⟨?_, hmarked.pinged⟩
        rw [Function.update_of_ne hne]
        exact h.pinged p List.mem_cons_self

theorem Counts.removeSession (h : Counts silence nodes) (address : α) :
    Counts silence (DhtRoute.bucketRemoveSession address nodes) := by
  constructor
  · exact h.unique.sublist ((List.filter_sublist (l := nodes)).map RouteNode.key)
  · intro node hnode
    exact h.pinged node (List.mem_of_mem_filter hnode)

end Buckets

/-! ### What a run keeps -/

section Runs

variable [DecidableEq α]

/-- A node of the bucket was in it before, or is the one that has been put there. -/
theorem mem_bucketAddNode_cases {nodes : List (RouteNode α)} {id : ConstDataBuffer}
    {proxySession : RouteSession α} {hops : UInt8} {allowSkip : Bool} {node : RouteNode α}
    (h : node ∈ (DhtRoute.bucketAddNode nodes id proxySession hops allowSkip).2) :
    ((DhtRoute.bucketAddNode nodes id proxySession hops allowSkip).1 = true ∧
      node.key = (id, proxySession.address)) ∨ node ∈ nodes := by
  unfold DhtRoute.bucketAddNode at h ⊢
  split_ifs at h ⊢
  · exact .inr h
  · rcases List.mem_append.1 h with h | h
    · exact .inr h
    · exact .inl ⟨rfl, by rw [List.mem_singleton.1 h]; rfl⟩
  · split at h
    · rcases List.mem_or_eq_of_mem_set h with h | rfl
      · exact .inr h
      · exact .inl ⟨rfl, rfl⟩
    · exact .inr h

/-- What `add_node` leaves in the buckets. -/
theorem addNode_spec (route : DhtRoute α) (id : ConstDataBuffer) (proxySession : RouteSession α)
    (hops : UInt8) (allowSkip : Bool) : route.addNode id proxySession hops allowSkip = (false, route) ∨
      let nodes := (route.buckets.find (distanceExp route.currentNodeId id)).getD []
      let added := DhtRoute.bucketAddNode nodes id proxySession hops allowSkip
      (route.addNode id proxySession hops allowSkip).1 = added.1 ∧
        (route.addNode id proxySession hops allowSkip).2.buckets =
          route.buckets.assign (distanceExp route.currentNodeId id) added.2 := by
  unfold DhtRoute.addNode
  split_ifs
  · exact .inl rfl
  · exact .inr ⟨rfl, rfl⟩

theorem mem_addNode {t : TimedRoute α} {id : ConstDataBuffer} {proxySession : RouteSession α} {hops : UInt8}
    {allowSkip : Bool} {node : RouteNode α}
    (hnode : node ∈ (t.addNode id proxySession hops allowSkip).route.allNodes) :
    ((t.route.addNode id proxySession hops allowSkip).1 = true ∧ node.key = (id, proxySession.address)) ∨
      node ∈ t.route.allNodes := by
  change node ∈ (t.route.addNode id proxySession hops allowSkip).2.allNodes at hnode
  rcases addNode_spec t.route id proxySession hops allowSkip with hsame | ⟨hadded, hbuckets⟩
  · rw [hsame] at hnode
    exact .inr hnode
  · rw [hadded]
    obtain ⟨bucket, hbucket, hin⟩ := DhtRoute.mem_allNodes.1 hnode
    rw [hbuckets] at hbucket
    rcases OrderedMap.mem_assign_iff.1 hbucket with rfl | ⟨-, hold⟩
    · rcases mem_bucketAddNode_cases hin with hnew | hold
      · exact .inl hnew
      · right
        cases hfind : t.route.buckets.find (distanceExp t.route.currentNodeId id) with
        | none =>
          rw [hfind] at hold
          cases hold
        | some nodes =>
          rw [hfind] at hold
          exact DhtRoute.mem_allNodes.2 ⟨_, OrderedMap.find_eq_some_iff.1 hfind, hold⟩
    · exact .inr (DhtRoute.mem_allNodes.2 ⟨bucket, hold, hin⟩)

theorem updateBucket_spec {route : DhtRoute α} {index : Nat}
    {f : List (RouteNode α) → List (RouteNode α)}
    {hf : ∀ nodes, ∀ node ∈ f nodes, ∃ old ∈ nodes, old.nodeId = node.nodeId} :
    (route.updateBucket index f hf).currentNodeId = route.currentNodeId ∧
      ∀ e ∈ (route.updateBucket index f hf).buckets.entries,
        (e.1 ≠ index ∧ e ∈ route.buckets.entries) ∨
          ∃ nodes, (index, nodes) ∈ route.buckets.entries ∧ e = (index, f nodes) := by
  unfold DhtRoute.updateBucket
  split
  · rename_i hnone
    refine ⟨rfl, fun e he => .inl ⟨?_, he⟩⟩
    rintro rfl
    have hsome := OrderedMap.find_eq_some_iff.2 he
    rw [hnone] at hsome
    cases hsome
  · rename_i nodes hsome
    refine ⟨rfl, fun e he => ?_⟩
    rcases OrderedMap.mem_assign_iff.1 he with rfl | hold
    · exact .inr ⟨nodes, OrderedMap.find_eq_some_iff.1 hsome, rfl⟩
    · exact .inl hold

/-- Every bucket counts the silence of its nodes. -/
def Counting (t : TimedRoute α) : Prop := ∀ bucket ∈ t.route.buckets.entries, Counts t.silence bucket.2

theorem counting_timer {t : TimedRoute α} (h : t.Counting) (index : Nat) : (t.timer index).Counting := by
  intro bucket hbucket
  obtain ⟨-, hentries⟩ := @updateBucket_spec α _ t.route index DhtRoute.bucketOnTimer
    fun _ _ => DhtRoute.mem_bucketOnTimer
  rcases hentries bucket hbucket with ⟨hne, hold⟩ | ⟨nodes, hold, rfl⟩
  · refine (h bucket hold).congr fun node hnode => if_neg ?_
    rw [RouteNode.key, t.route.placed bucket hold node hnode]
    exact hne
  · refine (h _ hold).onTimer fun node hnode => if_pos ?_
    exact t.route.placed _ hold node hnode

theorem counting_markPinged {t : TimedRoute α} (h : t.Counting) (targetNode : ConstDataBuffer) (address : α) :
    (t.markPinged targetNode address).Counting := by
  intro bucket hbucket
  obtain ⟨-, hentries⟩ := @updateBucket_spec α _ t.route
    (distanceExp t.route.currentNodeId targetNode) (DhtRoute.bucketMarkPinged targetNode address)
    fun _ _ => DhtRoute.mem_bucketMarkPinged
  rcases hentries bucket hbucket with ⟨hne, hold⟩ | ⟨nodes, hold, rfl⟩
  · refine (h bucket hold).congr fun node hnode => Function.update_of_ne ?_ _ _
    intro hkey
    apply hne
    rw [← t.route.placed bucket hold node hnode]
    exact congrArg (distanceExp t.route.currentNodeId) (Prod.mk.inj hkey).1
  · exact (h _ hold).markPinged targetNode address

theorem counting_removeSession {t : TimedRoute α} (h : t.Counting) (address : α) :
    (t.removeSession address).Counting := by
  intro bucket hbucket
  obtain ⟨old, hold, rfl⟩ := List.mem_map.1 hbucket
  exact (h old hold).removeSession address

theorem counting_addNode {t : TimedRoute α} (h : t.Counting) (id : ConstDataBuffer)
    (proxySession : RouteSession α) (hops : UInt8) (allowSkip : Bool) :
    (t.addNode id proxySession hops allowSkip).Counting := by
  rcases addNode_spec t.route id proxySession hops allowSkip with hsame | ⟨hadded, hbuckets⟩
  · have heq : t.addNode id proxySession hops allowSkip = t := by
      unfold TimedRoute.addNode
      rw [hsame]
      rfl
    rw [heq]
    exact h
  set index := distanceExp t.route.currentNodeId id with hindex
  set nodes := (t.route.buckets.find index).getD [] with hnodes
  have hcounts : Counts t.silence nodes := by
    cases hfind : t.route.buckets.find index with
    | none =>
      rw [hnodes, hfind]
      exact ⟨List.nodup_nil, fun _ hnode => absurd hnode List.not_mem_nil⟩
    | some old =>
      rw [hnodes, hfind]
      exact h _ (OrderedMap.find_eq_some_iff.1 hfind)
  have hsilence : (t.addNode id proxySession hops allowSkip).silence =
      if (DhtRoute.bucketAddNode nodes id proxySession hops allowSkip).1 then
        Function.update t.silence (id, proxySession.address) 0 else t.silence := by
    unfold TimedRoute.addNode
    rw [← hadded]
  intro bucket hbucket
  change bucket ∈ (t.route.addNode id proxySession hops allowSkip).2.buckets.entries at hbucket
  rw [hbuckets] at hbucket
  rw [hsilence]
  rcases OrderedMap.mem_assign_iff.1 hbucket with rfl | ⟨hne, hold⟩
  · exact hcounts.addNode id proxySession hops allowSkip
  · refine (h bucket hold).congr fun node hnode => ?_
    split_ifs
    · refine Function.update_of_ne ?_ _ _
      intro hkey
      apply hne
      rw [← t.route.placed bucket hold node hnode]
      exact congrArg (distanceExp t.route.currentNodeId) (Prod.mk.inj hkey).1
    · rfl

theorem counting_step {t t' : TimedRoute α} {a : RouteStep α} (h : t.Counting) (hstep : t.step a = some t') :
    t'.Counting := by
  cases a with
  | addNode id proxySession hops allowSkip =>
    cases hstep
    exact counting_addNode h id proxySession hops allowSkip
  | timer index =>
    cases hstep
    exact counting_timer h index
  | markPinged targetNode address =>
    cases hstep
    exact counting_markPinged h targetNode address
  | removeSession address =>
    cases hstep
    exact counting_removeSession h address

/-- A step makes a silence longer by one tick at most. -/
theorem silence_step_le {t t' : TimedRoute α} {a : RouteStep α} (hstep : t.step a = some t')
    (key : ConstDataBuffer × α) : t'.silence key ≤ t.silence key + 1 := by
  have hupdate : ∀ k, Function.update t.silence k 0 key ≤ t.silence key + 1 := by
    intro k
    by_cases hk : key = k
    · rw [hk, Function.update_self]
      exact Nat.zero_le _
    · rw [Function.update_of_ne hk]
      exact Nat.le_succ _
  cases a with
  | addNode id proxySession hops allowSkip =>
    cases hstep
    change (if _ then _ else _ : ConstDataBuffer × α → Nat) key ≤ _
    split_ifs
    · exact hupdate _
    · exact Nat.le_succ _
  | timer index =>
    cases hstep
    change (if _ then _ else _) ≤ _
    split_ifs
    · exact le_rfl
    · exact Nat.le_succ _
  | markPinged targetNode address =>
    cases hstep
    exact hupdate _
  | removeSession address =>
    cases hstep
    exact Nat.le_succ _

omit [DecidableEq α] in
theorem isGood_iff (node : RouteNode α) : node.isGood = true ↔ node.pinged.toNat < 10 := by
  unfold RouteNode.isGood
  rw [decide_eq_true_iff]
  exact UInt8.lt_iff_toNat_lt

/-- A node of the table was in it before, or is set anew. -/
theorem mem_allNodes_step {t t' : TimedRoute α} {a : RouteStep α} (hstep : t.step a = some t')
    {node : RouteNode α} (hnode : node ∈ t'.route.allNodes) :
    t'.silence node.key = 0 ∨ ∃ old ∈ t.route.allNodes, old.key = node.key := by
  have hkeys : ∀ {nodes nodes' : List (RouteNode α)} {index : Nat}, (index, nodes) ∈ t.route.buckets.entries →
      nodes'.map RouteNode.key = nodes.map RouteNode.key → node ∈ nodes' →
      ∃ old ∈ t.route.allNodes, old.key = node.key := by
    intro nodes nodes' index hmem hsame hin
    have hkey : node.key ∈ nodes.map RouteNode.key := hsame ▸ List.mem_map_of_mem hin
    obtain ⟨old, hold, heq⟩ := List.mem_map.1 hkey
    exact ⟨old, DhtRoute.mem_allNodes.2 ⟨_, hmem, hold⟩, heq⟩
  obtain ⟨bucket, hbucket, hin⟩ := DhtRoute.mem_allNodes.1 hnode
  cases a with
  | addNode id proxySession hops allowSkip =>
    cases hstep
    rcases mem_addNode hnode with ⟨hadded, hkey⟩ | hold
    · left
      change (if _ then _ else _ : ConstDataBuffer × α → Nat) node.key = 0
      rw [if_pos hadded, hkey, Function.update_self]
    · exact .inr ⟨node, hold, rfl⟩
  | timer index =>
    cases hstep
    right
    obtain ⟨-, hentries⟩ := @updateBucket_spec α _ t.route index DhtRoute.bucketOnTimer
      fun _ _ => DhtRoute.mem_bucketOnTimer
    rcases hentries bucket hbucket with ⟨-, hold⟩ | ⟨nodes, hold, rfl⟩
    · exact hkeys hold rfl hin
    · refine hkeys hold ?_ hin
      rw [DhtRoute.bucketOnTimer, List.map_map]
      rfl
  | markPinged targetNode address =>
    cases hstep
    right
    obtain ⟨-, hentries⟩ := @updateBucket_spec α _ t.route
      (distanceExp t.route.currentNodeId targetNode) (DhtRoute.bucketMarkPinged targetNode address)
      fun _ _ => DhtRoute.mem_bucketMarkPinged
    rcases hentries bucket hbucket with ⟨-, hold⟩ | ⟨nodes, hold, rfl⟩
    · exact hkeys hold rfl hin
    · exact hkeys hold (DhtRoute.keys_bucketMarkPinged targetNode address nodes) hin
  | removeSession address =>
    cases hstep
    right
    obtain ⟨old, hold, rfl⟩ := List.mem_map.1 hbucket
    exact ⟨node, DhtRoute.mem_allNodes.2 ⟨old, hold, List.mem_of_mem_filter hin⟩, rfl⟩

theorem answering_step {t t' : TimedRoute α} {a : RouteStep α} (h : t.Answering) (hcounting : t'.Counting)
    (hunused : t'.SilentUnused) (hstep : t.step a = some t') : t'.Answering := by
  intro node hnode
  have hcount : node.pinged.toNat = t'.silence node.key % 256 := by
    obtain ⟨bucket, hbucket, hin⟩ := DhtRoute.mem_allNodes.1 hnode
    exact (hcounting bucket hbucket).pinged node hin
  have hle : t'.silence node.key ≤ 256 := by
    rcases mem_allNodes_step hstep hnode with hzero | ⟨old, hold, hkey⟩
    · omega
    · have hone := silence_step_le hstep node.key
      have hlt := (h old hold).1
      rw [hkey] at hlt
      omega
  constructor
  · by_contra hlong
    have hsilent : 10 ≤ t'.silence node.key := by omega
    have hgood : node.isGood = true := by
      rw [isGood_iff]
      omega
    rw [(hunused node hnode hsilent).1] at hgood
    cases hgood
  · intro hhops
    by_contra hlong
    have hneighbour : node ∈ t'.route.getNeighbors := by
      unfold DhtRoute.getNeighbors
      rw [List.mem_filter]
      exact ⟨hnode, decide_eq_true hhops⟩
    exact (hunused node hnode (not_lt.1 hlong)).2.1 hneighbour

omit [DecidableEq α] in
theorem silentUnused_of_answering {t : TimedRoute α} (hcounting : t.Counting) (h : t.Answering) :
    t.SilentUnused := by
  intro node hnode hsilent
  obtain ⟨hlt, hneighbour⟩ := h node hnode
  have hbad : node.isGood = false := by
    obtain ⟨bucket, hbucket, hin⟩ := DhtRoute.mem_allNodes.1 hnode
    have hcount := (hcounting bucket hbucket).pinged node hin
    rw [← Bool.not_eq_true, isGood_iff]
    omega
  refine ⟨hbad, fun hmem => ?_, fun targetId maxCount filter resultNodes hsearch hmem => ?_⟩
  · have hhops := hneighbour (of_decide_eq_true (List.mem_filter.1 hmem).2)
    omega
  · have hgood := DhtRoute.mem_candidates_good hsearch hmem
    rw [hbad] at hgood
    cases hgood

omit [DecidableEq α] in
theorem answering_start (currentNodeId : ConstDataBuffer) : (start currentNodeId : TimedRoute α).Answering :=
  fun _ hnode => absurd hnode List.not_mem_nil

/-- In a run silent nodes stay unused exactly as long as no node is silent for 256 ticks and no neighbour
for ten. -/
theorem silentUnused_iff (currentNodeId : ConstDataBuffer) (actions : List (RouteStep α)) :
    Always step (start currentNodeId) actions SilentUnused ↔
      Always step (start currentNodeId) actions Answering := by
  have hcounting : Always step (start currentNodeId : TimedRoute α) actions Counting :=
    always_of_invariant (fun _ h => absurd h List.not_mem_nil) fun t a t' ht hstep => counting_step ht hstep
  constructor
  · intro hunused done hdone
    induction done using List.reverseRecOn with
    | nil =>
      intro t ht
      cases ht
      exact answering_start currentNodeId
    | append_singleton done a ih =>
      intro t' ht'
      obtain ⟨t, ht, hlast⟩ := run_concat_eq_some.1 ht'
      have hbefore := ih ((List.prefix_append done [a]).trans hdone) t ht
      exact answering_step hbefore (hcounting _ hdone t' ht') (hunused _ hdone t' ht') hlast
  · intro h done hdone t ht
    exact silentUnused_of_answering (hcounting done hdone t ht) (h done hdone t ht)

end Runs

/-- A node that does not answer 256 pings of the timer is good again. -/
theorem not_silentUnused_wrap :
    ¬Always step (start [0] : TimedRoute Unit)
      (.addNode [0x80] ⟨(), [1]⟩ 1 true :: List.replicate 256 (.timer 0)) SilentUnused := by
  intro h
  have hrun : ((run step (start [0] : TimedRoute Unit)
      (.addNode [0x80] ⟨(), [1]⟩ 1 true :: List.replicate 256 (.timer 0))).any fun t =>
        t.route.allNodes.any fun node => 10 ≤ t.silence node.key && node.isGood) = true := by
    decide +kernel
  obtain ⟨hsome, hany⟩ := (Option.any_eq_true_iff_get _ _).1 hrun
  obtain ⟨node, hnode, hboth⟩ := List.any_eq_true.1 hany
  rw [Bool.and_eq_true, decide_eq_true_iff] at hboth
  have hunused := h _ (List.prefix_refl _) _ (Option.some_get hsome).symm node hnode hboth.1
  rw [hunused.1] at hboth
  cases hboth.2

/-- `on_timer` takes the step of a timer for each bucket that it reaches. -/
theorem onTimer_reaches [DecidableEq α] (pingNode : RouteNode α → Expected Unit) (route : DhtRoute α) :
    ∃ reached, reached <+: route.buckets.entries.map Prod.fst ∧
      (route.onTimer pingNode).2 = reached.foldl DhtRoute.timer route := by
  unfold DhtRoute.onTimer
  generalize route.buckets.entries.map Prod.fst = indices
  induction indices generalizing route with
  | nil => exact ⟨[], List.prefix_refl _, rfl⟩
  | cons index rest ih =>
    unfold DhtRoute.pingBucketsLoop
    split
    · exact ⟨[index], by simp, rfl⟩
    · obtain ⟨reached, hreached, heq⟩ := ih (route.timer index)
      exact ⟨index :: reached, (List.cons_prefix_cons).2 ⟨rfl, hreached⟩, heq⟩

end TimedRoute

end Vds.DhtNetwork

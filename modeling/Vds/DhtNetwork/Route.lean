import Vds.Library.OrderedMap
import Vds.Library.SortedMap
import Vds.Kernel.Canonical

/-! The routing table `dht_route`: its buckets, and the search that looks at them outwards from the
bucket of the target. -/

namespace Vds.DhtNetwork

namespace DhtObjectId

/-- `dht_object_id::distance`: the bytes that only the longer id has are taken over. -/
def distance (left right : ConstDataBuffer) : ConstDataBuffer :=
  if left.length < right.length then
    List.zipWith (· ^^^ ·) left right ++ right.drop left.length
  else List.zipWith (· ^^^ ·) right left ++ left.drop right.length

/-- The loop over the mask: the first bit that is set. -/
def maskLoop (b : UInt8) : Nat → UInt8 → Nat → Nat
  | 0, _, result => result
  | bits + 1, mask, result => if mask ≤ b then result else maskLoop b bits (mask >>> 1) (result + 1)

def distanceExpLoop : Nat → ConstDataBuffer → ConstDataBuffer → Option Nat
  | i, l :: left, r :: right =>
    if l ^^^ r = 0 then distanceExpLoop (i + 1) left right
    else some (maskLoop (l ^^^ r) 8 0x80 (i <<< 3))
  | _, _, _ => none

/-- `dht_object_id::distance_exp`: the number of the first bit in which the ids differ. -/
def distanceExp (left right : ConstDataBuffer) : Nat :=
  match distanceExpLoop 0 left right with
  | some result => result
  | none => if left.length = right.length then 0 else (min left.length right.length) <<< 3

end DhtObjectId

open DhtObjectId

/-- The session behind a node: `α` are the network addresses. -/
structure RouteSession (α : Type) where
  address : α
  partnerNodeId : ConstDataBuffer
  deriving DecidableEq, Repr

/-- `dht_route::node` -/
structure RouteNode (α : Type) where
  nodeId : ConstDataBuffer
  proxySession : RouteSession α
  pinged : UInt8 := 0
  hops : UInt8
  deriving DecidableEq, Repr

variable {α : Type}

def RouteNode.isGood (node : RouteNode α) : Bool := node.pinged < 10

/-- `MAX_NODES` of a bucket. -/
def maxNodes : Nat := 8

/-- Every node stands in the bucket of its id. -/
def Placed (currentNodeId : ConstDataBuffer) (buckets : OrderedMap Nat (List (RouteNode α))) : Prop :=
  ∀ bucket ∈ buckets.entries, ∀ node ∈ bucket.2, distanceExp currentNodeId node.nodeId = bucket.1

structure DhtRoute (α : Type) where
  currentNodeId : ConstDataBuffer
  buckets : OrderedMap Nat (List (RouteNode α)) := OrderedMap.empty
  placed : Placed currentNodeId buckets

namespace DhtRoute

/-- `bucket::add_node` -/
def bucketAddNode [DecidableEq α] (nodes : List (RouteNode α)) (id : ConstDataBuffer)
    (proxySession : RouteSession α) (hops : UInt8) (allowSkip : Bool) : Bool × List (RouteNode α) :=
  let node : RouteNode α := { nodeId := id, proxySession := proxySession, hops := hops }
  if nodes.any fun p => p.nodeId = id ∧ p.proxySession.address = proxySession.address then (false, nodes)
  else if !allowSkip ∨ hops = 0 ∨ nodes.length < maxNodes then (true, nodes ++ [node])
  else
    match nodes.findIdx? fun p => !p.isGood with
    | some i => (true, nodes.set i node)
    | none => (false, nodes)

section AddNode

variable [DecidableEq α]

theorem mem_bucketAddNode {nodes : List (RouteNode α)} {id : ConstDataBuffer}
    {proxySession : RouteSession α} {hops : UInt8} {allowSkip : Bool} {node : RouteNode α}
    (h : node ∈ (bucketAddNode nodes id proxySession hops allowSkip).2) :
    node ∈ nodes ∨ node.nodeId = id := by
  unfold bucketAddNode at h
  split_ifs at h
  · exact .inl h
  · rcases List.mem_append.mp h with h | h
    · exact .inl h
    · exact .inr (by rw [List.mem_singleton.mp h])
  · split at h
    · rcases List.mem_or_eq_of_mem_set h with h | rfl
      · exact .inl h
      · exact .inr rfl
    · exact .inl h

theorem Placed.assign {currentNodeId : ConstDataBuffer} {buckets : OrderedMap Nat (List (RouteNode α))}
    (h : Placed currentNodeId buckets) {index : Nat} {nodes : List (RouteNode α)}
    (hnodes : ∀ node ∈ nodes, distanceExp currentNodeId node.nodeId = index) :
    Placed currentNodeId (buckets.assign index nodes) := by
  intro bucket hbucket node hnode
  rcases OrderedMap.mem_assign hbucket with rfl | hbucket
  · exact hnodes node hnode
  · exact h bucket hbucket node hnode

/-- `dht_route::add_node` -/
def addNode (route : DhtRoute α) (id : ConstDataBuffer) (proxySession : RouteSession α) (hops : UInt8)
    (allowSkip : Bool) : Bool × DhtRoute α :=
  if id = route.currentNodeId ∨ proxySession.partnerNodeId = route.currentNodeId then (false, route)
  else
    let index := distanceExp route.currentNodeId id
    let added := bucketAddNode ((route.buckets.find index).getD []) id proxySession hops allowSkip
    (added.1,
      { route with
        buckets := route.buckets.assign index added.2
        placed := by
          refine Placed.assign route.placed fun node hnode => ?_
          rcases mem_bucketAddNode hnode with hold | rfl
          · cases hfind : route.buckets.find index with
            | none =>
              rw [hfind] at hold
              cases hold
            | some nodes =>
              rw [hfind] at hold
              exact route.placed _ (SortedMap.mem_of_lookup hfind) node hold
          · rfl })

end AddNode

/-- What `looking_nodes` and `search_nodes` collect: under the distance to the target, the nodes by
their ids. -/
abbrev ResultNodes (α : Type) := List (ConstDataBuffer × List (ConstDataBuffer × RouteNode α))

/-- The body of the loop of `looking_nodes` for a node that is good and accepted. -/
def addResult (targetId : ConstDataBuffer) (node : RouteNode α) (resultNodes : ResultNodes α) :
    ResultNodes α × Nat :=
  let key := distance node.nodeId targetId
  let resultNode := (resultNodes.lookup key).getD []
  let put := fun entries => SortedMap.assign bufferLess key entries resultNodes
  match resultNode.lookup node.nodeId with
  | none => (put (SortedMap.assign bufferLess node.nodeId node resultNode), 1)
  | some exists' =>
    if node.hops < exists'.hops then
      (put (SortedMap.assign bufferLess node.nodeId node resultNode), 0)
    else (put resultNode, 0)

/-- The loop of `looking_nodes`; `found` is how many nodes were new. -/
def lookingLoop (targetId : ConstDataBuffer) (filter : RouteNode α → Expected Bool) :
    List (RouteNode α) → ResultNodes α → Nat → Expected (ResultNodes α × Nat)
  | [], resultNodes, found => .ok (resultNodes, found)
  | node :: nodes, resultNodes, found =>
    if !node.isGood then lookingLoop targetId filter nodes resultNodes found
    else do
      let filterResult ← filter node
      if !filterResult then lookingLoop targetId filter nodes resultNodes found
      else
        let (resultNodes, new) := addResult targetId node resultNodes
        lookingLoop targetId filter nodes resultNodes (found + new)

def lookingNodes (route : DhtRoute α) (targetId : ConstDataBuffer)
    (filter : RouteNode α → Expected Bool) (resultNodes : ResultNodes α) (index : Nat) :
    Expected (ResultNodes α × Nat) :=
  match route.buckets.find index with
  | none => .ok (resultNodes, 0)
  | some nodes => lookingLoop targetId filter nodes resultNodes 0

/-- The loop of `search_nodes`. -/
def searchLoop (route : DhtRoute α) (targetId : ConstDataBuffer) (maxCount : Nat)
    (filter : RouteNode α → Expected Bool) (index minIndex maxIndex : Nat) :
    Nat → Nat → ResultNodes α → Nat → Expected (ResultNodes α)
  | 0, _, _, _ => .error .outOfFuel
  | fuel + 1, distance, resultNodes, count =>
    if resultNodes.length < maxCount ∧
        (index + distance ≤ maxIndex ∨ distance ≤ index ∧ minIndex ≤ index - distance) then do
      let (resultNodes, above) ← (if index + distance ≤ maxIndex then
          route.lookingNodes targetId filter resultNodes (index + distance)
        else .ok (resultNodes, 0))
      let (resultNodes, below) ← (if distance ≤ index ∧ minIndex ≤ index - distance then
          route.lookingNodes targetId filter resultNodes (index - distance)
        else .ok (resultNodes, 0))
      let count := count + above + below
      if maxCount < count then return resultNodes
      searchLoop route targetId maxCount filter index minIndex maxIndex fuel (distance + 1)
        resultNodes count
    else .ok resultNodes

def searchNodes (route : DhtRoute α) (targetId : ConstDataBuffer) (maxCount : Nat)
    (filter : RouteNode α → Expected Bool) : Expected (ResultNodes α) :=
  match route.buckets.entries.head?, route.buckets.entries.getLast? with
  | some first, some last =>
    let index := distanceExp route.currentNodeId targetId
    searchLoop route targetId maxCount filter index first.1 last.1 (index + last.1 + 2) 0 [] 0
  | _, _ => .ok []

/-- The nodes in the order of the loops over the result. -/
def candidates (resultNodes : ResultNodes α) : List (RouteNode α) :=
  resultNodes.flatMap fun presult => presult.2.map Prod.snd

/-- The loops of `for_near` and `for_near_sync`; the last component is the nodes they have called the
callback with. `τ` is what the callback keeps from call to call. -/
def forNearLoop {τ : Type} (callback : τ → RouteNode α → Expected Bool × τ) :
    List (RouteNode α) → τ → Expected Unit × τ × List (RouteNode α)
  | [], state => (.ok (), state, [])
  | node :: nodes, state =>
    match callback state node with
    | (.error e, state) => (.error e, state, [node])
    | (.ok false, state) => (.ok (), state, [node])
    | (.ok true, state) =>
      let (result, state, visited) := forNearLoop callback nodes state
      (result, state, node :: visited)

def forNear {τ : Type} (route : DhtRoute α) (targetNodeId : ConstDataBuffer) (maxCount : Nat)
    (filter : RouteNode α → Expected Bool) (callback : τ → RouteNode α → Expected Bool × τ)
    (state : τ) : Expected Unit × τ × List (RouteNode α) :=
  match route.searchNodes targetNodeId maxCount filter with
  | .error e => (.error e, state, [])
  | .ok resultNodes => forNearLoop callback (candidates resultNodes) state

/-! ### What a scan has collected -/

/-- The result holds the nodes of the ids `ids`, each under its distance to the target; `P` is what
holds of a node that is taken. -/
structure Collected (targetId : ConstDataBuffer) (P : RouteNode α → Prop) (resultNodes : ResultNodes α)
    (ids : Finset ConstDataBuffer) : Prop where
  ascending : SortedMap.Ascending bufferLess (SortedMap.keys resultNodes)
  unique : ∀ e ∈ resultNodes, (SortedMap.keys e.2).Nodup
  entry : ∀ e ∈ resultNodes, ∀ f ∈ e.2,
    f.1 = f.2.nodeId ∧ e.1 = distance f.1 targetId ∧ P f.2 ∧ f.1 ∈ ids
  occupied : ∀ e ∈ resultNodes, e.2 ≠ []
  complete : ∀ id ∈ ids, ∃ e ∈ resultNodes, id ∈ SortedMap.keys e.2

section Collecting

variable {targetId : ConstDataBuffer} {P : RouteNode α → Prop} {resultNodes : ResultNodes α}
  {ids : Finset ConstDataBuffer}

theorem collected_nil : Collected targetId P ([] : ResultNodes α) ∅ where
  ascending := List.Pairwise.nil
  unique := fun e he => (by cases he)
  entry := fun e he => (by cases he)
  occupied := fun e he => (by cases he)
  complete := fun id hid => absurd hid (Finset.notMem_empty id)

theorem Collected.nodup (h : Collected targetId P resultNodes ids) :
    (SortedMap.keys resultNodes).Nodup :=
  SortedMap.nodup_of_ascending bufferLess_iff h.ascending

/-- An id that is collected stands under its distance. -/
theorem Collected.lookup_of_mem (h : Collected targetId P resultNodes ids) {id : ConstDataBuffer}
    (hid : id ∈ ids) : ∃ nodes, resultNodes.lookup (distance id targetId) = some nodes ∧
      id ∈ SortedMap.keys nodes := by
  obtain ⟨e, he, hkey⟩ := h.complete id hid
  obtain ⟨node, hnode⟩ := SortedMap.mem_keys.mp hkey
  have hdist : e.1 = distance id targetId := (h.entry e he _ hnode).2.1
  have he' : (distance id targetId, e.2) ∈ resultNodes := by
    rw [← hdist]
    exact he
  exact ⟨e.2, SortedMap.lookup_of_mem h.nodup he', hkey⟩

/-- There are as many entries as distances. -/
theorem Collected.length_eq (h : Collected targetId P resultNodes ids) :
    resultNodes.length = (ids.image (distance · targetId)).card := by
  have hkeys : (SortedMap.keys resultNodes).toFinset = ids.image (distance · targetId) := by
    ext key
    rw [List.mem_toFinset, Finset.mem_image]
    constructor
    · intro hkey
      obtain ⟨nodes, he⟩ := SortedMap.mem_keys.mp hkey
      obtain ⟨f, hf⟩ := List.exists_mem_of_ne_nil _ (h.occupied _ he)
      obtain ⟨-, hdist, -, hid⟩ := h.entry _ he f hf
      exact ⟨f.1, hid, hdist.symm⟩
    · rintro ⟨id, hid, rfl⟩
      obtain ⟨nodes, hlookup, -⟩ := h.lookup_of_mem hid
      exact SortedMap.mem_keys.mpr ⟨nodes, SortedMap.mem_of_lookup hlookup⟩
  rw [← hkeys, List.toFinset_card_of_nodup h.nodup, SortedMap.keys, List.length_map]

/-- The entry of a distance is set anew, with one more id. -/
theorem Collected.put (h : Collected targetId P resultNodes ids) {node : RouteNode α}
    {nodes : List (ConstDataBuffer × RouteNode α)} (hnodup : (SortedMap.keys nodes).Nodup)
    (hentry : ∀ f ∈ nodes, f.1 = f.2.nodeId ∧ f.1 ∈ insert node.nodeId ids ∧
      distance node.nodeId targetId = distance f.1 targetId ∧ P f.2)
    (hkeep : ∀ old, resultNodes.lookup (distance node.nodeId targetId) = some old →
      ∀ id ∈ SortedMap.keys old, id ∈ SortedMap.keys nodes)
    (hmem : node.nodeId ∈ SortedMap.keys nodes) :
    Collected targetId P (SortedMap.assign bufferLess (distance node.nodeId targetId) nodes resultNodes)
      (insert node.nodeId ids) where
  ascending := SortedMap.ascending_assign bufferLess_iff bufferKey_inj h.ascending
  unique := by
    intro e he
    rcases (SortedMap.mem_assign bufferLess).mp he with rfl | he
    · exact hnodup
    · exact h.unique e he.1
  entry := by
    intro e he f hf
    rcases (SortedMap.mem_assign bufferLess).mp he with rfl | he
    · obtain ⟨hid, hin, hdist, hP⟩ := hentry f hf
      exact ⟨hid, hdist, hP, hin⟩
    · obtain ⟨hid, hdist, hP, hin⟩ := h.entry e he.1 f hf
      exact ⟨hid, hdist, hP, Finset.mem_insert_of_mem hin⟩
  occupied := by
    intro e he
    rcases (SortedMap.mem_assign bufferLess).mp he with rfl | he
    · obtain ⟨v, hv⟩ := SortedMap.mem_keys.mp hmem
      exact List.ne_nil_of_mem hv
    · exact h.occupied e he.1
  complete := by
    intro id hid
    by_cases hdist : distance id targetId = distance node.nodeId targetId
    · refine ⟨_, (SortedMap.mem_assign bufferLess).mpr (.inl rfl), ?_⟩
      rcases Finset.mem_insert.mp hid with rfl | hid
      · exact hmem
      · obtain ⟨old, hold, hkey⟩ := h.lookup_of_mem hid
        exact hkeep old (hdist ▸ hold) id hkey
    · rcases Finset.mem_insert.mp hid with rfl | hid
      · exact absurd rfl hdist
      · obtain ⟨old, hold, hkey⟩ := h.lookup_of_mem hid
        exact ⟨_, (SortedMap.mem_assign bufferLess).mpr
          (.inr ⟨SortedMap.mem_of_lookup hold, hdist⟩), hkey⟩

/-- `looking_nodes` adds one id for a node, and counts it when it is new. -/
theorem Collected.added (h : Collected targetId P resultNodes ids) {node : RouteNode α}
    (hP : P node) : Collected targetId P (addResult targetId node resultNodes).1 (insert node.nodeId ids) ∧
      ids.card + (addResult targetId node resultNodes).2 = (insert node.nodeId ids).card := by
  obtain ⟨old, hgetD, hsome⟩ : ∃ old, (resultNodes.lookup (distance node.nodeId targetId)).getD [] = old ∧
      ∀ nodes, resultNodes.lookup (distance node.nodeId targetId) = some nodes → nodes = old :=
    ⟨_, rfl, fun nodes hlookup => by rw [hlookup]; rfl⟩
  have hmem : old = [] ∨ (distance node.nodeId targetId, old) ∈ resultNodes := by
    cases hlookup : resultNodes.lookup (distance node.nodeId targetId) with
    | none => exact .inl (by rw [← hgetD, hlookup]; rfl)
    | some nodes =>
      rw [← hsome nodes hlookup]
      exact .inr (SortedMap.mem_of_lookup hlookup)
  have hold : ∀ f ∈ old, f.1 = f.2.nodeId ∧ distance node.nodeId targetId = distance f.1 targetId ∧
      P f.2 ∧ f.1 ∈ ids := by
    intro f hf
    rcases hmem with rfl | hmem
    · cases hf
    · exact h.entry _ hmem f hf
  have hnodup : (SortedMap.keys old).Nodup := by
    rcases hmem with rfl | hmem
    · exact List.nodup_nil
    · exact h.unique _ hmem
  have hin : (old.lookup node.nodeId).isSome ↔ node.nodeId ∈ ids := by
    rw [SortedMap.lookup_isSome_iff]
    constructor
    · intro hkey
      obtain ⟨v, hv⟩ := SortedMap.mem_keys.mp hkey
      exact (hold _ hv).2.2.2
    · intro hid
      obtain ⟨nodes, hlookup, hkey⟩ := h.lookup_of_mem hid
      rwa [hsome nodes hlookup] at hkey
  have hassign : Collected targetId P (SortedMap.assign bufferLess (distance node.nodeId targetId)
      (SortedMap.assign bufferLess node.nodeId node old) resultNodes) (insert node.nodeId ids) := by
    refine h.put (SortedMap.nodup_keys_assign bufferLess hnodup) ?_ ?_ ?_
    · intro f hf
      rcases (SortedMap.mem_assign bufferLess).mp hf with rfl | hf
      · exact ⟨rfl, Finset.mem_insert_self _ _, rfl, hP⟩
      · obtain ⟨hid, hdist, hP', hin⟩ := hold f hf.1
        exact ⟨hid, Finset.mem_insert_of_mem hin, hdist, hP'⟩
    · intro nodes hlookup id hid
      rw [hsome nodes hlookup] at hid
      exact (SortedMap.mem_keys_assign bufferLess).mpr (.inr hid)
    · exact (SortedMap.mem_keys_assign bufferLess).mpr (.inl rfl)
  cases hlookup : old.lookup node.nodeId with
  | none =>
    have hnotin : node.nodeId ∉ ids := by
      rw [← hin, hlookup]
      exact Bool.false_ne_true
    simp only [addResult, hgetD, hlookup]
    exact ⟨hassign, (Finset.card_insert_of_notMem hnotin).symm⟩
  | some exists' =>
    have hid : node.nodeId ∈ ids := hin.mp (by rw [hlookup]; rfl)
    have hcard : ids.card + 0 = (insert node.nodeId ids).card := by rw [Finset.insert_eq_of_mem hid]; rfl
    simp only [addResult, hgetD, hlookup]
    split_ifs
    · exact ⟨hassign, hcard⟩
    · refine ⟨h.put hnodup ?_ ?_ ?_, hcard⟩
      · intro f hf
        obtain ⟨hid', hdist, hP', hin'⟩ := hold f hf
        exact ⟨hid', Finset.mem_insert_of_mem hin', hdist, hP'⟩
      · intro nodes hnodes id hkey
        rwa [hsome nodes hnodes] at hkey
      · rw [← SortedMap.lookup_isSome_iff, hlookup]
        rfl

end Collecting

/-! ### What qualifies -/

/-- The ids of the nodes that are good and accepted. -/
def takenIds (accepts : RouteNode α → Bool) (nodes : List (RouteNode α)) : Finset ConstDataBuffer :=
  ((nodes.filter fun node => node.isGood && accepts node).map RouteNode.nodeId).toFinset

section Scan

variable (route : DhtRoute α) (targetId : ConstDataBuffer) (maxCount : Nat) (accepts : RouteNode α → Bool)

def allNodes : List (RouteNode α) := route.buckets.entries.flatMap Prod.snd

def qualifying : List (RouteNode α) := route.allNodes.filter fun node => node.isGood && accepts node

def qualifyingIds : Finset ConstDataBuffer := takenIds accepts route.allNodes

/-- How many buckets lie between that of the node and that of the target. -/
def indexDistance (id : ConstDataBuffer) : Nat :=
  Nat.dist (distanceExp route.currentNodeId id) (distanceExp route.currentNodeId targetId)

/-- The qualifying ids in the buckets that are less than `d` away from that of the target. -/
def idsWithin (d : Nat) : Finset ConstDataBuffer :=
  (route.qualifyingIds accepts).filter fun id => route.indexDistance targetId id < d

/-- The qualifying ids that are nearer to the target. -/
def nearer (id : ConstDataBuffer) : Finset ConstDataBuffer :=
  (route.qualifyingIds accepts).filter fun other =>
    bufferLess (distance other targetId) (distance id targetId) = true

/-- The nearer buckets leave room for those `d` away from that of the target. -/
def Reached (d : Nat) : Prop :=
  ((route.idsWithin targetId accepts d).image (distance · targetId)).card < maxCount ∧
    (route.idsWithin targetId accepts d).card ≤ maxCount

end Scan

section Scan

variable {route : DhtRoute α} {targetId : ConstDataBuffer} {maxCount : Nat} {accepts : RouteNode α → Bool}
  {resultNodes : ResultNodes α} {ids : Finset ConstDataBuffer}

theorem mem_takenIds {nodes : List (RouteNode α)} {id : ConstDataBuffer} :
    id ∈ takenIds accepts nodes ↔
      ∃ node ∈ nodes, (node.isGood = true ∧ accepts node = true) ∧ node.nodeId = id := by
  simp [takenIds, and_assoc]

theorem mem_qualifyingIds {id : ConstDataBuffer} :
    id ∈ route.qualifyingIds accepts ↔ ∃ node ∈ route.qualifying accepts, node.nodeId = id := by
  simp [qualifyingIds, mem_takenIds, qualifying, and_assoc]

/-- The loop takes the nodes that are good and accepted. -/
theorem Collected.looked {P : RouteNode α → Prop} (h : Collected targetId P resultNodes ids)
    (nodes : List (RouteNode α)) (hP : ∀ node ∈ nodes, node.isGood = true → accepts node = true → P node)
    (found : Nat) : ∃ resultNodes' new,
      lookingLoop targetId (fun node => .ok (accepts node)) nodes resultNodes found =
        .ok (resultNodes', found + new) ∧
      Collected targetId P resultNodes' (ids ∪ takenIds accepts nodes) ∧
      ids.card + new = (ids ∪ takenIds accepts nodes).card := by
  induction nodes generalizing resultNodes ids found with
  | nil =>
    refine ⟨resultNodes, 0, rfl, ?_, ?_⟩
    · simpa [takenIds] using h
    · simp [takenIds]
  | cons node nodes ih =>
    have hrest : ∀ n ∈ nodes, n.isGood = true → accepts n = true → P n :=
      fun n hn => hP n (List.mem_cons_of_mem node hn)
    have hskip : ¬(node.isGood = true ∧ accepts node = true) →
        takenIds accepts (node :: nodes) = takenIds accepts nodes := by
      intro hnot
      ext id
      simp only [mem_takenIds, List.exists_mem_cons_iff, hnot, false_and, false_or]
    unfold lookingLoop
    by_cases hgood : node.isGood = true
    · rw [if_neg (by simp [hgood])]
      by_cases hacc : accepts node = true
      · have hnode : P node := hP node List.mem_cons_self hgood hacc
        have htake : insert node.nodeId ids ∪ takenIds accepts nodes =
            ids ∪ takenIds accepts (node :: nodes) := by
          ext id
          simp only [Finset.mem_union, Finset.mem_insert, mem_takenIds, List.exists_mem_cons_iff, hgood,
            hacc, and_self, true_and]
          tauto
        obtain ⟨hadded, hcard⟩ := h.added hnode
        obtain ⟨resultNodes', new, heq, hcollected, hcard'⟩ :=
          ih hadded hrest (found + (addResult targetId node resultNodes).2)
        rw [htake] at hcollected hcard'
        refine ⟨resultNodes', (addResult targetId node resultNodes).2 + new, ?_, hcollected, ?_⟩
        · simp only [hacc, bind, Except.bind, Bool.not_true, Bool.false_eq_true, if_false]
          rw [heq, Nat.add_assoc]
        · omega
      · obtain ⟨resultNodes', new, heq, hcollected, hcard⟩ := ih h hrest found
        rw [← hskip fun hboth => hacc hboth.2] at hcollected hcard
        refine ⟨resultNodes', new, ?_, hcollected, hcard⟩
        rw [Bool.not_eq_true] at hacc
        simp only [hacc, bind, Except.bind, Bool.not_false, if_true]
        exact heq
    · rw [if_pos (by simp [hgood])]
      obtain ⟨resultNodes', new, heq, hcollected, hcard⟩ := ih h hrest found
      rw [← hskip fun hboth => hgood hboth.1] at hcollected hcard
      exact ⟨resultNodes', new, heq, hcollected, hcard⟩

theorem mem_allNodes {node : RouteNode α} :
    node ∈ route.allNodes ↔ ∃ bucket ∈ route.buckets.entries, node ∈ bucket.2 := List.mem_flatMap

/-- The qualifying ids of a bucket. -/
theorem takenIds_bucket {index : Nat} {nodes : List (RouteNode α)}
    (hfind : route.buckets.find index = some nodes) : takenIds accepts nodes =
      (route.qualifyingIds accepts).filter fun id => distanceExp route.currentNodeId id = index := by
  have hmem : (index, nodes) ∈ route.buckets.entries := SortedMap.mem_of_lookup hfind
  have hnodup : (SortedMap.keys route.buckets.entries).Nodup :=
    route.buckets.ascending.imp fun hlt => hlt.ne
  ext id
  rw [Finset.mem_filter, qualifyingIds, mem_takenIds, mem_takenIds]
  constructor
  · rintro ⟨node, hnode, hgood, rfl⟩
    exact ⟨⟨node, mem_allNodes.mpr ⟨_, hmem, hnode⟩, hgood, rfl⟩, route.placed _ hmem node hnode⟩
  · rintro ⟨⟨node, hnode, hgood, rfl⟩, hindex⟩
    obtain ⟨bucket, hbucket, hin⟩ := mem_allNodes.mp hnode
    have hkey : bucket.1 = index := (route.placed bucket hbucket node hin).symm.trans hindex
    have hlookup : route.buckets.find index = some bucket.2 :=
      SortedMap.lookup_of_mem hnodup (by rw [← hkey]; exact hbucket)
    rw [hfind, Option.some_inj] at hlookup
    exact ⟨node, hlookup ▸ hin, hgood, rfl⟩

theorem no_bucket {index : Nat} (hfind : route.buckets.find index = none) :
    ((route.qualifyingIds accepts).filter fun id => distanceExp route.currentNodeId id = index) = ∅ := by
  rw [Finset.filter_eq_empty_iff]
  intro id hid hindex
  obtain ⟨node, hnode, -, rfl⟩ := mem_takenIds.mp hid
  obtain ⟨bucket, hbucket, hin⟩ := mem_allNodes.mp hnode
  have hkey : bucket.1 = index := (route.placed bucket hbucket node hin).symm.trans hindex
  exact absurd hfind (by
    rw [← ne_eq, ← Option.isSome_iff_ne_none, OrderedMap.find, SortedMap.lookup_isSome_iff, ← hkey]
    exact List.mem_map_of_mem hbucket)

/-- One of the two looks of a round: `found` are the qualifying ids that it is to find. -/
theorem Collected.lookingNodes (h : Collected targetId (· ∈ route.qualifying accepts) resultNodes ids)
    (c : Prop) [Decidable c] (index : Nat) (found : Finset ConstDataBuffer)
    (hout : ¬c → found = ∅) (hin : c → found =
      (route.qualifyingIds accepts).filter fun id => distanceExp route.currentNodeId id = index) :
    ∃ resultNodes' new,
      (if c then route.lookingNodes targetId (fun node => .ok (accepts node)) resultNodes index
        else .ok (resultNodes, 0)) = .ok (resultNodes', new) ∧
      Collected targetId (· ∈ route.qualifying accepts) resultNodes' (ids ∪ found) ∧
      ids.card + new = (ids ∪ found).card := by
  by_cases hc : c
  · rw [if_pos hc, hin hc]
    unfold DhtRoute.lookingNodes
    cases hfind : route.buckets.find index with
    | none =>
      rw [no_bucket hfind, Finset.union_empty]
      exact ⟨resultNodes, 0, rfl, h, rfl⟩
    | some nodes =>
      have hmem : (index, nodes) ∈ route.buckets.entries := SortedMap.mem_of_lookup hfind
      rw [← takenIds_bucket hfind]
      have hqualify : ∀ node ∈ nodes, node.isGood = true → accepts node = true →
          node ∈ route.qualifying accepts := by
        intro node hnode hgood hacc
        refine List.mem_filter.mpr ⟨mem_allNodes.mpr ⟨_, hmem, hnode⟩, ?_⟩
        rw [hgood, hacc]
        rfl
      obtain ⟨resultNodes', new, heq, hcollected, hcard⟩ := h.looked nodes hqualify 0
      rw [Nat.zero_add] at heq
      exact ⟨resultNodes', new, heq, hcollected, hcard⟩
  · rw [if_neg hc, hout hc, Finset.union_empty]
    exact ⟨resultNodes, 0, rfl, h, rfl⟩

theorem idsWithin_mono {d e : Nat} (h : d ≤ e) :
    route.idsWithin targetId accepts d ⊆ route.idsWithin targetId accepts e := by
  intro id hid
  obtain ⟨hq, hd⟩ := Finset.mem_filter.mp hid
  exact Finset.mem_filter.mpr ⟨hq, hd.trans_le h⟩

theorem Reached.mono {d e : Nat} (hde : d ≤ e) (h : route.Reached targetId maxCount accepts e) :
    route.Reached targetId maxCount accepts d :=
  ⟨(Finset.card_le_card (Finset.image_subset_image (idsWithin_mono hde))).trans_lt h.1,
    (Finset.card_le_card (idsWithin_mono hde)).trans h.2⟩

/-- The round `d` looks into the two buckets that are `d` away. -/
theorem idsWithin_succ (d : Nat) : route.idsWithin targetId accepts (d + 1) =
    route.idsWithin targetId accepts d ∪
      ((route.qualifyingIds accepts).filter fun id => distanceExp route.currentNodeId id =
        distanceExp route.currentNodeId targetId + d) ∪
      (route.qualifyingIds accepts).filter fun id => distanceExp route.currentNodeId id + d =
        distanceExp route.currentNodeId targetId := by
  ext id
  simp only [idsWithin, Finset.mem_union, Finset.mem_filter]
  rw [indexDistance, Nat.dist]
  by_cases hq : id ∈ route.qualifyingIds accepts
  · simp only [hq, true_and]
    omega
  · simp only [hq, false_and, or_self]

section Loop

variable {minIndex maxIndex : Nat}

/-- The loop has looked into the buckets that are reached. -/
theorem searchLoop_spec
    (hbounds : ∀ id ∈ route.qualifyingIds accepts,
      minIndex ≤ distanceExp route.currentNodeId id ∧ distanceExp route.currentNodeId id ≤ maxIndex)
    (fuel d : Nat) (hd : d ≤ distanceExp route.currentNodeId targetId + maxIndex + 1)
    (hfuel : distanceExp route.currentNodeId targetId + maxIndex + 2 ≤ d + fuel)
    (h : Collected targetId (· ∈ route.qualifying accepts) resultNodes (route.idsWithin targetId accepts d))
    (hcount : (route.idsWithin targetId accepts d).card ≤ maxCount) :
    ∃ D resultNodes', route.searchLoop targetId maxCount (fun node => .ok (accepts node))
        (distanceExp route.currentNodeId targetId) minIndex maxIndex fuel d resultNodes
        (route.idsWithin targetId accepts d).card = .ok resultNodes' ∧
      Collected targetId (· ∈ route.qualifying accepts) resultNodes' (route.idsWithin targetId accepts D) ∧
      ∀ id ∈ route.qualifyingIds accepts, route.indexDistance targetId id < D ↔
        route.indexDistance targetId id < d ∨
          route.Reached targetId maxCount accepts (route.indexDistance targetId id) := by
  induction fuel generalizing d resultNodes with
  | zero => omega
  | succ fuel ih =>
    unfold searchLoop
    generalize hindex : distanceExp route.currentNodeId targetId = index at *
    have hdist : ∀ id, route.indexDistance targetId id = Nat.dist (distanceExp route.currentNodeId id) index := by
      intro id
      rw [indexDistance, hindex]
    by_cases hgo : resultNodes.length < maxCount ∧
        (index + d ≤ maxIndex ∨ d ≤ index ∧ minIndex ≤ index - d)
    · rw [if_pos hgo]
      obtain ⟨resultNodes₁, above, heq₁, h₁, hcard₁⟩ := h.lookingNodes (index + d ≤ maxIndex) (index + d)
        ((route.qualifyingIds accepts).filter fun id => distanceExp route.currentNodeId id = index + d)
        (fun hout => by
          rw [Finset.filter_eq_empty_iff]
          intro id hid heq
          exact hout (heq ▸ (hbounds id hid).2)) fun _ => rfl
      obtain ⟨resultNodes₂, below, heq₂, h₂, hcard₂⟩ := h₁.lookingNodes
        (d ≤ index ∧ minIndex ≤ index - d) (index - d)
        ((route.qualifyingIds accepts).filter fun id => distanceExp route.currentNodeId id + d = index)
        (fun hout => by
          rw [Finset.filter_eq_empty_iff]
          intro id hid heq
          have hlow := (hbounds id hid).1
          omega) fun hin => Finset.filter_congr fun id _ => by omega
      have hsucc := @idsWithin_succ α route targetId accepts d
      rw [hindex] at hsucc
      rw [← hsucc] at h₂ hcard₂
      have hcount' : (route.idsWithin targetId accepts d).card + above + below =
          (route.idsWithin targetId accepts (d + 1)).card := by rw [hcard₁, hcard₂]
      have hreached : route.Reached targetId maxCount accepts d := ⟨h.length_eq ▸ hgo.1, hcount⟩
      simp only [heq₁, heq₂, bind, Except.bind, hcount']
      split_ifs with hbreak
      · refine ⟨d + 1, resultNodes₂, rfl, h₂, fun id _ => ?_⟩
        rcases Nat.lt_trichotomy (route.indexDistance targetId id) d with hlt | heq | hgt
        · simp only [hlt, true_or, iff_true]
          omega
        · rw [heq]
          simp [hreached]
        · have hnot : ¬route.Reached targetId maxCount accepts (route.indexDistance targetId id) :=
            fun hr => absurd (hr.mono hgt).2 (Nat.not_le.mpr hbreak)
          simp only [hnot, or_false]
          omega
      · obtain ⟨D, resultNodes', heq, hcollected, hD⟩ :=
          ih (d + 1) (by omega) (by omega) h₂ (Nat.not_lt.mp hbreak)
        refine ⟨D, resultNodes', heq, hcollected, fun id hid => ?_⟩
        rw [hD id hid]
        constructor
        · rintro (hlt | hr)
          · rcases Nat.lt_succ_iff_lt_or_eq.mp hlt with hlt | heq
            · exact .inl hlt
            · exact .inr (heq ▸ hreached)
          · exact .inr hr
        · rintro (hlt | hr)
          · exact .inl (hlt.trans (Nat.lt_succ_self d))
          · exact .inr hr
    · rw [if_neg hgo]
      refine ⟨d, resultNodes, rfl, h, fun id hid => ?_⟩
      constructor
      · exact .inl
      · rintro (hlt | hr)
        · exact hlt
        · by_contra hge
          have hroom : resultNodes.length < maxCount := by
            rw [h.length_eq]
            exact (hr.mono (Nat.not_lt.mp hge)).1
          obtain ⟨hlow, hhigh⟩ := hbounds id hid
          rw [hdist, Nat.dist] at hge
          exact hgo ⟨hroom, by omega⟩

end Loop

end Scan

/-! ### The nearest nodes -/

section Nearest

variable {route : DhtRoute α} {targetId : ConstDataBuffer} {maxCount : Nat} {accepts : RouteNode α → Bool}

/-- The search finds the qualifying nodes of the buckets that are reached. -/
theorem searchNodes_spec : ∃ resultNodes ids,
    route.searchNodes targetId maxCount (fun node => .ok (accepts node)) = .ok resultNodes ∧
      Collected targetId (· ∈ route.qualifying accepts) resultNodes ids ∧ ids ⊆ route.qualifyingIds accepts ∧
      ∀ id ∈ route.qualifyingIds accepts, id ∈ ids ↔
        route.Reached targetId maxCount accepts (route.indexDistance targetId id) := by
  unfold searchNodes
  cases hentries : route.buckets.entries with
  | nil =>
    have hnone : route.qualifyingIds accepts = ∅ := by
      rw [qualifyingIds, allNodes, hentries]
      rfl
    refine ⟨[], ∅, rfl, collected_nil, Finset.empty_subset _, fun id hid => ?_⟩
    rw [hnone] at hid
    exact absurd hid (Finset.notMem_empty id)
  | cons first rest =>
    have hne : first :: rest ≠ [] := List.cons_ne_nil _ _
    rw [List.head?_cons, List.getLast?_eq_getLast_of_ne_nil hne]
    have hasc := route.buckets.ascending
    rw [hentries] at hasc
    have hbounds : ∀ id ∈ route.qualifyingIds accepts, first.1 ≤ distanceExp route.currentNodeId id ∧
        distanceExp route.currentNodeId id ≤ ((first :: rest).getLast hne).1 := by
      intro id hid
      obtain ⟨node, hnode, -, rfl⟩ := mem_takenIds.mp hid
      obtain ⟨bucket, hbucket, hin⟩ := mem_allNodes.mp hnode
      rw [route.placed bucket hbucket node hin]
      rw [hentries] at hbucket
      constructor
      · rcases List.mem_cons.mp hbucket with rfl | hbucket
        · exact le_rfl
        · exact ((List.pairwise_cons.mp hasc).1 _ (List.mem_map_of_mem hbucket)).le
      · rw [← List.dropLast_append_getLast hne, List.map_append, List.pairwise_append] at hasc
        rw [← List.dropLast_append_getLast hne, List.mem_append, List.mem_singleton] at hbucket
        rcases hbucket with hbucket | rfl
        · exact (hasc.2.2 _ (List.mem_map_of_mem hbucket) _ List.mem_cons_self).le
        · exact le_rfl
    have hstart : route.idsWithin targetId accepts 0 = ∅ := by
      rw [idsWithin, Finset.filter_eq_empty_iff]
      exact fun id _ => Nat.not_lt_zero _
    have hcollected : Collected targetId (· ∈ route.qualifying accepts) ([] : ResultNodes α)
        (route.idsWithin targetId accepts 0) := hstart ▸ collected_nil
    obtain ⟨D, resultNodes, heq, hresult, hD⟩ := @searchLoop_spec α route targetId maxCount accepts [] _ _
      hbounds (distanceExp route.currentNodeId targetId + ((first :: rest).getLast hne).1 + 2) 0
      (Nat.zero_le _) (by omega) hcollected (by rw [hstart]; exact Nat.zero_le _)
    rw [hstart, Finset.card_empty] at heq
    refine ⟨resultNodes, _, heq, hresult, Finset.filter_subset _ _, fun id hid => ?_⟩
    rw [idsWithin, Finset.mem_filter, hD id hid]
    simp [hid]

variable {resultNodes : ResultNodes α} {ids : Finset ConstDataBuffer} {P : RouteNode α → Prop}

theorem Collected.mem_ids (h : Collected targetId P resultNodes ids) {id : ConstDataBuffer} :
    id ∈ ids ↔ ∃ node ∈ candidates resultNodes, node.nodeId = id := by
  constructor
  · intro hid
    obtain ⟨e, he, hkey⟩ := h.complete id hid
    obtain ⟨node, hnode⟩ := SortedMap.mem_keys.mp hkey
    exact ⟨node, List.mem_flatMap.mpr ⟨e, he, List.mem_map_of_mem hnode⟩, (h.entry e he _ hnode).1.symm⟩
  · rintro ⟨node, hnode, rfl⟩
    obtain ⟨e, he, hin⟩ := List.mem_flatMap.mp hnode
    obtain ⟨f, hf, rfl⟩ := List.mem_map.mp hin
    obtain ⟨hid, -, -, hmem⟩ := h.entry e he f hf
    rwa [← hid]

theorem Collected.candidates_hold (h : Collected targetId P resultNodes ids) :
    ∀ node ∈ candidates resultNodes, P node := by
  intro node hnode
  obtain ⟨e, he, hin⟩ := List.mem_flatMap.mp hnode
  obtain ⟨f, hf, rfl⟩ := List.mem_map.mp hin
  exact (h.entry e he f hf).2.2.1

/-- No candidate is nearer than one before it. -/
theorem Collected.candidates_sorted (h : Collected targetId P resultNodes ids) :
    (candidates resultNodes).Pairwise fun a b =>
      ¬bufferLess (distance b.nodeId targetId) (distance a.nodeId targetId) = true := by
  have hkey : ∀ e ∈ resultNodes, ∀ node ∈ e.2.map Prod.snd, distance node.nodeId targetId = e.1 := by
    intro e he node hnode
    obtain ⟨f, hf, rfl⟩ := List.mem_map.mp hnode
    obtain ⟨hid, hdist, -, -⟩ := h.entry e he f hf
    rw [hdist, hid]
  have hasc : resultNodes.Pairwise fun e f => bufferLess e.1 f.1 = true := List.pairwise_map.mp h.ascending
  refine List.pairwise_flatMap.mpr ⟨fun e he => ?_, hasc.imp_of_mem fun {e f} he hf hless a ha b hb => ?_⟩
  · refine List.pairwise_of_forall_mem_list fun a ha b hb => ?_
    rw [hkey e he a ha, hkey e he b hb, bufferLess_iff]
    exact lt_irrefl _
  · rw [hkey e he a ha, hkey f hf b hb, bufferLess_iff]
    exact lt_asymm ((bufferLess_iff _ _).mp hless)

/-- The loop calls the callback with the candidates from the first one on. -/
theorem forNearLoop_visited {τ : Type} (callback : τ → RouteNode α → Expected Bool × τ)
    (nodes : List (RouteNode α)) (state : τ) :
    (forNearLoop callback nodes state).2.2 <+: nodes ∧
      (forNearLoop callback nodes state).2.2.head? = nodes.head? := by
  induction nodes generalizing state with
  | nil => exact ⟨List.nil_prefix, rfl⟩
  | cons node nodes ih =>
    unfold forNearLoop
    rcases callback state node with ⟨_ | b, state'⟩
    · exact ⟨⟨nodes, rfl⟩, rfl⟩
    · cases b with
      | false => exact ⟨⟨nodes, rfl⟩, rfl⟩
      | true => exact ⟨List.cons_prefix_cons.mpr ⟨rfl, (ih state').1⟩, rfl⟩

end Nearest

/-- The search gives each of the `maxCount` nodes that are nearest to the target, and only nodes that
are good and accepted, and `for_near` goes through them from the nearest of all on. -/
structure FindsNearest (route : DhtRoute α) (targetId : ConstDataBuffer) (maxCount : Nat)
    (accepts : RouteNode α → Bool) : Prop where
  found : ∃ resultNodes,
    route.searchNodes targetId maxCount (fun node => .ok (accepts node)) = .ok resultNodes ∧
      (∀ node ∈ candidates resultNodes, node ∈ route.qualifying accepts) ∧
      ∀ node ∈ route.qualifying accepts, (route.nearer targetId accepts node.nodeId).card < maxCount →
        ∃ candidate ∈ candidates resultNodes, candidate.nodeId = node.nodeId
  visited : ∀ (τ : Type) (callback : τ → RouteNode α → Expected Bool × τ) (state : τ),
    ((route.forNear targetId maxCount (fun node => .ok (accepts node)) callback state).2.2.Pairwise
      fun a b => ¬bufferLess (distance b.nodeId targetId) (distance a.nodeId targetId) = true) ∧
    (0 < maxCount → route.qualifying accepts ≠ [] → ∃ first ∈
      (route.forNear targetId maxCount (fun node => .ok (accepts node)) callback state).2.2.head?,
        ∀ node ∈ route.qualifying accepts,
          ¬bufferLess (distance node.nodeId targetId) (distance first.nodeId targetId) = true)

/-- The qualifying nodes in the buckets that the search comes to before that of a nearest node leave
room for it. -/
def ScanSuffices (route : DhtRoute α) (targetId : ConstDataBuffer) (maxCount : Nat)
    (accepts : RouteNode α → Bool) : Prop :=
  ∀ node ∈ route.qualifying accepts, (route.nearer targetId accepts node.nodeId).card < maxCount →
    route.Reached targetId maxCount accepts (route.indexDistance targetId node.nodeId)

section Nearest

variable {route : DhtRoute α} {targetId : ConstDataBuffer} {maxCount : Nat} {accepts : RouteNode α → Bool}

/-- One of the qualifying nodes is nearest. -/
theorem exists_nearest (h : route.qualifying accepts ≠ []) : ∃ node ∈ route.qualifying accepts,
    route.nearer targetId accepts node.nodeId = ∅ := by
  have hids : (route.qualifyingIds accepts).Nonempty := by
    obtain ⟨node, hnode⟩ := List.exists_mem_of_ne_nil _ h
    exact ⟨node.nodeId, mem_qualifyingIds.mpr ⟨node, hnode, rfl⟩⟩
  obtain ⟨id, hid, hmin⟩ := (route.qualifyingIds accepts).exists_min_image
    (fun id => bufferKey (distance id targetId)) hids
  obtain ⟨node, hnode, rfl⟩ := mem_qualifyingIds.mp hid
  refine ⟨node, hnode, ?_⟩
  rw [nearer, Finset.filter_eq_empty_iff]
  intro other hother
  rw [bufferLess_iff, not_lt]
  exact hmin other hother

theorem findsNearest_of_found {resultNodes : ResultNodes α} {ids : Finset ConstDataBuffer}
    (heq : route.searchNodes targetId maxCount (fun node => .ok (accepts node)) = .ok resultNodes)
    (hcollected : Collected targetId (· ∈ route.qualifying accepts) resultNodes ids)
    (hfound : ∀ node ∈ route.qualifying accepts,
      (route.nearer targetId accepts node.nodeId).card < maxCount → node.nodeId ∈ ids) :
    route.FindsNearest targetId maxCount accepts where
  found := ⟨resultNodes, heq, hcollected.candidates_hold,
    fun node hnode hnear => hcollected.mem_ids.mp (hfound node hnode hnear)⟩
  visited := by
    intro τ callback state
    have hrun : (route.forNear targetId maxCount (fun node => .ok (accepts node)) callback state).2.2 =
        (forNearLoop callback (candidates resultNodes) state).2.2 := by
      rw [forNear, heq]
    obtain ⟨hpart, hhead⟩ := forNearLoop_visited callback (candidates resultNodes) state
    have hsorted := hcollected.candidates_sorted
    rw [hrun, hhead]
    refine ⟨hsorted.sublist hpart.sublist, fun hpos hne => ?_⟩
    obtain ⟨nearest, hnearest, hempty⟩ := @exists_nearest α route targetId accepts hne
    have hin : nearest.nodeId ∈ ids := by
      apply hfound nearest hnearest
      rwa [hempty]
    obtain ⟨candidate, hcandidate, hid⟩ := hcollected.mem_ids.mp hin
    have hmin : ∀ node ∈ route.qualifying accepts,
        ¬bufferLess (distance node.nodeId targetId) (distance nearest.nodeId targetId) = true := by
      intro node hnode hless
      refine absurd hempty (Finset.ne_empty_of_mem (a := node.nodeId) ?_)
      exact Finset.mem_filter.mpr ⟨mem_qualifyingIds.mpr ⟨node, hnode, rfl⟩, hless⟩
    cases hlist : candidates resultNodes with
    | nil => rw [hlist] at hcandidate; cases hcandidate
    | cons first rest =>
      refine ⟨first, rfl, fun node hnode hless => ?_⟩
      rw [hlist] at hsorted hcandidate
      -- the first candidate is not farther than the nearest node, which is a candidate too
      have hle : ¬bufferLess (distance nearest.nodeId targetId) (distance first.nodeId targetId) = true := by
        rw [← hid]
        rcases List.mem_cons.mp hcandidate with rfl | hrest
        · rw [bufferLess_iff]
          exact lt_irrefl _
        · exact (List.pairwise_cons.mp hsorted).1 candidate hrest
      have hnode' := hmin node hnode
      rw [bufferLess_iff] at hless hle hnode'
      exact hle ((not_lt.mp hnode').trans_lt hless)

/-- The search finds the nearest nodes exactly when the buckets it comes to first leave room for them. -/
theorem findsNearest_iff (route : DhtRoute α) (targetId : ConstDataBuffer) (maxCount : Nat)
    (accepts : RouteNode α → Bool) :
    route.FindsNearest targetId maxCount accepts ↔ route.ScanSuffices targetId maxCount accepts := by
  obtain ⟨resultNodes, ids, heq, hcollected, -, hids⟩ :=
    @searchNodes_spec α route targetId maxCount accepts
  constructor
  · rintro ⟨⟨resultNodes', heq', -, hfound⟩, -⟩ node hnode hnear
    rw [heq] at heq'
    cases heq'
    have hin : node.nodeId ∈ ids := hcollected.mem_ids.mpr (hfound node hnode hnear)
    exact (hids node.nodeId (mem_qualifyingIds.mpr ⟨node, hnode, rfl⟩)).mp hin
  · intro hsuffices
    refine findsNearest_of_found heq hcollected fun node hnode hnear => ?_
    exact (hids node.nodeId (mem_qualifyingIds.mpr ⟨node, hnode, rfl⟩)).mpr (hsuffices node hnode hnear)

end Nearest

def sampleNode (head : UInt8) : RouteNode Unit where
  nodeId := head :: List.replicate 31 0
  proxySession := ⟨(), head :: List.replicate 31 0⟩
  hops := 0

/-- For a target that starts with `0x10`, the node in the bucket next below that of the target is
farther than the node two buckets above. -/
def sampleRoute : DhtRoute Unit :=
  let route : DhtRoute Unit :=
    { currentNodeId := List.replicate 32 0, placed := fun _ h => (by cases h) }
  let route := (route.addNode (sampleNode 0x20).nodeId (sampleNode 0x20).proxySession 0 false).2
  (route.addNode (sampleNode 0x04).nodeId (sampleNode 0x04).proxySession 0 false).2

/-- The search for the nearest node stops at the bucket below that of the target. -/
theorem not_findsNearest_below :
    ¬sampleRoute.FindsNearest (0x10 :: List.replicate 31 0) 1 fun _ => true := by
  rintro ⟨⟨resultNodes, heq, -, hfound⟩, -⟩
  have hrun : sampleRoute.searchNodes (0x10 :: List.replicate 31 0) 1 (fun _ => .ok true) =
      .ok [(0x30 :: List.replicate 31 0, [((sampleNode 0x20).nodeId, sampleNode 0x20)])] := by
    decide +kernel
  rw [hrun] at heq
  cases heq
  have hqualifies : sampleNode 0x04 ∈ sampleRoute.qualifying fun _ => true := by decide +kernel
  have hnearest : (sampleRoute.nearer (0x10 :: List.replicate 31 0) (fun _ => true)
      (sampleNode 0x04).nodeId).card < 1 := by decide +kernel
  obtain ⟨candidate, hcandidate, hid⟩ := hfound _ hqualifies hnearest
  obtain rfl := List.mem_singleton.mp hcandidate
  exact absurd hid (by decide)

end DhtRoute

end Vds.DhtNetwork

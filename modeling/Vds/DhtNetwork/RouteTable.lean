import Vds.DhtNetwork.RouteTimer

/-! What the table of `dht_route` holds after any operations: each node in the bucket of its id and once
for an address, and never the current node. -/

namespace Vds.DhtNetwork

open DhtObjectId Library.LabelledRun

variable {α : Type}

/-- The representation of the table of the node `currentNodeId`. -/
structure DhtRoute.Represented (currentNodeId : ConstDataBuffer) (route : DhtRoute α) : Prop where
  placed : ∀ bucket ∈ route.buckets.entries, ∀ node ∈ bucket.2,
    distanceExp currentNodeId node.nodeId = bucket.1
  unique : (route.allNodes.map RouteNode.key).Nodup
  absent : ∀ node ∈ route.allNodes, node.nodeId ≠ currentNodeId

namespace TimedRoute

/-- The current node, which no step changes, is not in the table. -/
def Absent (currentNodeId : ConstDataBuffer) (t : TimedRoute α) : Prop :=
  t.route.currentNodeId = currentNodeId ∧ ∀ node ∈ t.route.allNodes, node.nodeId ≠ currentNodeId

theorem nodup_keys (t : TimedRoute α) (h : t.Counting) : (t.route.allNodes.map RouteNode.key).Nodup := by
  have hdistinct : t.route.buckets.entries.Pairwise fun a b => a.1 ≠ b.1 :=
    (List.pairwise_map.1 t.route.buckets.ascending).imp Nat.ne_of_lt
  have hapart : t.route.buckets.entries.Pairwise fun a b =>
      List.Disjoint (a.2.map RouteNode.key) (b.2.map RouteNode.key) := by
    refine hdistinct.imp_of_mem fun {a b} ha hb hne => ?_
    intro key hkey hkey'
    obtain ⟨node, hnode, rfl⟩ := List.mem_map.1 hkey
    obtain ⟨node', hnode', hsame⟩ := List.mem_map.1 hkey'
    apply hne
    rw [← t.route.placed a ha node hnode, ← t.route.placed b hb node' hnode']
    exact congrArg (distanceExp _) (Prod.mk.inj hsame).1.symm
  unfold DhtRoute.allNodes
  rw [List.map_flatMap, List.nodup_flatMap]
  exact ⟨fun bucket hbucket => (h bucket hbucket).unique, hapart⟩

variable [DecidableEq α]

theorem absent_updateBucket {currentNodeId : ConstDataBuffer} {route : DhtRoute α} {index : Nat}
    {f : List (RouteNode α) → List (RouteNode α)}
    (hf : ∀ nodes, ∀ node ∈ f nodes, ∃ old ∈ nodes, old.nodeId = node.nodeId)
    (h : ∀ node ∈ route.allNodes, node.nodeId ≠ currentNodeId) :
    ∀ node ∈ (route.updateBucket index f hf).allNodes, node.nodeId ≠ currentNodeId := by
  intro node hnode
  obtain ⟨bucket, hbucket, hin⟩ := DhtRoute.mem_allNodes.1 hnode
  obtain ⟨-, hentries⟩ := @updateBucket_spec α _ route index f hf
  rcases hentries bucket hbucket with ⟨-, hold⟩ | ⟨nodes, hold, rfl⟩
  · exact h node (DhtRoute.mem_allNodes.2 ⟨bucket, hold, hin⟩)
  · obtain ⟨old, hmem, hid⟩ := hf nodes node hin
    rw [← hid]
    exact h old (DhtRoute.mem_allNodes.2 ⟨_, hold, hmem⟩)

theorem id_of_addNode {route : DhtRoute α} {id : ConstDataBuffer} {proxySession : RouteSession α}
    {hops : UInt8} {allowSkip : Bool} (h : (route.addNode id proxySession hops allowSkip).1 = true) :
    id ≠ route.currentNodeId := by
  intro hid
  rw [DhtRoute.addNode, if_pos (.inl hid)] at h
  cases h

theorem absent_step {currentNodeId : ConstDataBuffer} {t t' : TimedRoute α} {a : RouteStep α}
    (h : t.Absent currentNodeId) (hstep : t.step a = some t') : t'.Absent currentNodeId := by
  obtain ⟨hcurrent, habsent⟩ := h
  cases a with
  | addNode id proxySession hops allowSkip =>
    cases hstep
    constructor
    · rw [← hcurrent]
      change (t.route.addNode id proxySession hops allowSkip).2.currentNodeId = _
      unfold DhtRoute.addNode
      split_ifs <;> rfl
    · intro node hnode
      rcases mem_addNode hnode with ⟨hadded, hkey⟩ | hold
      · rw [← hcurrent, show node.nodeId = id from (Prod.mk.inj hkey).1]
        exact id_of_addNode hadded
      · exact habsent node hold
  | timer index =>
    cases hstep
    obtain ⟨hsame, -⟩ := @updateBucket_spec α _ t.route index DhtRoute.bucketOnTimer
      fun _ _ => DhtRoute.mem_bucketOnTimer
    exact ⟨hsame.trans hcurrent, absent_updateBucket (fun _ _ => DhtRoute.mem_bucketOnTimer) habsent⟩
  | markPinged targetNode address =>
    cases hstep
    obtain ⟨hsame, -⟩ := @updateBucket_spec α _ t.route
      (distanceExp t.route.currentNodeId targetNode) (DhtRoute.bucketMarkPinged targetNode address)
      fun _ _ => DhtRoute.mem_bucketMarkPinged
    exact ⟨hsame.trans hcurrent, absent_updateBucket (fun _ _ => DhtRoute.mem_bucketMarkPinged) habsent⟩
  | removeSession address =>
    cases hstep
    refine ⟨hcurrent, fun node hnode => ?_⟩
    obtain ⟨bucket, hbucket, hin⟩ := DhtRoute.mem_allNodes.1 hnode
    obtain ⟨old, hold, rfl⟩ := List.mem_map.1 hbucket
    exact habsent node (DhtRoute.mem_allNodes.2 ⟨old, hold, List.mem_of_mem_filter hin⟩)

/-- Every sequence of operations on the table of a node that starts leaves it so. -/
theorem represented_of_run (currentNodeId : ConstDataBuffer) (actions : List (RouteStep α)) :
    ∃ t, run step (start currentNodeId) actions = some t ∧ t.route.Represented currentNodeId := by
  have hinv : ∃ t, run step (start currentNodeId : TimedRoute α) actions = some t ∧ t.Counting ∧
      t.Absent currentNodeId := by
    induction actions using List.reverseRecOn with
    | nil =>
      have hempty : ∀ node ∈ (start currentNodeId : TimedRoute α).route.allNodes,
          node.nodeId ≠ currentNodeId := fun _ h => absurd h List.not_mem_nil
      exact ⟨_, rfl, fun _ h => absurd h List.not_mem_nil, rfl, hempty⟩
    | append_singleton actions a ih =>
      obtain ⟨t, ht, hcounting, habsent⟩ := ih
      obtain ⟨t', hstep⟩ : ∃ t', t.step a = some t' := by cases a <;> exact ⟨_, rfl⟩
      exact ⟨t', run_concat_eq_some.2 ⟨t, ht, hstep⟩, counting_step hcounting hstep,
        absent_step habsent hstep⟩
  obtain ⟨t, ht, hcounting, hcurrent, habsent⟩ := hinv
  refine ⟨t, ht, fun bucket hbucket node hnode => ?_, nodup_keys t hcounting, habsent⟩
  rw [← hcurrent]
  exact t.route.placed bucket hbucket node hnode

end TimedRoute

end Vds.DhtNetwork

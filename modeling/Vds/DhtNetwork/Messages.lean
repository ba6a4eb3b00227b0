import Vds.Kernel.Serialization
import Vds.LogSync.StateExchange

/-! The messages between nodes, with the fields in the order of their `visit`. -/

namespace Vds

open Serializable

namespace LogSync

def TransactionLogState.visit : Serializable TransactionLogState :=
  (buffer.list.both buffer).as (fun m => (m.leafs, m.sourceNode))
    (fun (leafs, sourceNode) => { leafs, sourceNode })

def TransactionLogRequest.visit : Serializable TransactionLogRequest :=
  (buffer.both buffer).as (fun m => (m.transactionId, m.sourceNode))
    (fun (transactionId, sourceNode) => { transactionId, sourceNode })

structure TransactionLogRecord where
  recordId : ConstDataBuffer
  data : ConstDataBuffer

def TransactionLogRecord.visit : Serializable TransactionLogRecord :=
  (buffer.both buffer).as (fun m => (m.recordId, m.data)) (fun (recordId, data) => { recordId, data })

theorem TransactionLogState.visit_law : TransactionLogState.visit.Law := by
  refine Law.as ?_ (fun _ => rfl) fun _ => rfl
  exact buffer_law.list.both buffer_law

theorem TransactionLogRequest.visit_law : TransactionLogRequest.visit.Law := by
  refine Law.as ?_ (fun _ => rfl) fun _ => rfl
  exact buffer_law.both buffer_law

theorem TransactionLogRecord.visit_law : TransactionLogRecord.visit.Law := by
  refine Law.as ?_ (fun _ => rfl) fun _ => rfl
  exact buffer_law.both buffer_law

end LogSync

namespace DhtNetwork

structure DhtPing where
  pingTime : UInt64

def DhtPing.visit : Serializable DhtPing :=
  uint64.as (fun m => m.pingTime) (fun pingTime => { pingTime })

structure DhtPong where
  pingTime : UInt64
  pongTime : UInt64

def DhtPong.visit : Serializable DhtPong :=
  (uint64.both uint64).as (fun m => (m.pingTime, m.pongTime))
    (fun (pingTime, pongTime) => { pingTime, pongTime })

structure DhtFindNode where
  targetId : ConstDataBuffer

def DhtFindNode.visit : Serializable DhtFindNode :=
  buffer.as (fun m => m.targetId) (fun targetId => { targetId })

structure TargetNode where
  targetId : ConstDataBuffer
  address : StdString
  hops : UInt8

def TargetNode.fields : Serializable TargetNode :=
  (buffer.both <| string.both uint8).as (fun n => (n.targetId, n.address, n.hops))
    (fun (targetId, address, hops) => { targetId, address, hops })

structure DhtFindNodeResponse where
  nodes : List TargetNode

def DhtFindNodeResponse.visit : Serializable DhtFindNodeResponse :=
  TargetNode.fields.list.as (fun m => m.nodes) (fun nodes => { nodes })

structure SyncReplicaRequest where
  objectId : ConstDataBuffer

def SyncReplicaRequest.visit : Serializable SyncReplicaRequest :=
  buffer.as (fun m => m.objectId) (fun objectId => { objectId })

structure SyncReplicaData where
  objectId : ConstDataBuffer
  data : ConstDataBuffer
  owner : ConstDataBuffer
  valueId : ConstDataBuffer
  replica : UInt16

def SyncReplicaData.visit : Serializable SyncReplicaData :=
  (buffer.both <| buffer.both <| buffer.both <| buffer.both uint16).as
    (fun m => (m.objectId, m.data, m.owner, m.valueId, m.replica))
    (fun (objectId, data, owner, valueId, replica) => { objectId, data, owner, valueId, replica })

theorem DhtPing.visit_law : DhtPing.visit.Law := by
  refine Law.as ?_ (fun _ => rfl) fun _ => rfl
  exact uint64_law

theorem DhtPong.visit_law : DhtPong.visit.Law := by
  refine Law.as ?_ (fun _ => rfl) fun _ => rfl
  exact uint64_law.both uint64_law

theorem DhtFindNode.visit_law : DhtFindNode.visit.Law := by
  refine Law.as ?_ (fun _ => rfl) fun _ => rfl
  exact buffer_law

theorem TargetNode.fields_law : TargetNode.fields.Law := by
  refine Law.as ?_ (fun _ => rfl) fun _ => rfl
  exact buffer_law.both <| string_law.both uint8_law

theorem DhtFindNodeResponse.visit_law : DhtFindNodeResponse.visit.Law := by
  refine Law.as ?_ (fun _ => rfl) fun _ => rfl
  exact TargetNode.fields_law.list

theorem SyncReplicaRequest.visit_law : SyncReplicaRequest.visit.Law := by
  refine Law.as ?_ (fun _ => rfl) fun _ => rfl
  exact buffer_law

theorem SyncReplicaData.visit_law : SyncReplicaData.visit.Law := by
  refine Law.as ?_ (fun _ => rfl) fun _ => rfl
  exact buffer_law.both <| buffer_law.both <| buffer_law.both <| buffer_law.both uint16_law

end DhtNetwork
end Vds

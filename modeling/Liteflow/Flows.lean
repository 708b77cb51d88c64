import Liteflow.Rbuffer

/-!
# The flows of a peer

`find_flow`, `create_flow`, `release_flow` and `next_flow_id` of `liteflow.c`. Of a `flow_info_t` only
`flow` is kept: the other fields are written by the users of the table.
-/

namespace Liteflow

def liteflowRecordExists : Int := -1101

structure FlowInfo where
  flow : U32
deriving DecidableEq, Repr

/-- `peer->flow_map`, a tree map with `seq_cmp`. -/
abbrev FlowMap := Treemap U32 FlowInfo

namespace FlowMap

def findFlow (flowMap : FlowMap) (flow : U32) : Option FlowInfo :=
  flowMap.treemapGet seqCmp flow

def createFlow (flowMap : FlowMap) (flow : U32) : Int × FlowMap :=
  if (findFlow flowMap flow).isSome then (liteflowRecordExists, flowMap)
  else flowMap.treemapInsert seqCmp flow { flow := flow }

def releaseFlow (flowMap : FlowMap) (flow : U32) : FlowMap :=
  (flowMap.treemapDelete seqCmp flow).2

end FlowMap

inductive FlowCall where
  | create (flow : U32)
  | release (flow : U32)
deriving DecidableEq, Repr

def FlowCall.run (flowMap : FlowMap) : FlowCall → FlowMap
  | create flow => (flowMap.createFlow flow).2
  | release flow => flowMap.releaseFlow flow

/-- The table after a sequence of calls, from the one `new_peer` starts with. -/
def FlowCall.runAll (calls : List FlowCall) : FlowMap :=
  calls.foldl FlowCall.run .nil

/-! ### Allocation of flow ids -/

/-- One turn of the loop of `next_flow_id`. -/
def candidateFlow (nodeId : U32) (peerId : U16) (nextFlow : U32) : U32 :=
  (if nodeId < peerId.setWidth 32 then 0 else 1) ||| (nextFlow <<< 1)

/-- `next_flow_id`: the id and `next_flow` after the call; `none` when the turns do not suffice. -/
def nextFlowId (nodeId : U32) (peerId : U16) (flowMap : FlowMap) : Nat → U32 → Option (U32 × U32)
  | 0, _ => none
  | fuel + 1, nextFlow =>
      let flow := candidateFlow nodeId peerId nextFlow
      if flow = 0 ∨ (flowMap.findFlow flow).isSome then
        nextFlowId nodeId peerId flowMap fuel (nextFlow + 1)
      else
        some (flow, nextFlow + 1)

/-- What one end has for the other: `next_flow`, and the flows of the peer. -/
structure FlowEnd where
  nextFlow : U32
  flowMap : FlowMap

/-- What can happen at one end between and at the allocations for the other one. -/
inductive FlowAction where
  | next (fuel : Nat)
  | change (call : FlowCall)
  /-- `next_flow` is shared by all peers of a node. -/
  | others (count : Nat)

/-- The actions at an end whose configured id is `nodeId`, and the ids that `next_flow_id` returns. -/
def FlowEnd.allocate (nodeId : U32) (peerId : U16) : FlowEnd → List FlowAction → List U32
  | _, [] => []
  | e, .next fuel :: rest =>
      match nextFlowId nodeId peerId e.flowMap fuel e.nextFlow with
      | none => []
      | some (flow, nextFlow) =>
          flow :: allocate nodeId peerId { e with nextFlow := nextFlow } rest
  | e, .change call :: rest => allocate nodeId peerId { e with flowMap := call.run e.flowMap } rest
  | e, .others count :: rest =>
      allocate nodeId peerId { e with nextFlow := e.nextFlow + BitVec.ofNat 32 count } rest

/-- The id of a node on the wire: `litedt_init` takes a `uint16_t`. -/
def wireNodeId (nodeId : U32) : U16 :=
  nodeId.setWidth 16

end Liteflow

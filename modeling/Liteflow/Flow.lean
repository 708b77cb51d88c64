import Liteflow.System
import Mathlib.Logic.Relation

/-!
# One flow of a host as a transition system

`Host.view h flow` is what a host knows and has done about one flow. A `Move` is one thing the code
does to it: a packet is posted, an acknowledgement moves the window, data is stored, the connection
is released. What the moves leave out is when they happen: timers, pacing and congestion control
decide that, and an invariant of the moves does not depend on it.

A move is described by the functions of the model on the stream. Its premises are what the code has
checked before, and what brought it there: `event` is the event being processed, and `start` the view
before it.
-/

namespace Liteflow

structure FlowState where
  cfg : Config
  curTime : Time
  session : Session
  stream : Option Stream
  /-- The number of entries of a packet in the retransmission queue. -/
  ready : U32 → Nat
  out : List Flight
  log : List Event

def Host.view (h : Host) (flow : U32) : FlowState where
  cfg := h.cfg
  curTime := h.curTime
  session := h.toSession
  stream := (h.findConnection flow).map Conn.toStream
  ready := fun seq => h.retransQueue.entries (flow, seq)
  out := h.out
  log := h.log

namespace FlowState

def withStream (v : FlowState) (c : Stream) : FlowState :=
  { v with stream := some c }

def send (v : FlowState) (flight : Flight) : FlowState :=
  { v with out := v.out ++ [flight] }

def note (v : FlowState) (event : Event) : FlowState :=
  { v with log := v.log ++ [event] }

end FlowState

/-- The flow a datagram belongs to; pings belong to none. -/
def Packet.flow? : Packet → Option U32
  | pingReq _ | pingRsp _ => none
  | packet => some packet.flow

def Event.flow? : Event → Option U32
  | wrote flow _ | read flow _ | created flow | released flow _ _ | bufferRead flow _ _ _ _
  | fecRecovered flow _ | fecIndices flow _ | assertFailed flow _ | dangling flow => some flow
  | pingAccepted _ => none

/-- The retransmission queue when the ready ones among `packets` have left it. -/
def unready (ready : U32 → Nat) (packets : List PacketEntry) : U32 → Nat :=
  packets.foldl (fun ready packet =>
    if packet.isReady then Function.update ready packet.seq 0 else ready) ready

/-- The retransmission queue when `packets` have entered it. -/
def enqueue (ready : U32 → Nat) (packets : List PacketEntry) : U32 → Nat := fun seq =>
  ready seq + packets.countP (fun packet => packet.seq = seq)

/-- The application closes the flow during the event. -/
def Closes (flow : U32) (env : Env) (event : HostEvent) : Prop :=
  event = .call (.close flow) ∨
    ∃ sendCb h writable, env.sendCb = some sendCb ∧ SendCall.close ∈ sendCb h flow writable

def Brings (flow : U32) (event : HostEvent) (data : DataPost) : Prop :=
  ∃ sent, Host.checkLength sent = some data ∧
    (event = .io (.dataPost flow sent) ∨ ∃ tunnelId, event = .io (.connectData flow tunnelId sent))

/-- Nothing has been read from the stream, or inserted into its error correction, since `start`. -/
def Untouched (start : FlowState) (c : Stream) : Prop :=
  match start.stream with
  | some before => c.consumed = before.consumed ∧ c.fec = before.fec
  | none => c.consumed = 0 ∧ c.fec = FecMod.init start.cfg

namespace Stream

/-- The tests of `litedt_data_post`. -/
def Fits (cfg : Config) (c : Stream) (seq len : U32) : Prop :=
  len.toNat ≤ cfg.mss ∧
    ¬ (c.swinSize < seq - c.swinStart ∨ c.swinSize < seq + len - c.swinStart)

def enter (nodeAlloc : Bool) (c : Stream) (packet : PacketEntry) : Stream :=
  if (c.packetList.treemapGet seqCmp packet.seq).isSome then c else c.addPacket nodeAlloc packet

/-- The message that carries the packet of an entry. -/
def postOf (c : Stream) (packet : PacketEntry) : DataPost :=
  c.dataPost packet.seq packet.length packet.fecSeq packet.fecIndex

/-- A first transmission: the entry of the packet, the error correction and `send_seq`. -/
def posted (cfg : Config) (nodeAlloc : Bool) (c : Stream) (packet : PacketEntry) : Stream :=
  let entered := c.enter nodeAlloc packet
  (if c.fecEnabled ∧ cfg.fecGroupSize ≠ 0 then
    entered.setFec (entered.fec.fecPushData (c.postOf packet))
  else entered).advance packet.length

/-- `fec_insert`, with the storing of what it recovers. -/
def insertFec (alloc : Alloc) (c : Stream) (inserted : FecMod.Inserted) : Stream :=
  match inserted.recovered with
  | none => c.setFec inserted.fec
  | some dp =>
      if dp.len = 0 then (c.setFec inserted.fec).establish
      else ((c.setFec inserted.fec).establish.storeData alloc dp).2

end Stream

namespace FlowState

variable (v : FlowState) (flow : U32) (c : Stream)

def postFull : FlowState :=
  if (c.fecEnabled ∧ v.cfg.fecGroupSize ≠ 0) ∧ c.fec.currentFecMembers ≤ c.fec.currentFecIndex ∧
      c.fec.currentFecIndex ≠ 0 then
    (v.withStream (c.setFec (c.fec.resetGroup v.cfg))).send (c.fecFlight flow)
  else v

/-- `litedt_data_post` of the packet of an entry; `entry` is the one it would create. -/
def repost (nodeAlloc : Bool) (packet entry : PacketEntry) : FlowState :=
  (if packet.length = 0 then v
    else (v.withStream (c.enter nodeAlloc entry)).note
      (c.bufferRead flow packet.seq packet.length)).send (c.dataFlight flow (c.postOf packet))

/-- `queue_retrans` of the entry that `key` points to. -/
def requeue (key : U32) (packet : PacketEntry) (time : Time) : FlowState :=
  if packet.isReady then { v with stream := v.stream.map (fun c => c.requeue key time) }
  else v.note (.assertFailed flow .queueRetrans)

/-- The end of a turn of `retrans_queue_send`, when `key` points to the entry at the top. -/
def popUnready (key : U32) : FlowState :=
  match v.stream.bind (fun c => c.packetList.treemapValue key) with
  | none => v.note (.dangling flow)
  | some packet =>
      if packet.isReady then v
      else { v with ready := Function.update v.ready key (v.ready key - 1) }

end FlowState

section Moves

variable (flow : U32) (env : Env) (event : HostEvent) (start : FlowState)

/-! ### Sending -/

structure FirstPacket (cfg : Config) (c : Stream) (packet : PacketEntry) : Prop where
  seq_eq : packet.seq = c.sendSeq
  length_le : packet.length.toNat ≤ (c.writeSeq - c.sendSeq).toNat
  length_pos : packet.length ≠ 0
  fec_eq : (packet.fecSeq, packet.fecIndex) =
    if c.fecEnabled ∧ cfg.fecGroupSize ≠ 0 then (c.fec.currentFecSeq, c.fec.currentFecIndex)
    else (0, 0)
  waiting : packet.isReady = false
  retransTime_eq : ∃ time, packet.retransTime = c.afterLastWaiting time
  fits : c.Fits cfg packet.seq packet.length

inductive SenderMove : FlowState → FlowState → Prop where
  | write {v : FlowState} {c : Stream} (data : Payload) (hstream : v.stream = some c)
      (hstate : c.state.code < ConnState.finWait.code)
      (hfits : data.val.length ≤ c.sendBuf.rbufWritableBytes.toNat) (hdata : 0 < data.val.length) :
      SenderMove v ((v.withStream (c.write env.alloc data.val)).note (.wrote flow data.val))
  | post {v : FlowState} {c : Stream} (packet : PacketEntry) (hstream : v.stream = some c)
      (hpacket : FirstPacket v.cfg c packet) :
      SenderMove v ((((v.withStream (c.posted v.cfg env.alloc.node packet)).note
        (c.bufferRead flow packet.seq packet.length)).send
          (c.dataFlight flow (c.postOf packet))).postFull flow
            (c.posted v.cfg env.alloc.node packet))
  | keepalive {v : FlowState} {c : Stream} (hstream : v.stream = some c) :
      SenderMove v (v.send (c.dataFlight flow (c.dataPost c.sendSeq 0 0 0)))
  | fecPost {v : FlowState} {c : Stream} (hstream : v.stream = some c)
      (hindex : c.fec.currentFecIndex ≠ 0) :
      SenderMove v ((v.withStream (c.setFec (c.fec.resetGroup v.cfg))).send (c.fecFlight flow))
  | ready {v : FlowState} {c c' : Stream} {packets : List PacketEntry} {dangling : Bool}
      (time : Time) (hstream : v.stream = some c)
      (hready : c.readyLoop time c.waitingQueue = (c', packets, dangling)) :
      SenderMove v
        { v with
          stream := some c'
          ready := enqueue v.ready packets
          log := if dangling then v.log ++ [.dangling flow] else v.log }
  | retransmit {v : FlowState} {c : Stream} {packet : PacketEntry} (key : U32) (time : Time)
      (entry : PacketEntry) (hstream : v.stream = some c) (hready : 0 < v.ready key)
      (hpacket : c.packetList.treemapValue key = some packet)
      (hwindow : lessEqual c.swinStart packet.seq = true)
      (hfits : c.Fits v.cfg packet.seq packet.length) (hentry : entry.seq = packet.seq) :
      SenderMove v (((v.repost flow c env.alloc.node packet entry).requeue flow key packet
        time).popUnready flow key)
  | giveUp {v : FlowState} {c : Stream} {packet : PacketEntry} (key : U32) (time : Time)
      (hstream : v.stream = some c) (hready : 0 < v.ready key)
      (hpacket : c.packetList.treemapValue key = some packet) :
      SenderMove v ((v.requeue flow key packet time).popUnready flow key)
  | hold {v : FlowState} {c : Stream} {packet : PacketEntry} (key : U32)
      (hstream : v.stream = some c) (hready : 0 < v.ready key)
      (hpacket : c.packetList.treemapValue key = some packet) :
      SenderMove v (v.popUnready flow key)
  | lost {v : FlowState} (key : U32) (hready : 0 < v.ready key)
      (hpacket : v.stream.bind (fun c => c.packetList.treemapValue key) = none) :
      SenderMove v (v.note (.dangling flow))

inductive AckMove : FlowState → FlowState → Prop where
  | range {v : FlowState} {c : Stream} {ack : DataAck} {range : U32 × U32}
      (hstream : v.stream = some c) (hevent : event = .io (.dataAck flow ack))
      (hrange : range ∈ ack.acks) :
      AckMove v
        { v with
          stream := some (c.releaseRange range.1 range.2).1
          ready := unready v.ready (c.releaseRange range.1 range.2).2 }
  | window {v : FlowState} {c moved : Stream} {ack : DataAck} (hstream : v.stream = some c)
      (hevent : event = .io (.dataAck flow ack)) (hwindow : c.inWindow ack = true)
      (hmoved : c.moveSwin env.alloc.node v.curTime ack = some moved) :
      AckMove v
        { v with
          stream := some (moved.checkpoint ack.winStart).1
          ready := unready v.ready (moved.checkpoint ack.winStart).2 }
  | failed {v : FlowState} {c : Stream} {ack : DataAck} (hstream : v.stream = some c)
      (hevent : event = .io (.dataAck flow ack)) (hwindow : c.inWindow ack = true)
      (hmoved : c.moveSwin env.alloc.node v.curTime ack = none) :
      AckMove v (v.note (.assertFailed flow .ackRelease))

/-! ### Receiving -/

/-- What is inserted into the error correction: the data packet or the sum that the event brings. -/
inductive Insertion (fec : FecMod) : FecMod.Inserted → Prop where
  | data {nodeAlloc : Bool} {data : DataPost} (hevent : Brings flow event data) :
      Insertion fec (fec.fecInsertData nodeAlloc data)
  | sum {nodeAlloc : Bool} {sum : DataFec} (hevent : event = .io (.dataFec flow sum)) :
      Insertion fec (fec.fecInsertSum nodeAlloc sum)

inductive ReceiverMove : FlowState → FlowState → Prop where
  | store {v : FlowState} {c : Stream} {data : DataPost} (hstream : v.stream = some c)
      (hevent : Brings flow event data) (hlen : data.len ≠ 0) (huntouched : Untouched start c) :
      ReceiverMove v (v.withStream (c.storeData env.alloc data).2)
  | insert {v : FlowState} {c : Stream} {inserted : FecMod.Inserted} (hstream : v.stream = some c)
      (hinserted : Insertion flow event c.fec inserted) (huntouched : Untouched start c)
      (hstate : c.state ≠ .request) (hdecode : v.cfg.fecDecode ≠ 0) :
      ReceiverMove v
        { v.withStream (c.insertFec env.alloc inserted) with
          log := v.log ++ [.fecIndices flow inserted.indices] ++
            (inserted.recovered.map (fun dp => Event.fecRecovered flow dp)).toList }
  | checkpoint {v : FlowState} {c : Stream} (hstream : v.stream = some c) :
      ReceiverMove v (v.withStream (c.setFec (c.fec.fecCheckpoint v.cfg c.rwinStart)))
  | read {v : FlowState} {c c' : Stream} {size : U32} (hstream : v.stream = some c)
      (hsize : size ≠ 0) (hreleased : c.releaseRecv env.alloc.node size = some c') :
      ReceiverMove v ((v.withStream c').note (.read flow (c.front size.toNat)))
  | failed {v : FlowState} {c : Stream} {size : U32} (hstream : v.stream = some c)
      (hreleased : c.releaseRecv env.alloc.node size = none) :
      ReceiverMove v (v.note (.assertFailed flow .recvRelease))
  | ack {v : FlowState} {c : Stream} (acks : List (U32 × U32)) (sackMap : Treemap U32 SackInfo)
      (hstream : v.stream = some c)
      (hacks : (acks, sackMap) = c.takeAcks v.cfg.ackSize ∨ (acks, sackMap) = ([], c.sackMap)) :
      ReceiverMove v ((v.withStream (c.acknowledged acks sackMap)).send (c.ackFlight flow acks))

/-! ### Opening and closing -/

inductive Opens : ConnState → Prop where
  | connect {tunnelId : U16} (hevent : event = .call (.connect flow tunnelId)) : Opens .request
  | request {tunnelId : U16} (hevent : event = .io (.connectReq flow tunnelId)) :
      Opens .established
  | data {tunnelId : U16} {sent : DataPost}
      (hevent : event = .io (.connectData flow tunnelId sent)) : Opens .established

/-- What the code has checked before it releases a connection. -/
inductive Releases (curTime : Time) (c : Stream) : ReleaseCause → Prop where
  | timeout {fuel : Nat} (hevent : event = .time fuel)
      (hlate : connectionTimeout < curTime - c.lastSyncTime) : Releases curTime c .timeout
  | drained (hstate : c.state = .closed) (hread : c.recvBuf.rbufReadableBytes = 0) :
      Releases curTime c .drained
  | offline : Releases curTime c .offline
  | finalised (hevent : event = .fini) : Releases curTime c .finalised
  | application (hcloses : Closes flow env event)
      (hstate : c.state = .closeWait ∨ c.state = .closed) : Releases curTime c .application
  | refused {status : Int} (hevent : event = .io (.connectRsp flow status)) (hstatus : status ≠ 0) :
      Releases curTime c .refused
  | closeReq {lastSeq : U32} (hevent : event = .io (.closeReq flow lastSeq))
      (hstate : c.state = .finWait) : Releases curTime c .closeReq
  | closeRsp (hevent : event = .io (.closeRsp flow)) (hstate : c.state = .finWait) :
      Releases curTime c .closeRsp
  | reset (hevent : event = .io (.connectRst flow)) (hstate : c.state = .finWait) :
      Releases curTime c .reset

/-- Why a `CLOSE_RSP` may be sent without a change of state. -/
inductive Answers (v : FlowState) : Prop where
  | absent {lastSeq : U32} (hevent : event = .io (.closeReq flow lastSeq))
      (hstream : v.stream = none)
  | application (hcloses : Closes flow env event)

inductive ControlMove : FlowState → FlowState → Prop where
  | establish {v : FlowState} {c : Stream} (hstream : v.stream = some c) :
      ControlMove v (v.withStream c.establish)
  | create {v : FlowState} {state : ConnState} (tunnelId : U16) (hstream : v.stream = none)
      (hopens : Opens flow event state) :
      ControlMove v ((v.withStream (Host.newConn v.cfg env.now tunnelId state).toStream).note
        (.created flow))
  | release {v : FlowState} {c : Stream} {cause : ReleaseCause} (hstream : v.stream = some c)
      (hreleases : Releases flow env event v.curTime c cause) :
      ControlMove v
        { v.note (.released flow cause c) with
          stream := none
          ready := unready v.ready (c.packetList.toList.map Prod.snd) }
  | close {v : FlowState} {c : Stream} (hstream : v.stream = some c)
      (hcloses : Closes flow env event) (hstate : c.state.code ≤ ConnState.established.code) :
      ControlMove v ((v.withStream { c with state := .finWait }).send
        { packet := .closeReq flow c.writeSeq })
  | confirm {v : FlowState} {c : Stream} {lastSeq : U32} (hstream : v.stream = some c)
      (hevent : event = .io (.closeReq flow lastSeq)) (hfin : c.state ≠ .finWait)
      (hclosed : c.state ≠ .closed) (hend : c.recvEnd = lastSeq) :
      ControlMove v ((v.withStream (c.closeWait lastSeq)).send { packet := .closeRsp flow })
  | closeWait {v : FlowState} {c : Stream} {lastSeq : U32} (hstream : v.stream = some c)
      (hevent : event = .io (.closeReq flow lastSeq)) (hfin : c.state ≠ .finWait)
      (hclosed : c.state ≠ .closed) (hend : c.recvEnd ≠ lastSeq) :
      ControlMove v (v.withStream (c.closeWait lastSeq))
  | reset {v : FlowState} {c : Stream} (hstream : v.stream = some c)
      (hevent : event = .io (.connectRst flow)) (hfin : c.state ≠ .finWait) :
      ControlMove v (v.withStream { c with state := .closed })
  | closeReq {v : FlowState} {c : Stream} (hstream : v.stream = some c)
      (hstate : c.state = .finWait) :
      ControlMove v (v.send { packet := .closeReq flow c.writeSeq })
  | closeRsp {v : FlowState} (hanswers : Answers flow env event v) :
      ControlMove v (v.send { packet := .closeRsp flow })
  | connectReq {v : FlowState} (tunnelId : U16) :
      ControlMove v (v.send { packet := .connectReq flow tunnelId })
  | connectRsp {v : FlowState} (status : Int) :
      ControlMove v (v.send { packet := .connectRsp flow status })
  | connectRst {v : FlowState} : ControlMove v (v.send { packet := .connectRst flow })

/-! ### The session -/

inductive SessionMove : FlowState → FlowState → Prop where
  | pingReq {v : FlowState} :
      SessionMove v
        ({ v with
            session :=
              { v.session with
                pingId := v.session.pingId + 1
                priorPingTime := env.realtime } }.send
          { packet := .pingReq
              { nodeId := v.session.nodeId
                pingId := v.session.pingId + 1
                timestamp := env.realtime
                token := v.cfg.generateToken v.session.nodeId
                  (Host.tokenData (v.session.pingId + 1) env.realtime) } })
  | pingRsp {v : FlowState} {req : PingReq} (hevent : event = .io (.pingReq req))
      (htoken : req.token =
        v.cfg.generateToken req.nodeId (Host.tokenData req.pingId req.timestamp)) :
      SessionMove v (v.send
        { packet := .pingRsp
            { nodeId := v.session.nodeId
              pingId := req.pingId
              timestamp := req.timestamp
              token := v.cfg.generateToken v.session.nodeId req.token } })
  | accept {v : FlowState} {rsp : PingRsp} (hevent : event = .io (.pingRsp rsp))
      (hid : rsp.pingId = v.session.pingId) (htime : rsp.timestamp = v.session.priorPingTime)
      (hnode : rsp.nodeId ≠ 0)
      (htoken : rsp.token = v.cfg.generateToken rsp.nodeId
        (v.cfg.generateToken v.session.nodeId (Host.tokenData rsp.pingId rsp.timestamp))) :
      SessionMove v
        { v.note (.pingAccepted rsp) with
          session :=
            { v.session with
              peerNodeId := if v.session.peerNodeId = 0 then rsp.nodeId else v.session.peerNodeId
              remoteOnline := true
              pingId := v.session.pingId + 1 } }
  | offline {v : FlowState} :
      SessionMove v { v with session := { v.session with remoteOnline := false } }
  | finalise {v : FlowState} (hevent : event = .fini) :
      SessionMove v { v with session := { v.session with closed := true } }

/-- One thing the code does, as seen from `flow`. -/
inductive Move : FlowState → FlowState → Prop where
  | sender {v v' : FlowState} (hmove : SenderMove flow env v v') : Move v v'
  | ack {v v' : FlowState} (hmove : AckMove flow env event v v') : Move v v'
  | receiver {v v' : FlowState} (hmove : ReceiverMove flow env event start v v') : Move v v'
  | control {v v' : FlowState} (hmove : ControlMove flow env event v v') : Move v v'
  | session {v v' : FlowState} (hmove : SessionMove env event v v') : Move v v'
  | foreignSend {v : FlowState} (flight : Flight) (hflow : flight.packet.flow? ≠ some flow)
      (hping : flight.packet.flow? ≠ none) : Move v (v.send flight)
  | foreignNote {v : FlowState} (note : Event) (hflow : note.flow? ≠ some flow)
      (hping : note.flow? ≠ none) : Move v (v.note note)

def Moves : FlowState → FlowState → Prop :=
  Relation.ReflTransGen (Move flow env event start)

end Moves

end Liteflow

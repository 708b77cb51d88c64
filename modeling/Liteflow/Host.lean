import Liteflow.Fec
import Liteflow.Lib.Ring
import Liteflow.Timerlist
import Liteflow.WindowedFilter

/-!
# The state of a host

The records of `litedt.h`, `retrans.h` and `ctrl.h`, and the small functions everything else in
`litedt.c` goes through.

* A pointer to a connection is its flow, a pointer to a packet entry its flow and its sequence
  number; `find_connection` and the tree map follow them.
* `out` collects every datagram handed to the socket. Whether it arrives, how often and when is up to
  the network.
* `log` records what no field keeps: what the application wrote and read, why a connection was
  released, which bytes of a buffer were read.
* `acked`, `consumed` and `confirmed` of a stream, and the positions of a `Flight`, are not in the
  source either. Sequence numbers wrap; they say which byte of the stream a number stands for.
  `stored` and `acks` of a stream record what it has received and what it has said about that.
* `wakes` records the calls of `litedt_mod_evtime`: the time, and whether `event_time_cb` was called.
* `counts` records what has been done to the counters of the congestion control.
* The statistics of `litedt_stat_t`, `ping_rtt` and `delivered_bytes` are left out: no function reads
  them.
-/

namespace Liteflow

/-- `MAX` and `MIN` at `uint32_t`. -/
def umax (a b : U32) : U32 :=
  if b < a then a else b

def umin (a b : U32) : U32 :=
  if a < b then a else b

theorem umax_toNat (a b : U32) : (umax a b).toNat = max a.toNat b.toNat := by
  unfold umax
  split <;> rename_i h <;> rw [BitVec.lt_def] at h <;> omega

theorem umin_toNat (a b : U32) : (umin a b).toNat = min a.toNat b.toNat := by
  unfold umin
  split <;> rename_i h <;> rw [BitVec.lt_def] at h <;> omega

def swndMaxSize : U32 := 1073741824
def zeroWindowProbes : Nat := 120
def keepaliveProbes : Nat := 18

def connectionTimeout : Time := 120000000
def timeWaitExpire : Time := 120000000
def pingInterval : Time := 10000000
def pingRetryWait : Time := 1000000
def keepaliveTime : Time := 30000000
def keepaliveInterval : Time := 5000000
def fastAckDelay : Time := 20000
def reackDelay : Time := 40000
def normalAckDelay : Time := 1000000
def slowAckDelay : Time := 60000000
def idleInterval : Time := 1000000
def sendInterval : Time := 1000

/-! ### Error codes -/

def litedtRecordNotFound : Int := -100
def litedtRecordExists : Int := -101
def litedtParameterError : Int := -104
def litedtNotEnoughSpace : Int := -105
def litedtSeqOutOfRange : Int := -106
def litedtSendFlowControl : Int := -200
def litedtClientOffline : Int := -300

/-! ### Connections -/

inductive ConnState where
  | request
  | established
  | finWait
  | closeWait
  | closed
deriving DecidableEq, Repr

/-- The value of the enumeration, for the comparisons of states. -/
def ConnState.code : ConnState → Nat
  | request => 0
  | established => 1
  | finWait => 2
  | closeWait => 3
  | closed => 4

structure SackInfo where
  seqEnd : U32
  sendTimes : U8
deriving DecidableEq, Repr

structure PacketEntry where
  sendTime : Time
  retransTime : Time
  deliveredTime : Time
  firstTxTime : Time
  delivered : U32
  seq : U32
  length : U32
  fecSeq : U32
  fecIndex : U8
  isReady : Bool
  isAppLimited : Bool
  retransRound : U16

structure RateSample where
  priorMstamp : Time := 0
  priorDelivered : U32 := 0
  intervalUs : Time := 0
  rttUs : U32 := 0
  isAppLimited : Bool := false

/-- An acknowledgement that has been sent: the position of its `win_start`, and the packets that had
been written into `recv_buf` by then. -/
structure SentAck where
  pos : Nat
  ack : DataAck
  stored : List DataPost

/-- The part of `litedt_conn_t` that carries the two byte streams. `acked` is the number of bytes
released from `send_buf`, `consumed` that of `recv_buf`, and `confirmed` holds once a `CLOSE_REQ` has
been answered because everything had arrived. `stored` are the packets written into `recv_buf`, and
`acks` the acknowledgements sent, both oldest first. -/
structure Stream where
  tunnelId : U16
  state : ConnState
  swinStart : U32
  swinSize : U32
  rwinStart : U32
  rwinSize : U32
  writeSeq : U32
  sendSeq : U32
  sackMap : Treemap U32 SackInfo
  lastSyncTime : Time
  sendBuf : Rbuf
  recvBuf : Rbuf
  packetList : Treemap U32 PacketEntry
  waitingQueue : List U32
  fecEnabled : Bool
  fec : FecMod
  acked : Nat
  consumed : Nat
  confirmed : Bool
  stored : List DataPost
  acks : List SentAck

/-- `litedt_conn_t`: the streams, and the timers and flags that schedule them. `active` says that
`active_list` is linked. -/
structure Conn extends Stream where
  reackTimes : U8
  probesSent : U8
  notifyRecvnew : Bool
  notifyRecv : Bool
  notifySend : Bool
  active : Bool
  lastProbeTime : Time
  nextSyncTime : Time

/-! ### Hosts -/

inductive BbrMode where
  | startup
  | drain
  | probeBw
  | probeRtt
deriving DecidableEq, Repr

structure CtrlMod where
  bbrMode : BbrMode
  priorRttRound : U32
  fullBw : U32
  fullBdp : U32
  minRttUs : U32
  minRttStamp : Time
  probeRttDoneStamp : Time
  probeRttCwndTarget : U32
  probeRttRoundDone : Bool
  priorBw : U32
  fullBwReached : Bool
  fullBwCnt : BitVec 2
  roundStart : Bool

/-- A datagram on its way. Of a data packet `pos` is the position of its first byte and `group` that
of its error-correction group, of an acknowledgement `pos` is the position of `win_start`, and of an
error-correction packet both are that of its group. None of this is transmitted. -/
structure Flight where
  packet : Packet
  pos : Nat := 0
  group : Nat := 0

/-- Where `release_connection` was called. -/
inductive ReleaseCause where
  | timeout
  | drained
  | offline
  | finalised
  | application
  | refused
  | closeReq
  | closeRsp
  | reset
deriving DecidableEq, Repr

/-- The assertions that depend on what the host is given. -/
inductive Assertion where
  /-- `r_size <= readable` in `rbuf_release`, called by `litedt_on_data_ack`. -/
  | ackRelease
  /-- The same, called by `litedt_recv` or `litedt_recv_skip`. -/
  | recvRelease
  /-- `packet->is_ready` in `queue_retrans`. -/
  | queueRetrans
deriving DecidableEq, Repr

inductive Event where
  /-- A successful `litedt_send`. -/
  | wrote (flow : U32) (data : List Byte)
  /-- Bytes that left `recv_buf` for the application. -/
  | read (flow : U32) (data : List Byte)
  | created (flow : U32)
  | released (flow : U32) (cause : ReleaseCause) (stream : Stream)
  /-- `rbuf_read` in `litedt_data_post`: the range, and the range that `send_buf` holds. -/
  | bufferRead (flow : U32) (seq len startPos readable : U32)
  /-- What `fec_insert` hands to `litedt_on_data_recv`. -/
  | fecRecovered (flow : U32) (post : DataPost)
  /-- Indices used with `FEC_ISSET` and `FEC_SET`. -/
  | fecIndices (flow : U32) (indices : List U8)
  /-- A response that `litedt_on_ping_rsp` has accepted. -/
  | pingAccepted (rsp : PingRsp)
  /-- A failed `assert`; the source aborts here. -/
  | assertFailed (flow : U32) (assertion : Assertion)
  /-- A pointer to a packet entry that no longer exists was followed. -/
  | dangling (flow : U32)

/-- What the code does to the counters of the congestion control. -/
inductive GaugeAct where
  /-- `create_packet_entry`. -/
  | post
  /-- `packet_delivered`. -/
  | deliver
  /-- `generate_bandwidth`. -/
  | sample (newlyDelivered : U32)
  /-- The release of a connection with `n` packets in flight: `packet_abandon` for each of them. -/
  | release (n : Nat)
  /-- `host->app_limited = (host->delivered + host->inflight) ? : 1`. -/
  | limit
  /-- `host->next_rtt_delivered = host->delivered` in `update_min_rtt`. -/
  | probe
  /-- `pacing_rate_postcheck` of a new rate. -/
  | pace (rate : U32)
deriving DecidableEq, Repr

/-! ### The queue of active connections -/

/-- The calls of `list.h` for `active_queue`. Its head is the node `none`. -/
inductive ListCall where
  /-- `list_add_tail(&conn->active_list, &host->active_queue)`. -/
  | addTail (flow : U32)
  /-- `list_del(&conn->active_list)`. -/
  | del (flow : U32)
  /-- `list_move(&host->active_queue, conn->active_list.prev)`, unless that is the head already. -/
  | moveHead (flow : U32)
deriving DecidableEq, Repr

open Ring in
def ListCall.run : ListCall → Links (Option U32) → Option (Links (Option U32))
  | addTail flow, links => links.addTail (some flow) none
  | del flow, links => links.del (some flow)
  | moveHead flow, links =>
      match links.prev (some flow) with
      | none => none
      | some before => if before = none then some links else links.move none before

/-- The members of `active_queue` in their order, and the pointers that the calls of `list.h` have
made of the empty list; there are none after a call that follows a null pointer. -/
structure ActiveQueue where
  flows : List U32
  links : Option (Ring.Links (Option U32))

namespace ActiveQueue

/-- `INIT_LIST_HEAD`. -/
def init : ActiveQueue where
  flows := []
  links := some (Ring.Links.init ⟨fun _ => none, fun _ => none⟩ none)

def addTail (queue : ActiveQueue) (flow : U32) : ActiveQueue where
  flows := queue.flows ++ [flow]
  links := queue.links.bind (ListCall.addTail flow).run

def del (queue : ActiveQueue) (flow : U32) : ActiveQueue where
  flows := queue.flows.erase flow
  links := queue.links.bind (ListCall.del flow).run

def rotateTo (flow : U32) (flows : List U32) : List U32 :=
  flows.dropWhile (· ≠ flow) ++ flows.takeWhile (· ≠ flow)

/-- "move list head": the next round starts with `flow`. -/
def moveHead (queue : ActiveQueue) (flow : U32) : ActiveQueue where
  flows := rotateTo flow queue.flows
  links := queue.links.bind (ListCall.moveHead flow).run

end ActiveQueue

/-! ### The host -/

/-- The part of `litedt_host_t` that the pings use. -/
structure Session where
  nodeId : U16
  peerNodeId : U16
  remoteOnline : Bool
  closed : Bool
  pingId : U32
  priorPingTime : Time

structure Host extends Session where
  cfg : Config
  pacingTime : Time
  pacingCredit : U32
  pacingRate : U32
  sndCwnd : U32
  srtt : U32
  curTime : Time
  lastEventTime : Time
  nextEventTime : Time
  nextPingTime : Time
  offlineTime : Time
  rttMin : WindowedFilter
  bw : WindowedFilter
  rttRound : U32
  nextRttDelivered : U32
  inflight : U32
  inflightBytes : U32
  delivered : U32
  appLimited : U32
  deliveredTime : Time
  firstTxTime : Time
  connQueue : Timerlist U32 Conn
  retransQueue : Timerlist (U32 × U32) Unit
  timewaitQueue : HashQueue U32 Time
  activeQueue : ActiveQueue
  ctrl : CtrlMod
  out : List Flight
  log : List Event
  wakes : List (Time × Bool)
  counts : List GaugeAct

/-! ### What surrounds an event -/

/-- Calls that `receive_cb` makes on its flow in `tcp.c` and `udp.c`, apart from `litedt_peek`. -/
inductive ReceiveCall where
  | recv (len : U32)
  | skip (len : U32)
  | setNotifyRecv (notify : Bool)
  | setNotifyRecvnew (notify : Bool)

/-- Data handed to `litedt_send`, whose length is a `uint32_t`. -/
abbrev Payload := { data : List Byte // data.length < 2 ^ 32 }

def Payload.three : Payload := ⟨[1, 2, 3], by decide⟩

/-- Calls that `send_cb` makes on its flow. -/
inductive SendCall where
  | send (data : Payload)
  | setNotifySend (notify : Bool)
  | close

structure Env where
  now : Time
  realtime : Time
  alloc : Alloc
  connectCb : Option (Host → U32 → U16 → Int)
  receiveCb : Option (Host → U32 → U32 → List ReceiveCall)
  sendCb : Option (Host → U32 → U32 → List SendCall)

/-- An environment without callbacks in which every allocation succeeds. -/
def Env.plain (now : Time) : Env where
  now := now
  realtime := now
  alloc := { node := true, block := fun _ => some (fun _ => 0) }
  connectCb := none
  receiveCb := none
  sendCb := none

theorem Env.plain_succeeds (now : Time) : (Env.plain now).alloc.Succeeds :=
  ⟨rfl, fun _ => rfl⟩

namespace Host

def findConnection (h : Host) (flow : U32) : Option Conn :=
  h.connQueue.timerlistGet flow

/-- An assignment through the pointer to a connection. -/
def modifyConn (h : Host) (flow : U32) (update : Conn → Conn) : Host :=
  { h with connQueue := h.connQueue.timerlistModify flow update }

def record (h : Host) (event : Event) : Host :=
  { h with log := h.log ++ [event] }

def count (h : Host) (act : GaugeAct) : Host :=
  { h with counts := h.counts ++ [act] }

/-- `host->cur_time = get_curtime()`, at the start of an event. -/
def updateTime (env : Env) (h : Host) : Host :=
  { h with curTime := env.now }

/-- `socket_send`. The result says whether the flow control refused the datagram. -/
def socketSend (h : Host) (flight : Flight) (len : Nat) (force : Bool) : Bool × Host :=
  if force = false ∧ h.pacingCredit.toNat < len then
    (true, h)
  else
    let credit :=
      if len ≤ h.pacingCredit.toNat then h.pacingCredit - BitVec.ofNat 32 len else 0
    (false, { h with pacingCredit := credit, out := h.out ++ [flight] })

/-- `socket_send` with `force`, where the result is not used. -/
def emit (h : Host) (flight : Flight) (len : Nat) : Host :=
  (h.socketSend flight len true).2

def litedtOnlineStatus (h : Host) : Bool :=
  h.remoteOnline && !h.closed

/-- `if (event_time < conn->next_sync_time)` of `litedt_mod_evtime`. -/
def advanceSync (h : Host) (flow : U32) (eventTime : Time) : Host :=
  match h.findConnection flow with
  | none => h
  | some conn =>
      if eventTime < conn.nextSyncTime then
        let moved := h.modifyConn flow (fun c => { c with nextSyncTime := eventTime })
        { moved with connQueue := moved.connQueue.timerlistMoveup eventTime flow }
      else
        h

/-- `litedt_mod_evtime`; without a flow, `conn` is `NULL`. -/
def litedtModEvtime (h : Host) (flow : Option U32) (eventTime : Time) : Host :=
  let synced :=
    match flow with
    | none => h
    | some flow => h.advanceSync flow eventTime
  if eventTime < synced.nextEventTime then
    { synced with nextEventTime := eventTime, wakes := synced.wakes ++ [(eventTime, true)] }
  else
    { synced with wakes := synced.wakes ++ [(eventTime, false)] }

/-- `get_offline_time`; the product is computed in 32 bits. -/
def getOfflineTime (cfg : Config) (curTime : Time) : Time :=
  curTime + (cfg.offlineTimeout * BitVec.ofNat 32 usecPerSec).toNat

end Host

end Liteflow

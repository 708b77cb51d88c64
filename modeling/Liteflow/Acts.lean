import Liteflow.Gauges
import Liteflow.Tables

/-!
# What an event does to a host

An `Act` is one thing that the code does to a host while it handles an event. An event is a sequence
of acts, whatever it is, so a property that every act keeps holds in all states of all runs. The
transition systems of the tables and of the counters are read off the acts.
-/

namespace Liteflow

/-- What `host->delivered` was when the packets in flight were sent. -/
def Stream.snapshots (c : Stream) : List U32 :=
  c.packetList.toList.map (fun entry => entry.2.delivered)

def Stream.lengths (c : Stream) : List U32 :=
  c.packetList.toList.map (fun entry => entry.2.length)

/-- A change that leaves the packets in flight as they are, and brings no data to send that was not
there before. -/
structure Stream.Quiet (c c' : Stream) : Prop where
  owes : c'.owes = true → c.owes = true
  snapshots : c'.snapshots = c.snapshots
  lengths : c'.lengths = c.lengths

/-- The loop of `litedt_on_data_ack` over the ranges, with the entries it releases. -/
def Stream.releaseRanges : List (U32 × U32) → Stream → Stream × List PacketEntry
  | [], c => (c, [])
  | range :: rest, c =>
      let (ranged, packets) := c.releaseRange range.1 range.2
      let (released, more) := releaseRanges rest ranged
      (released, packets ++ more)

/-- `retrans_checkpoint` at the new start of the window, if the acknowledgement is inside it. -/
def Stream.releaseWindow (nodeAlloc : Bool) (now : Time) (c : Stream) (ack : DataAck) :
    Stream × List PacketEntry :=
  if c.inWindow ack then
    match c.moveSwin nodeAlloc now ack with
    | none => (c, [])
    | some moved => moved.checkpoint ack.winStart
  else
    (c, [])

/-- What `litedt_on_data_ack` leaves of a connection, with all the entries it releases. -/
def Stream.releaseAcked (nodeAlloc : Bool) (now : Time) (c : Stream) (ack : DataAck) :
    Stream × List PacketEntry :=
  let (ranged, packets) := c.establish.releaseRanges ack.acks
  let (released, more) := ranged.releaseWindow nodeAlloc now ack
  (released, packets ++ more)

namespace Host

/-- `litedt_on_data_ack` before it calls `send_cb`. -/
def releaseAcked (env : Env) (h : Host) (flow : U32) (ack : DataAck) : Host :=
  let established := h.modifyStream flow Stream.establish
  let (ranged, rs) := established.releaseRanges env flow ack.acks {}
  let (moved, rs) := ranged.moveWindow env flow ack rs
  (moved.generateBandwidth rs (moved.delivered - h.delivered)).ctrlIoEvent rs

end Host

/-- One thing the code does to the host while it handles `event`; `may` says which datagrams it
sends. -/
inductive Act (env : Env) (event : HostEvent) (may : Packet → Prop) : Host → Host → Prop where
  | aside {h h' : Host} (htables : h'.tables = h.tables) (hgauges : h'.gauges = h.gauges)
      (hqueue : h'.connQueue = h.connQueue) (hbytes : h'.inflightBytes = h.inflightBytes) :
      Act env event may h h'
  | send {h : Host} (flight : Flight) (credit : U32) (hmay : may flight.packet) :
      Act env event may h { h with pacingCredit := credit, out := h.out ++ [flight] }
  | note {h : Host} (entry : Event) (hentry : entry.isTurn = false) :
      Act env event may h (h.record entry)
  | wake {h : Host} (flow : Option U32) (time : Time) :
      Act env event may h (h.litedtModEvtime flow time)
  | update {h : Host} (flow : U32) (update : Conn → Conn)
      (hactive : ∀ conn, (update conn).active = conn.active)
      (hquiet : ∀ conn, h.findConnection flow = some conn →
        conn.toStream.Quiet (update conn).toStream) :
      Act env event may h (h.modifyConn flow update)
  /-- `litedt_send`. -/
  | write {h : Host} {conn : Conn} (flow : U32) (update : Stream → Stream)
      (hfind : h.findConnection flow = some conn)
      (hpackets : (update conn.toStream).packetList = conn.packetList) :
      Act env event may h ((h.modifyStream flow update).activate flow)
  | post {h : Host} (flow seq length fecSeq : U32) (fecIndex : U8) (hevent : event.isTime = true)
      (hpending : ∀ conn, h.findConnection flow = some conn →
        Host.isSndQueueEmpty conn.toStream = false) :
      Act env event may h (h.createPacketEntry env flow seq length fecSeq fecIndex)
  | rest {h : Host} {conn : Conn} (flow : U32) (hmember : flow ∈ h.activeQueue.flows)
      (hfind : h.findConnection flow = some conn) (howes : conn.owes = false) :
      Act env event may h (h.deactivate flow)
  | rotate {h : Host} (flow : U32) (hmember : flow ∈ h.activeQueue.flows) :
      Act env event may h { h with activeQueue := h.activeQueue.moveHead flow }
  | create {h : Host} (flow : U32) (tunnelId : U16) (state : ConnState)
      (hnew : h.findConnection flow = none) (hfree : h.timewaitQueue.queueGet flow = none) :
      Act env event may h
        ({ h with
          connQueue := h.connQueue.timerlistPush env.now flow
            (Host.newConn h.cfg env.now tunnelId state) }.record (.created flow))
  | release {h : Host} {conn : Conn} (flow : U32) (cause : ReleaseCause)
      (hfind : h.findConnection flow = some conn) :
      Act env event may h (h.releaseConnection env cause flow)
  | expire {h : Host} :
      Act env event may h { h with timewaitQueue := (Host.expireTimeWait env.now h.timewaitQueue).1 }
  | ack {h : Host} {conn : Conn} (flow : U32) (ack : DataAck)
      (hevent : event = .io (.dataAck flow ack)) (hfind : h.findConnection flow = some conn) :
      Act env event may h (h.releaseAcked env flow ack)
  /-- The end of a turn of `check_connection_state`. -/
  | resched {h : Host} (time : Time) :
      Act env event may h { h with connQueue := h.connQueue.timerlistReschedTop time }
  | control {h : Host} : Act env event may h h.ctrlTimeEvent
  | limit {h : Host} : Act env event may h h.limit

/-- What a part of an event does. -/
def Acts (env : Env) (event : HostEvent) (may : Packet → Prop) : Host → Host → Prop :=
  Relation.ReflTransGen (Act env event may)

end Liteflow

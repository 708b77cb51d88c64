import Liteflow.Ctrl

/-!
# Packet entries

`retrans.c`, apart from the two functions that send. A packet that has been sent has an entry in
`packet_list` until it is acknowledged. The entry waits in `waiting_queue`, or, when its time has
come, in the retransmission queue of the host, and then `is_ready` is set.
-/

namespace Liteflow

def defaultInterval : Time := 1000

namespace Stream

/-- `retrans_time`, but not before that of the last entry of the waiting queue. -/
def afterLastWaiting (c : Stream) (retransTime : Time) : Time :=
  match c.waitingQueue.getLast?.bind c.packetList.treemapValue with
  | none => retransTime
  | some last => if retransTime < last.retransTime then last.retransTime else retransTime

def modifyPacket (c : Stream) (seq : U32) (update : PacketEntry → PacketEntry) : Stream :=
  { c with packetList := c.packetList.treemapSetValue seq update }

def setReady (c : Stream) (seq : U32) : Stream :=
  { c.modifyPacket seq (fun packet => { packet with isReady := true }) with
    waitingQueue := c.waitingQueue.erase seq }

/-- What `queue_retrans` does to the entry. -/
def requeue (c : Stream) (seq : U32) (retransTime : Time) : Stream :=
  { c.modifyPacket seq (fun packet =>
      { packet with
        retransTime := c.afterLastWaiting retransTime
        retransRound :=
          if packet.retransRound.toNat < 65535 then packet.retransRound + 1
          else packet.retransRound
        isReady := false }) with
    waitingQueue := c.waitingQueue ++ [seq] }

/-- The entry that `key` points to leaves the connection. -/
def removePacket (c : Stream) (key : U32) (packet : PacketEntry) : Stream :=
  { c with
    waitingQueue := if packet.isReady then c.waitingQueue else c.waitingQueue.erase key
    packetList := (c.packetList.treemapDelete seqCmp packet.seq).2 }

/-- `treemap_insert2` of a new entry, which then waits. Without a node there is no entry, also where
the source dies (`Treemap.insertDies`). -/
def addPacket (nodeAlloc : Bool) (c : Stream) (packet : PacketEntry) : Stream :=
  match nodeAlloc, c.packetList.treemapInsert seqCmp packet.seq packet with
  | true, (0, list) =>
      { c with packetList := list, waitingQueue := c.waitingQueue ++ [packet.seq] }
  | _, _ => c

/-- The loop of `release_packet_range`, with the entries it releases. The next entry is looked up
before the current one goes. -/
def rangeLoop (seqEnd : U32) :
    Nat → Option (U32 × PacketEntry) → Stream → Stream × List PacketEntry
  | 0, _, c => (c, [])
  | _ + 1, none, c => (c, [])
  | fuel + 1, some (key, packet), c =>
      if lessEqual seqEnd packet.seq then
        (c, [])
      else
        let next := c.packetList.treemapNext key
        let (c', packets) := rangeLoop seqEnd fuel next (c.removePacket key packet)
        (c', packet :: packets)

def releaseRange (c : Stream) (seqStart seqEnd : U32) : Stream × List PacketEntry :=
  rangeLoop seqEnd c.packetList.treemapSize (c.packetList.treemapLowerBound seqCmp seqStart) c

/-- The loop of `retrans_checkpoint`, with the entries it releases. -/
def checkpointLoop (swndStart : U32) : Nat → Stream → Stream × List PacketEntry
  | 0, c => (c, [])
  | fuel + 1, c =>
      match c.packetList.treemapFirst with
      | none => (c, [])
      | some (key, packet) =>
          if lessEqual swndStart packet.seq then
            (c, [])
          else
            let (c', packets) := checkpointLoop swndStart fuel (c.removePacket key packet)
            (c', packet :: packets)

def checkpoint (c : Stream) (swndStart : U32) : Stream × List PacketEntry :=
  checkpointLoop swndStart c.packetList.treemapSize c

/-- The loop of `retrans_time_event` over the waiting queue, with the entries whose time has come, and
whether it met a pointer to an entry that does not exist. -/
def readyLoop (curTime : Time) : List U32 → Stream → Stream × List PacketEntry × Bool
  | [], c => (c, [], false)
  | seq :: rest, c =>
      match c.packetList.treemapValue seq with
      | none => (c, [], true)
      | some packet =>
          if curTime < packet.retransTime then
            (c, [], false)
          else
            let (c', packets, dangling) := readyLoop curTime rest (c.setReady seq)
            (c', packet :: packets, dangling)

end Stream

namespace Host

variable (env : Env)

def modifyStream (h : Host) (flow : U32) (update : Stream → Stream) : Host :=
  h.modifyConn flow (fun c => { c with toStream := update c.toStream })

def findPacket (h : Host) (flow seq : U32) : Option PacketEntry :=
  (h.findConnection flow).bind (fun c => c.packetList.treemapValue seq)

def getRetransTime (h : Host) (curTime : Time) : Time :=
  let rtt := if h.srtt = 0 then h.cfg.maxRtt else h.srtt
  if h.cfg.maxRtt < rtt then curTime + h.cfg.rto h.cfg.maxRtt
  else if rtt < h.cfg.minRtt then curTime + h.cfg.rto h.cfg.minRtt
  else curTime + h.cfg.rto rtt

def newPacket (h : Host) (c : Stream) (seq length fecSeq : U32) (fecIndex : U8) : PacketEntry where
  sendTime := env.now
  retransTime := c.afterLastWaiting (h.getRetransTime env.now)
  deliveredTime := h.deliveredTime
  firstTxTime := h.firstTxTime
  delivered := h.delivered
  seq := seq
  length := length
  fecSeq := fecSeq
  fecIndex := fecIndex
  isReady := false
  isAppLimited := h.appLimited ≠ 0
  retransRound := 0

def createPacketEntry (h : Host) (flow seq length fecSeq : U32) (fecIndex : U8) : Host :=
  match h.findConnection flow with
  | none => h
  | some conn =>
      if (conn.packetList.treemapGet seqCmp seq).isSome then
        h
      else
        let packet := h.newPacket env conn.toStream seq length fecSeq fecIndex
        { h.count .post with
          inflight := h.inflight + 1
          inflightBytes := h.inflightBytes + length }.modifyStream flow (fun c =>
            c.addPacket env.alloc.node packet)

def packetDelivered (h : Host) (packet : PacketEntry) (rs : RateSample) : Host × RateSample :=
  let counted :=
    { h.count .deliver with
      inflight := h.inflight - 1
      inflightBytes := h.inflightBytes - packet.length
      delivered := orElse (h.delivered + 1) 1 }
  let rtt := env.now - packet.sendTime
  let timed :=
    if packet.retransRound = 0 ∧ (rs.rttUs = 0 ∨ rtt < rs.rttUs.toNat) then
      { rs with rttUs := BitVec.ofInt 32 rtt }
    else
      rs
  if rs.priorDelivered = 0 ∨ lessEqual packet.delivered rs.priorDelivered = false then
    ({ counted with firstTxTime := packet.sendTime },
      { timed with
        priorDelivered := packet.delivered
        priorMstamp := packet.deliveredTime
        isAppLimited := packet.isAppLimited
        intervalUs := packet.sendTime - packet.firstTxTime })
  else
    (counted, timed)

/-- What `release_packet_entry` does to the host. -/
def releasePacketEntry (flow : U32) (state : Host × RateSample) (packet : PacketEntry) :
    Host × RateSample :=
  let (counted, rs) := state.1.packetDelivered env packet state.2
  if packet.isReady then
    ({ counted with retransQueue := counted.retransQueue.timerlistDel (flow, packet.seq) }, rs)
  else
    (counted, rs)

/-- The stream after a loop that has released `packets`, and what that does to the host. -/
def releasePackets (h : Host) (flow : U32) (released : Stream × List PacketEntry)
    (rs : RateSample) : Host × RateSample :=
  released.2.foldl (releasePacketEntry env flow) (h.modifyStream flow (fun _ => released.1), rs)

def releasePacketRange (h : Host) (flow seqStart seqEnd : U32) (rs : RateSample) :
    Host × RateSample :=
  match h.findConnection flow with
  | none => (h, rs)
  | some conn => h.releasePackets env flow (conn.releaseRange seqStart seqEnd) rs

def retransCheckpoint (h : Host) (flow swndStart : U32) (rs : RateSample) : Host × RateSample :=
  match h.findConnection flow with
  | none => (h, rs)
  | some conn => h.releasePackets env flow (conn.checkpoint swndStart) rs

/-- `timerlist_push` of an entry whose time has come. -/
def pushReady (flow : U32) (h : Host) (packet : PacketEntry) : Host :=
  { h with
    retransQueue := h.retransQueue.timerlistPush packet.sendTime (flow, packet.seq) () }

def retransTimeEvent (h : Host) (flow : U32) (curTime : Time) : Host :=
  match h.findConnection flow with
  | none => h
  | some conn =>
      if ConnState.closeWait.code ≤ conn.state.code then
        h
      else
        let (stream, packets, dangling) := conn.readyLoop curTime conn.waitingQueue
        let queued := packets.foldl (pushReady flow) (h.modifyStream flow (fun _ => stream))
        if dangling then queued.record (.dangling flow) else queued

def retransNextEventTime (h : Host) (flow : U32) (curTime : Time) : Time :=
  match (h.findConnection flow).bind (fun c => c.waitingQueue.head?) with
  | none => curTime + defaultInterval
  | some seq =>
      match h.findPacket flow seq with
      | none => curTime + defaultInterval
      | some first => first.retransTime

/-! ### Bandwidth -/

/-- The end of the time in which samples are marked as limited by the application. -/
def clearAppLimited (h : Host) : Host :=
  if h.appLimited ≠ 0 ∧ lessEqual h.delivered h.appLimited = false then { h with appLimited := 0 }
  else h

def countRound (h : Host) : Host :=
  if lessEqual h.nextRttDelivered h.delivered then
    { h with nextRttDelivered := h.delivered, rttRound := h.rttRound + 1 }
  else
    h

def sampleBandwidth (h : Host) (rs : RateSample) (intervalUs : Time) : Host :=
  let delivered := h.delivered - rs.priorDelivered
  let deliveryRate := BitVec.ofNat 32 (delivered.toNat * usecPerSec / intervalUs.toNat)
  if rs.isAppLimited = false ∨ h.bw.filterGet < deliveryRate then
    { h with bw := h.bw.filterUpdateMax h.rttRound deliveryRate }
  else
    h

def smoothRtt (h : Host) (rs : RateSample) : Host :=
  if rs.rttUs = 0 then h
  else if h.srtt = 0 then { h with srtt := rs.rttUs }
  else { h with srtt := (h.srtt * 7 + rs.rttUs) / 8 }

def generateBandwidth (h : Host) (rs : RateSample) (newlyDelivered : U32) : Host :=
  let h := h.count (.sample newlyDelivered)
  if newlyDelivered = 0 then
    h.clearAppLimited
  else
    let rounded := { h.clearAppLimited with deliveredTime := h.curTime }.countRound
    let intervalUs := max rs.intervalUs (h.curTime - rs.priorMstamp)
    if intervalUs ≤ 0 then rounded else (rounded.sampleBandwidth rs intervalUs).smoothRtt rs

def queueRetrans (h : Host) (flow key : U32) (packet : PacketEntry) (curTime : Time) : Host :=
  if packet.isReady then
    h.modifyStream flow (fun c => c.requeue key (h.getRetransTime curTime))
  else
    h.record (.assertFailed flow .queueRetrans)

/-- One turn of the loop of `retrans_mod_fini`: `packet_abandon`, and the entry of the retransmission
queue. -/
def abandonPacket (h : Host) (flow : U32) (packet : PacketEntry) : Host :=
  let abandoned :=
    { h with
      inflight := h.inflight - 1
      inflightBytes := h.inflightBytes - packet.length
      appLimited := h.appLimited - 1 }
  if packet.isReady then
    { abandoned with retransQueue := abandoned.retransQueue.timerlistDel (flow, packet.seq) }
  else
    abandoned

def retransModFini (h : Host) (flow : U32) (packets : List PacketEntry) : Host :=
  packets.foldl (fun h packet => h.abandonPacket flow packet) h

end Host

end Liteflow

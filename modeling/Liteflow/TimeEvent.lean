import Liteflow.Receive

/-!
# Time events

`litedt_time_event` and what it calls: the connection timers, the retransmission queue and the
first transmissions. `next_time` is threaded through as the source does.
-/

namespace Liteflow

namespace Host

variable (env : Env)

def isSndQueueEmpty (c : Stream) : Bool :=
  c.writeSeq = c.sendSeq ∧ c.packetList.treemapSize = 0

/-! ### Connection timers -/

def probeWindow (h : Host) (flow : U32) (conn : Conn) (maxProbes : Nat) : Host :=
  let probed :=
    if conn.probesSent.toNat < maxProbes then
      (h.litedtDataPost env flow conn.sendSeq 0 0 0 false).2.modifyConn flow
        (fun c => { c with probesSent := c.probesSent + 1 })
    else
      h
  probed.modifyConn flow (fun c => { c with lastProbeTime := h.curTime })

def checkAndSendProbes (h : Host) (flow : U32) (conn : Conn) : Time × Host :=
  if ConnState.closeWait.code ≤ conn.state.code then
    (-1, h)
  else if isSndQueueEmpty conn.toStream then
    if keepaliveTime ≤ h.curTime - conn.lastSyncTime then
      if keepaliveInterval ≤ h.curTime - conn.lastProbeTime then
        (h.curTime + keepaliveInterval, h.probeWindow env flow conn keepaliveProbes)
      else
        (conn.lastProbeTime + keepaliveInterval, h)
    else
      (conn.lastSyncTime + keepaliveTime, h)
  else if conn.swinSize = 0 then
    if idleInterval ≤ h.curTime - conn.lastProbeTime then
      (h.curTime + idleInterval, h.probeWindow env flow conn zeroWindowProbes)
    else
      (conn.lastProbeTime + idleInterval, h)
  else
    (-1, h)

/-- What a connection sends when its timer has run out; `none` when it is released instead. -/
def synchronize (h : Host) (flow : U32) (conn : Conn) : Option Host :=
  let postGroup (h : Host) : Host :=
    if conn.fecEnabled ∧ h.cfg.fecGroupSize ≠ 0 then h.fecPost flow else h
  match conn.state with
  | .request => some (h.litedtConnReq flow conn.tunnelId)
  | .established => some ((postGroup h).litedtDataAck flow (conn.reackTimes.toNat > 0))
  | .finWait => some ((postGroup h).litedtCloseReq flow conn.writeSeq)
  | .closeWait => some (h.litedtDataAck flow (conn.reackTimes.toNat > 0))
  | .closed => if conn.recvBuf.rbufReadableBytes = 0 then none else some h

def rearm (h : Host) (flow : U32) : Host :=
  h.modifyConn flow (fun c =>
    if c.reackTimes.toNat > 1 then
      { c with reackTimes := c.reackTimes - 1, nextSyncTime := h.curTime + reackDelay }
    else
      { c with
        reackTimes := 0
        nextSyncTime :=
          h.curTime + (if c.state = .established then slowAckDelay else normalAckDelay) })

/-- The first half of "check recv/send buffer and notify user". -/
def notifyReadable (h : Host) (flow : U32) : U32 × Host :=
  match h.findConnection flow with
  | none => (0, h)
  | some conn =>
      if conn.notifyRecv ∧ env.receiveCb.isSome ∧ conn.state ≠ ConnState.finWait then
        let readable := conn.recvBuf.rbufReadableBytes
        (readable, if readable = 0 then h else h.notifyReceive env flow readable)
      else
        (0, h)

/-- "check recv/send buffer and notify user": the two counts and the host after the callbacks. -/
def notifyUser (h : Host) (flow : U32) : U32 × U32 × Host :=
  let (readable, received) := h.notifyReadable env flow
  match received.findConnection flow with
  | none => (readable, 0, received)
  | some conn =>
      if conn.notifySend ∧ env.sendCb.isSome ∧ conn.state.code ≤ ConnState.established.code then
        let writable := conn.sendBuf.rbufWritableBytes
        (readable, writable,
          if writable = 0 then received else received.notifySend env flow writable)
      else
        (readable, 0, received)

/-- The end of a turn of `check_connection_state`: the callbacks, and when to come back. -/
def finishConnection (h : Host) (flow : U32) (probeTime : Time) : Host :=
  let (readable, writable, notified) := h.notifyUser env flow
  match notified.findConnection flow with
  | none => notified
  | some conn =>
      let time :=
        if readable ≠ 0 ∨ writable ≠ 0 then h.curTime + 1
        else if 0 < probeTime ∧ probeTime < conn.nextSyncTime then probeTime
        else conn.nextSyncTime
      { notified with connQueue := notified.connQueue.timerlistReschedTop time }

/-- One turn of the loop of `check_connection_state`, for the connection at the top. -/
def checkConnection (h : Host) (flow : U32) (conn : Conn) : Host :=
  if connectionTimeout < h.curTime - conn.lastSyncTime then
    h.releaseConnection env .timeout flow
  else
    let (probeTime, probed) := h.checkAndSendProbes env flow conn
    match probed.findConnection flow with
    | none => probed
    | some conn =>
        if conn.nextSyncTime ≤ h.curTime then
          match probed.synchronize flow conn with
          | none => probed.releaseConnection env .drained flow
          | some sent => (sent.rearm flow).finishConnection env flow probeTime
        else
          probed.finishConnection env flow probeTime

/-- The loop ends by itself when the callbacks let it; `fuel` bounds the turns. -/
def checkConnectionLoop : Nat → Host → Host
  | 0, h => h
  | fuel + 1, h =>
      match h.connQueue.timerlistTop with
      | none => h
      | some (eventTime, flow) =>
          if h.curTime < eventTime then
            h
          else
            match h.findConnection flow with
            | none => h
            | some conn => checkConnectionLoop fuel (h.checkConnection env flow conn)

def checkConnectionState (fuel : Nat) (h : Host) (nextTime : Time) : Host × Time :=
  let checked := checkConnectionLoop env fuel h
  match checked.connQueue.timerlistTop with
  | none => (checked, nextTime)
  | some (eventTime, _) => (checked, min nextTime eventTime)

/-! ### Retransmissions -/

/-- `handle_retrans`. The result says whether the flow control stopped the queue. -/
def handleRetrans (h : Host) (flow key : U32) (conn : Conn) (packet : PacketEntry) :
    Bool × Host :=
  if ConnState.closeWait.code ≤ conn.state.code ∨ lessEqual conn.swinStart packet.seq = false then
    (false, h.queueRetrans flow key packet h.curTime)
  else if packet.length.toNat + litedtMaxHeader ≤ h.pacingCredit.toNat then
    let (ret, posted) :=
      h.litedtDataPost env flow packet.seq packet.length packet.fecSeq packet.fecIndex false
    (ret = litedtSendFlowControl, posted.queueRetrans flow key packet h.curTime)
  else
    (true, h)

/-- An entry leaves the queue once it is no longer ready. -/
def popUnready (h : Host) (flow key : U32) : Host :=
  match h.findPacket flow key with
  | none => h.record (.dangling flow)
  | some packet =>
      if packet.isReady then h else { h with retransQueue := h.retransQueue.timerlistPop }

/-- The loop of `retrans_queue_send`. -/
def retransQueueLoop : Nat → Host → Host
  | 0, h => h
  | fuel + 1, h =>
      match h.retransQueue.timerlistTop with
      | none => h
      | some (_, flow, key) =>
          match h.findConnection flow, h.findPacket flow key with
          | some conn, some packet =>
              let (stopped, handled) := h.handleRetrans env flow key conn packet
              let popped := handled.popUnready flow key
              if stopped then popped else retransQueueLoop fuel popped
          | _, _ => h.record (.dangling flow)

def retransQueueSend (h : Host) : Host :=
  h.retransQueueLoop env h.retransQueue.timerlistSize

/-- `host->pacing_time + predict * USEC_PER_SEC / host->pacing_rate`. -/
def nextSendTime (h : Host) (predict : Nat) : Time :=
  h.pacingTime + ((predict * usecPerSec / h.pacingRate.toNat : Nat) : Int)

def retransActive (curTime : Time) : List U32 → Host → Time → Host × Time
  | [], h, nextTime => (h, nextTime)
  | flow :: rest, h, nextTime =>
      let queued := h.retransTimeEvent flow curTime
      retransActive curTime rest queued
        (min nextTime (queued.retransNextEventTime flow curTime))

def retransPacketLength (h : Host) : U32 :=
  match h.retransQueue.timerlistTop with
  | none => 0
  | some (_, flow, seq) =>
      match h.findPacket flow seq with
      | none => 0
      | some packet => packet.length

def checkRetransQueue (h : Host) (nextTime : Time) : Host × Time :=
  let (queued, nextTime) := retransActive h.curTime h.activeQueue.flows h nextTime
  let sent := queued.retransQueueSend env
  if sent.retransQueue.timerlistEmpty then
    (sent, nextTime)
  else
    let predict := (sent.retransPacketLength + BitVec.ofNat 32 litedtMaxHeader).toNat
    (sent, min nextTime (sent.nextSendTime predict))

/-! ### First transmissions -/

/-- How the sending of a connection ended: everything in the window has been sent, or the flow
control or the congestion window stopped it. -/
inductive Stop where
  | none
  | limited (nextTime : Option Time)

def nextBytes (h : Host) (c : Stream) : U32 :=
  let bytes := umin (c.writeSeq - c.sendSeq) (BitVec.ofNat 32 h.cfg.mss)
  umin bytes (c.swinStart + c.swinSize - c.sendSeq)

/-- `get_fec_header`, or zeros. -/
def fecHeader (h : Host) (c : Stream) : U32 × U8 :=
  if c.fecEnabled ∧ h.cfg.fecGroupSize ≠ 0 then (c.fec.currentFecSeq, c.fec.currentFecIndex)
  else (0, 0)

/-- "check send buffer and post data to network". -/
def transmitLoop (flow : U32) : Nat → Host → Stop × Host
  | 0, h => (.none, h)
  | fuel + 1, h =>
      match h.findConnection flow with
      | none => (.none, h)
      | some conn =>
          let bytes := h.nextBytes conn.toStream
          let predict := (bytes + BitVec.ofNat 32 litedtMaxHeader).toNat
          if conn.writeSeq = conn.sendSeq ∨ bytes = 0 then
            (.none, h)
          else if h.pacingCredit.toNat < predict then
            (.limited (some (h.nextSendTime predict)), h)
          else if h.sndCwnd ≤ h.inflight then
            (.limited none, h)
          else
            let (fecSeq, fecIndex) := h.fecHeader conn.toStream
            let (ret, posted) :=
              h.litedtDataPost env flow conn.sendSeq bytes fecSeq fecIndex true
            if ret = 0 then
              transmitLoop flow fuel (posted.modifyStream flow (fun c => c.advance bytes))
            else if ret = litedtSendFlowControl then
              (.limited (some (h.curTime + sendInterval)), posted)
            else
              (.none, posted)

/-- `list_del` on `active_list`. -/
def deactivate (h : Host) (flow : U32) : Host :=
  { h.modifyConn flow (fun c => { c with active := false }) with
    activeQueue := h.activeQueue.del flow }

def earlier (nextTime : Time) : Option Time → Time
  | none => nextTime
  | some time => min nextTime time

/-- The loop over the active connections; `limited` is `!app_limited`. -/
def transmitActive : List U32 → Host → Bool → Time → Host × Bool × Time
  | [], h, limited, nextTime => (h, limited, nextTime)
  | flow :: rest, h, limited, nextTime =>
      if limited ∨ h.sndCwnd ≤ h.inflight then
        ({ h with activeQueue := h.activeQueue.moveHead flow }, true, nextTime)
      else
        match h.findConnection flow with
        | none => (h, limited, nextTime)
        | some conn =>
            if ConnState.finWait.code < conn.state.code then
              transmitActive rest (h.deactivate flow) limited nextTime
            else
              let (stop, sent) :=
                h.transmitLoop env flow (conn.writeSeq - conn.sendSeq).toNat
              let done :=
                match sent.findConnection flow with
                | none => sent
                | some conn => if isSndQueueEmpty conn.toStream then sent.deactivate flow else sent
              match stop with
              | .none => transmitActive rest done limited nextTime
              | .limited time => transmitActive rest done true (earlier nextTime time)

/-- The mark when nothing limited the sending. -/
def markAppLimited (h : Host) (limited : Bool) : Host :=
  if limited then h else h.limit

/-- "clear credit to prevent traffic spike". -/
def clearCredit (h : Host) (limited : Bool) : Host :=
  if limited = false ∨ h.sndCwnd ≤ h.inflight then { h with pacingCredit := 0 } else h

def checkTransmitQueue (h : Host) (nextTime : Time) : Host × Time :=
  let (sent, limited, nextTime) := h.transmitActive env h.activeQueue.flows false nextTime
  ((sent.markAppLimited limited).clearCredit limited, nextTime)

/-! ### The event -/

/-- "remove expired TIME_WAIT status flow". -/
def expireTimeWait (curTime : Time) : HashQueue U32 Time → HashQueue U32 Time × Option Time
  | [] => ([], none)
  | (flow, closeTime) :: rest =>
      if curTime < closeTime + timeWaitExpire then
        ((flow, closeTime) :: rest, some (closeTime + timeWaitExpire))
      else
        expireTimeWait curTime rest

/-- The credit of `litedt_time_event`. -/
def addCredit (h : Host) : Host :=
  let pacingInterval : Time :=
    max ((h.cfg.mtu.toNat * usecPerSec / h.pacingRate.toNat : Nat) : Int) sendInterval
  if h.pacingTime + pacingInterval ≤ h.curTime then
    let credit := h.pacingRate.toNat * (h.curTime - h.pacingTime).toNat / usecPerSec
    { h with
      pacingCredit := h.pacingCredit + BitVec.ofNat 32 credit
      pacingTime := h.curTime }
  else
    h

def sendPing (h : Host) : Host :=
  if h.nextPingTime ≤ h.curTime then
    { h.litedtPingReq env with nextPingTime := h.curTime + pingRetryWait }
  else
    h

def stampEvent (h : Host) (nextTime : Time) : Host :=
  { h with
    lastEventTime := h.curTime
    nextEventTime := max nextTime (h.curTime + sendInterval) }

/-- The part of `litedt_time_event` that runs while the peer is online. -/
def serve (fuel : Nat) (h : Host) (nextTime : Time) : Host :=
  let (checked, nextTime) := checkConnectionState env fuel h.addCredit.ctrlTimeEvent nextTime
  let (retransmitted, nextTime) := checked.checkRetransQueue env nextTime
  let (transmitted, nextTime) := retransmitted.checkTransmitQueue env nextTime
  transmitted.stampEvent nextTime

/-- Nothing has been heard for `offline_timeout`. -/
def goOffline (h : Host) : Host :=
  let released :=
    { h with offlineTime := getOfflineTime h.cfg h.curTime }.releaseAllConnections env .offline
  { released with remoteOnline := false }

def litedtTimeEvent (fuel : Nat) (h : Host) : Host :=
  let h := h.updateTime env
  if h.closed then
    h
  else
    let pinged := h.sendPing env
    let (timewaitQueue, expireTime) := expireTimeWait env.now pinged.timewaitQueue
    let expired := { pinged with timewaitQueue := timewaitQueue }
    let nextTime := earlier (env.now + idleInterval) expireTime
    if expired.offlineTime ≤ env.now then
      expired.goOffline env
    else if expired.remoteOnline then
      expired.serve env fuel (min nextTime expired.offlineTime)
    else
      expired

end Host

end Liteflow

import Liteflow.Connection

/-!
# Incoming datagrams

The handlers of `litedt.c` and `litedt_io_event`. A handler returns the value that makes
`litedt_io_event` answer with a `CONNECT_RST` when it is not 0.
-/

namespace Liteflow

namespace Stream

def establish (c : Stream) : Stream :=
  if c.state = .request then { c with state := .established } else c

/-- "remove expired sack record". -/
def expireSacks (nodeAlloc : Bool) (rwinStart : U32) :
    Nat → Treemap U32 SackInfo → Treemap U32 SackInfo
  | 0, sackMap => sackMap
  | fuel + 1, sackMap =>
      match sackMap.treemapFirst with
      | none => sackMap
      | some (seq, sack) =>
          if lessEqual rwinStart seq then
            sackMap
          else
            let removed := (sackMap.treemapDelete seqCmp seq).2
            if lessEqual sack.seqEnd rwinStart then
              expireSacks nodeAlloc rwinStart fuel removed
            else if nodeAlloc then
              (removed.treemapInsert seqCmp rwinStart sack).2
            else
              removed

/-- The loop at the end of `push_sack_map`: `it` is the key of the record just written, and the loop
takes over every record that starts at or before its end. -/
def mergeSacks : Nat → Treemap U32 SackInfo → U32 → Treemap U32 SackInfo
  | 0, sackMap, _ => sackMap
  | fuel + 1, sackMap, it =>
      match sackMap.treemapValue it, sackMap.treemapNext it with
      | some pend, some (nstart, nend) =>
          if lessEqual nstart pend.seqEnd then
            let extended :=
              if lessEqual pend.seqEnd nend.seqEnd then
                sackMap.treemapSetValue it (fun sack => { sack with seqEnd := nend.seqEnd })
              else
                sackMap
            mergeSacks fuel (extended.treemapDelete seqCmp nstart).2 it
          else
            sackMap
      | _, _ => sackMap

/-- A new record for the range `[start, fin)` of `recv_buf`. Without a node the map stays as it is,
and goes on where the source dies (`Treemap.insertDies`). -/
def insertSack (nodeAlloc : Bool) (sackMap : Treemap U32 SackInfo) (start fin : U32) :
    Treemap U32 SackInfo :=
  if nodeAlloc then
    let inserted := (sackMap.treemapInsert seqCmp start { seqEnd := fin, sendTimes := 0 }).2
    mergeSacks inserted.treemapSize inserted start
  else
    sackMap

def addSack (nodeAlloc : Bool) (sackMap : Treemap U32 SackInfo) (start fin : U32) :
    Treemap U32 SackInfo :=
  match Rbuf.rangeAt sackMap start with
  | none => insertSack nodeAlloc sackMap start fin
  | some (rstart, sack) =>
      if lessEqual fin sack.seqEnd then
        sackMap -- sack duplicated
      else if lessEqual rstart start && lessEqual start sack.seqEnd then
        let extended :=
          sackMap.treemapSetValue rstart (fun _ => { seqEnd := fin, sendTimes := 0 })
        mergeSacks extended.treemapSize extended rstart
      else
        insertSack nodeAlloc sackMap start fin

def pushSackMap (nodeAlloc : Bool) (c : Stream) (seq : U32) : Stream :=
  if lessEqual c.rwinStart seq = false then
    c
  else
    let expired := expireSacks nodeAlloc c.rwinStart c.sackMap.treemapSize c.sackMap
    match Rbuf.rangeAt c.recvBuf.rangeMap seq with
    | none => { c with sackMap := expired }
    | some (start, fin) => { c with sackMap := addSack nodeAlloc expired start fin }

/-- The middle of `litedt_on_data_recv`: whether `rbuf_write` took the data, and the windows. -/
def storeData (alloc : Alloc) (c : Stream) (post : DataPost) : Bool × Stream :=
  let (ret, recvBuf) := c.recvBuf.rbufWrite alloc post.seq post.data
  let written :=
    { c with recvBuf := recvBuf, stored := if ret = 0 then c.stored ++ [post] else c.stored }
  if 0 ≤ ret then (true, written.updateRwin.pushSackMap alloc.node post.seq) else (false, written)

def inWindow (c : Stream) (ack : DataAck) : Bool :=
  lessEqual c.swinStart ack.winStart && lessEqual ack.winStart c.sendSeq

/-- What an acknowledgement inside the window does to the stream; `none` when the assertion of
`rbuf_release` fails. -/
def moveSwin (nodeAlloc : Bool) (curTime : Time) (c : Stream) (ack : DataAck) : Option Stream :=
  let moved :=
    { c with
      lastSyncTime := curTime
      swinStart := ack.winStart
      swinSize := umin ack.winSize swndMaxSize }
  let releaseSize := ack.winStart - c.sendBuf.startPos
  if releaseSize = 0 then
    some moved
  else
    (c.sendBuf.rbufRelease nodeAlloc releaseSize).map (fun sendBuf =>
      { moved with sendBuf := sendBuf, acked := c.acked + releaseSize.toNat })

/-- The end of the contiguous data in `recv_buf`. -/
def recvEnd (c : Stream) : U32 :=
  c.recvBuf.startPos + c.recvBuf.rbufReadableBytes

/-- The transition of `litedt_on_close_req`. -/
def closeWait (c : Stream) (lastSeq : U32) : Stream :=
  if c.recvEnd = lastSeq then { c with state := .closed, confirmed := true }
  else { c with state := .closeWait }

end Stream

namespace Host

variable (env : Env)

/-! ### Pings -/

def tokenData (pingId : U32) (timestamp : Time) : List Byte :=
  littleEndian 4 pingId ++ littleEndian 8 (BitVec.ofInt 64 timestamp)

def litedtPingReq (h : Host) : Host :=
  let pingId := h.pingId + 1
  let req : PingReq :=
    { nodeId := h.nodeId
      pingId := pingId
      timestamp := env.realtime
      token := h.cfg.generateToken h.nodeId (tokenData pingId env.realtime) }
  { h with pingId := pingId, priorPingTime := env.realtime }.emit { packet := .pingReq req }
    (sizeofLitedtHeader + sizeofPingReq)

def litedtPingRsp (h : Host) (req : PingReq) : Host :=
  let rsp : PingRsp :=
    { nodeId := h.nodeId
      pingId := req.pingId
      timestamp := req.timestamp
      token := h.cfg.generateToken h.nodeId req.token }
  h.emit { packet := .pingRsp rsp } (sizeofLitedtHeader + sizeofPingRsp)

/-- The test on `token_expire`. -/
def expired (h : Host) (timestamp : Time) : Bool :=
  let exp : Time := h.cfg.tokenExpire.toNat * usecPerSec
  h.cfg.tokenExpire ≠ 0 ∧ (exp < timestamp - env.realtime ∨ exp < env.realtime - timestamp)

def checkPeerNodeId (h : Host) (nodeId : U16) : Bool :=
  h.peerNodeId ≠ 0 ∧ h.peerNodeId ≠ nodeId

def litedtOnPingReq (h : Host) (req : PingReq) : Host :=
  if h.expired env req.timestamp then
    h
  else if req.token ≠ h.cfg.generateToken req.nodeId (tokenData req.pingId req.timestamp) then
    h
  else if h.checkPeerNodeId req.nodeId then
    h
  else
    h.litedtPingRsp req

/-- The tests of `litedt_on_ping_rsp`. -/
def acceptsPingRsp (h : Host) (rsp : PingRsp) : Bool :=
  rsp.pingId = h.pingId ∧ rsp.timestamp = h.priorPingTime ∧ rsp.nodeId ≠ 0 ∧
    h.checkPeerNodeId rsp.nodeId = false ∧ h.expired env rsp.timestamp = false ∧
    rsp.token = h.cfg.generateToken rsp.nodeId
      (h.cfg.generateToken h.nodeId (tokenData rsp.pingId rsp.timestamp))

/-- `if (!host->remote_online)` of `litedt_on_ping_rsp`. -/
def goOnline (h : Host) : Host :=
  if h.remoteOnline then
    h
  else
    let online := { h with remoteOnline := true, pacingTime := h.curTime }
    if online.connQueue.timerlistEmpty then online
    else online.litedtModEvtime none (h.lastEventTime + sendInterval)

def litedtOnPingRsp (h : Host) (rsp : PingRsp) : Host :=
  if h.acceptsPingRsp env rsp then
    let accepted :=
      { h.record (.pingAccepted rsp) with
        peerNodeId := if h.peerNodeId = 0 then rsp.nodeId else h.peerNodeId
        pingId := h.pingId + 1
        nextPingTime := h.curTime + pingInterval
        offlineTime := getOfflineTime h.cfg h.curTime }
    accepted.goOnline
  else
    h

/-! ### Connection requests -/

def litedtOnConnReq (h : Host) (flow : U32) (tunnelId : U16) (noRsp : Bool) : Int × Host :=
  match h.findConnection flow with
  | some _ => (0, h.litedtConnRsp flow 0)
  | none =>
      let (ret, created) := h.createConnection env flow tunnelId .established
      if ret = 0 then
        (0, if noRsp then created else (created.litedtConnRsp flow 0).litedtDataAck flow false)
      else
        (ret, created.litedtConnRsp flow ret)

def litedtOnConnRsp (h : Host) (flow : U32) (status : Int) : Int × Host :=
  match h.findConnection flow with
  | none => (litedtRecordNotFound, h)
  | some _ =>
      if status = 0 then
        (0, (h.modifyStream flow Stream.establish).litedtDataAck flow false)
      else
        (0, h.releaseConnection env .refused flow)

/-! ### Data -/

def reack (h : Host) (flow : U32) : Host :=
  (h.modifyConn flow (fun c => { c with reackTimes := 1 })).litedtModEvtime (some flow)
    (h.curTime + reackDelay)

def sackCount (h : Host) (flow : U32) : Nat :=
  match h.findConnection flow with
  | none => 0
  | some conn => conn.sackMap.treemapSize

/-- "ack list is still full, send ack msg again". -/
def flushAcks (flow : U32) : Nat → Host → Host
  | 0, h => h
  | fuel + 1, h =>
      if h.cfg.ackSize ≠ 0 ∧ h.cfg.ackSize.toNat ≤ h.sackCount flow then
        flushAcks flow fuel (h.litedtDataAck flow true)
      else
        h

/-- The acknowledgement of `litedt_on_data_recv`, at once or after a delay. No range is sent more than
three times before it goes, whatever its count is, so the loop ends before its fuel does. -/
def acknowledge (h : Host) (flow : U32) : Host :=
  match h.findConnection flow with
  | none => h
  | some conn =>
      if h.cfg.ackSize.toNat ≤ conn.sackMap.treemapSize then
        (flushAcks flow (3 * conn.sackMap.treemapSize) (h.litedtDataAck flow true)).reack flow
      else
        (h.modifyConn flow (fun c => { c with reackTimes := 2 })).litedtModEvtime (some flow)
          (min conn.nextSyncTime (h.curTime + fastAckDelay))

def notifyReceive (h : Host) (flow : U32) (readable : U32) : Host :=
  match env.receiveCb with
  | none => h
  | some receiveCb => (receiveCb h flow readable).foldl (receiveCall env flow) h

def notifySend (h : Host) (flow : U32) (writable : U32) : Host :=
  match env.sendCb with
  | none => h
  | some sendCb => (sendCb h flow writable).foldl (sendCall env flow) h

def finishDataRecv (h : Host) (flow : U32) (readable : U32) : Host :=
  let acked := h.acknowledge flow
  match acked.findConnection flow with
  | none => acked
  | some conn =>
      if (conn.notifyRecv ∨ conn.notifyRecvnew) ∧ readable ≠ 0 ∧ conn.state ≠ .finWait then
        acked.notifyReceive env flow readable
      else
        acked

def readableBytes (h : Host) (flow : U32) : U32 :=
  match h.findConnection flow with
  | none => 0
  | some conn => conn.recvBuf.rbufReadableBytes

def fecCheckpoint (h : Host) (flow : U32) : Host :=
  h.modifyStream flow (fun c => c.setFec (c.fec.fecCheckpoint h.cfg c.rwinStart))

/-- `conn->fec_enabled && g_config.transport.fec_decode`. -/
def decodes (h : Host) (c : Stream) : Bool :=
  c.fecEnabled ∧ h.cfg.fecDecode ≠ 0

/-- `litedt_on_data_recv`, where `insert` is the call of `fec_insert_data`. -/
def onDataRecvWith (insert : Host → Host) (h : Host) (flow : U32) (data : DataPost) : Int × Host :=
  match h.findConnection flow with
  | none => (litedtRecordNotFound, h)
  | some conn =>
      let established := h.modifyStream flow Stream.establish
      if data.len = 0 then
        (0, (established.litedtDataAck flow true).reack flow)
      else
        let (stored, stream) := conn.establish.storeData env.alloc data
        let written := established.modifyStream flow (fun _ => stream)
        let corrected :=
          if stored ∧ h.decodes stream then (insert written).fecCheckpoint flow else written
        let readable := if stored then corrected.readableBytes flow else 0
        (0, corrected.finishDataRecv env flow readable)

/-- `litedt_on_data_recv` on a packet that the error correction has recovered. -/
def litedtOnDataRecovered (h : Host) (flow : U32) (data : DataPost) : Host :=
  (h.onDataRecvWith env (fun h => h) flow data).2

/-- `fec_insert`, with what it hands back to `litedt_on_data_recv`. -/
def fecInsert (insert : FecMod → FecMod.Inserted) (h : Host) (flow : U32) : Host :=
  match h.findConnection flow with
  | none => h
  | some conn =>
      let inserted := insert conn.fec
      let updated := (h.modifyStream flow (fun c => c.setFec inserted.fec)).record
        (.fecIndices flow inserted.indices)
      match inserted.recovered with
      | none => updated
      | some dp => (updated.record (.fecRecovered flow dp)).litedtOnDataRecovered env flow dp

def litedtOnDataRecv (h : Host) (flow : U32) (data : DataPost) : Int × Host :=
  h.onDataRecvWith env (fun h => h.fecInsert env (fun fec => fec.fecInsertData env.alloc.node data) flow)
    flow data

def litedtOnDataFec (h : Host) (flow : U32) (fec : DataFec) : Int × Host :=
  match h.findConnection flow with
  | none => (litedtRecordNotFound, h)
  | some conn =>
      if h.decodes conn.toStream = false then
        (0, h)
      else
        let established := h.modifyStream flow Stream.establish
        if conn.establish.state = .established ∨ conn.state = .closeWait then
          (0, (established.fecInsert env (fun fecMod => fecMod.fecInsertSum env.alloc.node fec)
            flow).fecCheckpoint flow)
        else
          (0, established)

/-! ### Acknowledgements -/

def releaseRanges (flow : U32) (acks : List (U32 × U32)) (h : Host) (rs : RateSample) :
    Host × RateSample :=
  acks.foldl (fun (h, rs) range => h.releasePacketRange env flow range.1 range.2 rs) (h, rs)

def moveWindow (h : Host) (flow : U32) (ack : DataAck) (rs : RateSample) : Host × RateSample :=
  match h.findConnection flow with
  | none => (h, rs)
  | some conn =>
      if conn.inWindow ack then
        match conn.moveSwin env.alloc.node h.curTime ack with
        | none => (h.record (.assertFailed flow .ackRelease), rs)
        | some stream =>
            let moved := h.modifyConn flow (fun c => { c with toStream := stream, probesSent := 0 })
            moved.retransCheckpoint env flow ack.winStart rs
      else
        (h, rs)

def litedtOnDataAck (h : Host) (flow : U32) (ack : DataAck) : Int × Host :=
  match h.findConnection flow with
  | none => (litedtRecordNotFound, h)
  | some _ =>
      let established := h.modifyStream flow Stream.establish
      let (ranged, rs) := established.releaseRanges env flow ack.acks {}
      let (moved, rs) := ranged.moveWindow env flow ack rs
      let controlled := (moved.generateBandwidth rs (moved.delivered - h.delivered)).ctrlIoEvent rs
      match controlled.findConnection flow with
      | none => (0, controlled)
      | some conn =>
          let writable := conn.sendBuf.rbufWritableBytes
          if conn.notifySend ∧ conn.state.code ≤ ConnState.established.code ∧ writable ≠ 0 then
            (0, controlled.notifySend env flow writable)
          else
            (0, controlled)

/-! ### Closing -/

def litedtOnCloseReq (h : Host) (flow lastSeq : U32) : Host :=
  match h.findConnection flow with
  | none => h.litedtCloseRsp flow
  | some conn =>
      if conn.state = .finWait then
        (h.releaseConnection env .closeReq flow).litedtCloseRsp flow
      else if conn.state = .closed then
        h
      else
        let waiting := h.modifyStream flow (fun c => c.closeWait lastSeq)
        if conn.recvEnd = lastSeq then
          (waiting.litedtCloseRsp flow).litedtModEvtime (some flow) h.curTime
        else
          waiting.litedtModEvtime (some flow) (h.curTime + normalAckDelay)

def litedtOnCloseRsp (h : Host) (flow : U32) : Host :=
  match h.findConnection flow with
  | none => h
  | some conn => if conn.state = .finWait then h.releaseConnection env .closeRsp flow else h

def litedtOnConnRst (h : Host) (flow : U32) : Host :=
  match h.findConnection flow with
  | none => h
  | some conn =>
      if conn.state = .finWait then
        h.releaseConnection env .reset flow
      else
        (h.modifyStream flow (fun c => { c with state := .closed })).litedtModEvtime (some flow)
          h.curTime

/-! ### Dispatch -/

/-- The bytes that belong to a data packet whose datagram may be longer; `none` when it is shorter. -/
def checkLength (data : DataPost) : Option DataPost :=
  if data.data.length < data.len.toNat then none
  else some { data with data := data.data.take data.len.toNat }

/-- `if (ret != 0)` at the end of `litedt_io_event`. -/
def resetOnError (flow : U32) (result : Int × Host) : Host :=
  if result.1 = 0 then result.2 else result.2.litedtConnRst flow

def litedtIoEvent (h : Host) (packet : Packet) : Host :=
  let h := h.updateTime env
  match packet with
  | .pingReq req => h.litedtOnPingReq env req
  | .pingRsp rsp => h.litedtOnPingRsp env rsp
  | .connectReq flow tunnelId => (h.litedtOnConnReq env flow tunnelId false).2
  | .connectRsp flow status => resetOnError flow (h.litedtOnConnRsp env flow status)
  | .dataPost flow data =>
      match checkLength data with
      | none => h
      | some data => resetOnError flow (h.litedtOnDataRecv env flow data)
  | .dataAck flow ack => resetOnError flow (h.litedtOnDataAck env flow ack)
  | .closeReq flow lastSeq => h.litedtOnCloseReq env flow lastSeq
  | .closeRsp flow => h.litedtOnCloseRsp env flow
  | .connectRst flow => h.litedtOnConnRst env flow
  | .connectData flow tunnelId data =>
      match checkLength data with
      | none => h
      | some data =>
          let (status, requested) := h.litedtOnConnReq env flow tunnelId true
          if status = 0 then resetOnError flow (requested.litedtOnDataRecv env flow data)
          else requested
  | .dataFec flow fec => resetOnError flow (h.litedtOnDataFec env flow fec)

end Host

/-- What node 2 answers to the first ping of node 1, sent at time 0. -/
def PingRsp.plain : PingRsp where
  nodeId := 2
  pingId := 1
  timestamp := 0
  token := Config.plainToken 2 (Config.plainToken 1 (Host.tokenData 1 0))

end Liteflow

import Liteflow.Retrans

/-!
# Connections

The part of `litedt.c` that builds datagrams, creates and releases connections, and is called by the
application.
-/

namespace Liteflow

namespace Stream

/-- The position of the error-correction group that is being filled. -/
def groupPos (c : Stream) : Nat :=
  c.acked + (c.fec.currentFecEnd - c.swinStart).toNat -
    (c.fec.currentFecEnd - c.fec.currentFecSeq).toNat

/-- The position of a sequence number of the send window. -/
def posOf (c : Stream) (seq : U32) : Nat :=
  c.acked + (seq - c.swinStart).toNat

/-- The position of `rwin_start`. -/
def rwinPos (c : Stream) : Nat :=
  c.consumed + (c.rwinStart - c.recvBuf.startPos).toNat

def setFec (c : Stream) (fec : FecMod) : Stream :=
  { c with fec := fec }

def advance (c : Stream) (bytes : U32) : Stream :=
  { c with sendSeq := c.sendSeq + bytes }

def dataPost (c : Stream) (seq len fecSeq : U32) (fecIndex : U8) : DataPost where
  seq := seq
  len := len.setWidth 16
  fecSeq := fecSeq
  fecIndex := fecIndex
  data := if len = 0 then [] else (c.sendBuf.rbufRead seq len.toNat).getD []

/-- The datagram of `litedt_data_post`: a `CONNECT_DATA` as long as the peer has not answered. -/
def dataFlight (c : Stream) (flow : U32) (post : DataPost) : Flight where
  packet :=
    if c.state = .request then .connectData flow c.tunnelId post else .dataPost flow post
  pos := c.posOf post.seq
  group := c.posOf post.seq - (post.seq - post.fecSeq).toNat

def fecFlight (c : Stream) (flow : U32) : Flight where
  packet := .dataFec flow c.fec.groupPacket
  pos := c.groupPos
  group := c.groupPos

def ackFlight (c : Stream) (flow : U32) (acks : List (U32 × U32)) : Flight where
  packet := .dataAck flow { winStart := c.rwinStart, winSize := c.rwinSize, acks := acks }
  pos := c.rwinPos

def acknowledged (c : Stream) (acks : List (U32 × U32)) (sackMap : Treemap U32 SackInfo) : Stream :=
  { c with
    sackMap := sackMap
    acks := c.acks ++
      [{ pos := c.rwinPos
         ack := { winStart := c.rwinStart, winSize := c.rwinSize, acks := acks }
         stored := c.stored }] }

/-- The range of `send_buf` that `litedt_data_post` reads, and the range it holds. -/
def bufferRead (c : Stream) (flow seq len : U32) : Event :=
  .bufferRead flow seq len c.sendBuf.startPos c.sendBuf.rbufReadableBytes

/-- `rbuf_write_front` on `send_buf`; its result is not looked at. -/
def write (alloc : Alloc) (c : Stream) (data : List Byte) : Stream :=
  let sendBuf := (c.sendBuf.rbufWriteFront alloc data).2
  { c with sendBuf := sendBuf, writeSeq := sendBuf.writePos }

/-- The loop of `litedt_data_ack` over the ranges to acknowledge. Each range is sent twice. -/
def collectAcks (ackSize : U32) :
    Nat → Nat → Option (U32 × SackInfo) → Treemap U32 SackInfo →
      List (U32 × U32) × Treemap U32 SackInfo
  | 0, _, _, sackMap => ([], sackMap)
  | _ + 1, _, none, sackMap => ([], sackMap)
  | fuel + 1, cnt, some (start, sack), sackMap =>
      let next := sackMap.treemapNext start
      let sendTimes := sack.sendTimes + 1
      let counted := sackMap.treemapSetValue start (fun s => { s with sendTimes := sendTimes })
      let sackMap' :=
        if 2 ≤ sendTimes.toNat then (counted.treemapDelete seqCmp start).2 else counted
      if ackSize.toNat ≤ cnt + 1 then
        ([(start, sack.seqEnd)], sackMap')
      else
        let (acks, rest) := collectAcks ackSize fuel (cnt + 1) next sackMap'
        ((start, sack.seqEnd) :: acks, rest)

/-- The ranges of an acknowledgement, and the map they leave. `ack_size` has 8 bits; from 177 ranges on
the source has written past its buffer by then. -/
def takeAcks (ackSize : U32) (c : Stream) : List (U32 × U32) × Treemap U32 SackInfo :=
  let (acks, sackMap) :=
    collectAcks ackSize c.sackMap.treemapSize 0 c.sackMap.treemapFirst c.sackMap
  (acks.take (acks.length % 256), sackMap)

/-- "update recv_wnd after release buffer". -/
def updateRwin (c : Stream) : Stream :=
  let (start, size) := c.recvBuf.rbufWindowInfo
  let readable := c.recvBuf.rbufReadableBytes
  { c with rwinStart := start + readable, rwinSize := size - readable }

/-- `rbuf_release` on `recv_buf`, and the window after it. -/
def releaseRecv (nodeAlloc : Bool) (c : Stream) (size : U32) : Option Stream :=
  (c.recvBuf.rbufRelease nodeAlloc size).map (fun recvBuf =>
    updateRwin { c with recvBuf := recvBuf, consumed := c.consumed + size.toNat })

def front (c : Stream) (size : Nat) : List Byte :=
  (c.recvBuf.rbufRead c.recvBuf.startPos size).getD []

end Stream

namespace Host

/-! ### Datagrams -/

def litedtConnReq (h : Host) (flow : U32) (tunnelId : U16) : Host :=
  h.emit { packet := .connectReq flow tunnelId } (sizeofLitedtHeader + sizeofConnReq)

def litedtConnRsp (h : Host) (flow : U32) (status : Int) : Host :=
  h.emit { packet := .connectRsp flow status } (sizeofLitedtHeader + sizeofConnRsp)

def litedtCloseReq (h : Host) (flow lastSeq : U32) : Host :=
  h.emit { packet := .closeReq flow lastSeq } (sizeofLitedtHeader + sizeofCloseReq)

def litedtCloseRsp (h : Host) (flow : U32) : Host :=
  h.emit { packet := .closeRsp flow } sizeofLitedtHeader

def litedtConnRst (h : Host) (flow : U32) : Host :=
  h.emit { packet := .connectRst flow } sizeofLitedtHeader

def fecPost (h : Host) (flow : U32) : Host :=
  match h.findConnection flow with
  | none => h
  | some conn =>
      if conn.fec.currentFecIndex = 0 then
        h
      else
        let sent :=
          h.emit (conn.fecFlight flow)
            (sizeofLitedtHeader + sizeofDataFec + conn.fec.fecLen.toNat)
        sent.modifyStream flow (fun c => c.setFec (c.fec.resetGroup h.cfg))

def fecPushData (h : Host) (flow : U32) (post : DataPost) : Host :=
  let pushed := h.modifyStream flow (fun c => c.setFec (c.fec.fecPushData post))
  match pushed.findConnection flow with
  | none => pushed
  | some conn =>
      if conn.fec.currentFecMembers ≤ conn.fec.currentFecIndex then pushed.fecPost flow else pushed

/-- A packet with data reads `send_buf` and gets an entry. -/
def enterPost (env : Env) (h : Host) (flow : U32) (conn : Conn) (seq len fecSeq : U32)
    (fecIndex : U8) : Host :=
  if len = 0 then h
  else (h.record (conn.bufferRead flow seq len)).createPacketEntry env flow seq len fecSeq fecIndex

def litedtDataPost (env : Env) (h : Host) (flow seq len fecSeq : U32) (fecIndex : U8)
    (fecPost : Bool) : Int × Host :=
  if h.litedtOnlineStatus = false then
    (litedtClientOffline, h)
  else if h.cfg.mss < len.toNat then
    (litedtParameterError, h)
  else
    match h.findConnection flow with
    | none => (litedtRecordNotFound, h)
    | some conn =>
        if conn.swinSize < seq - conn.swinStart ∨ conn.swinSize < seq + len - conn.swinStart then
          (litedtSeqOutOfRange, h)
        else
          let post := conn.dataPost seq len fecSeq fecIndex
          let plen := sizeofLitedtHeader + len.toNat +
            (if conn.state = .request then sizeofDataConn else sizeofDataPost)
          let entered := h.enterPost env flow conn seq len fecSeq fecIndex
          -- a keepalive packet is sent regardless of the credit
          let (refused, sent) := entered.socketSend (conn.dataFlight flow post) plen (len = 0)
          let pushed :=
            if conn.fecEnabled ∧ h.cfg.fecGroupSize ≠ 0 ∧ fecPost then sent.fecPushData flow post
            else sent
          (if refused then litedtSendFlowControl else 0, pushed)

def litedtDataAck (h : Host) (flow : U32) (ackList : Bool) : Host :=
  match h.findConnection flow with
  | none => h
  | some conn =>
      let (acks, sackMap) :=
        if ackList then conn.takeAcks h.cfg.ackSize else ([], conn.sackMap)
      let marked := h.modifyStream flow (fun c => c.acknowledged acks sackMap)
      marked.emit (conn.ackFlight flow acks)
        (sizeofLitedtHeader + sizeofDataAck + 8 * acks.length)

/-! ### Creating and releasing -/

/-- The connection that `create_connection` fills in. -/
def newConn (cfg : Config) (now : Time) (tunnelId : U16) (state : ConnState) : Conn where
  tunnelId := tunnelId
  state := state
  swinStart := 0
  swinSize := cfg.bufferSize
  rwinStart := 0
  rwinSize := (Rbuf.init cfg.blocksCount).windowSize
  writeSeq := 0
  sendSeq := 0
  sackMap := .nil
  lastSyncTime := now
  sendBuf := Rbuf.init cfg.blocksCount
  recvBuf := Rbuf.init cfg.blocksCount
  packetList := .nil
  waitingQueue := []
  fecEnabled := cfg.fecDecode ≠ 0 ∨ cfg.fecGroupSize ≠ 0
  fec := FecMod.init cfg
  acked := 0
  consumed := 0
  confirmed := false
  stored := []
  acks := []
  reackTimes := 0
  probesSent := 0
  notifyRecvnew := false
  notifyRecv := true
  notifySend := false
  active := false
  lastProbeTime := now
  nextSyncTime := now

/-- What `connect_cb` answers to a connection from the peer; 0 when it is not called. -/
def askConnectCb (env : Env) (h : Host) (flow : U32) (tunnelId : U16) (state : ConnState) : Int :=
  match state, env.connectCb with
  | .established, some connectCb => connectCb h flow tunnelId
  | _, _ => 0

def createConnection (env : Env) (h : Host) (flow : U32) (tunnelId : U16) (state : ConnState) :
    Int × Host :=
  if (h.findConnection flow).isSome then
    (litedtRecordExists, h)
  else if (h.timewaitQueue.queueGet flow).isSome then
    (litedtRecordExists, h)
  else
    let ret := h.askConnectCb env flow tunnelId state
    if ret ≠ 0 then
      (ret, h)
    else
      let pushed :=
        { h with
          connQueue :=
            h.connQueue.timerlistPush env.now flow (newConn h.cfg env.now tunnelId state) }
      (0, (pushed.record (.created flow)).litedtModEvtime (some flow) env.now)

def releaseConnection (env : Env) (h : Host) (cause : ReleaseCause) (flow : U32) : Host :=
  match h.findConnection flow with
  | none => h
  | some conn =>
      let inactive :=
        if conn.active then { h with activeQueue := h.activeQueue.del flow } else h
      let counted := inactive.count (.release conn.packetList.treemapSize)
      let abandoned := counted.retransModFini flow (conn.packetList.toList.map Prod.snd)
      { abandoned.record (.released flow cause conn.toStream) with
        connQueue := abandoned.connQueue.timerlistDel flow
        timewaitQueue := abandoned.timewaitQueue.queueAppend flow env.now }

def releaseAllLoop (env : Env) (cause : ReleaseCause) : Nat → Host → Host
  | 0, h => h
  | fuel + 1, h =>
      match h.connQueue.timerlistTop with
      | none => h
      | some (_, flow) => releaseAllLoop env cause fuel (h.releaseConnection env cause flow)

def releaseAllConnections (env : Env) (h : Host) (cause : ReleaseCause) : Host :=
  h.releaseAllLoop env cause h.connQueue.timerlistSize

def litedtInit (cfg : Config) (nodeId : U16) (now : Time) : Host where
  nodeId := nodeId
  peerNodeId := 0
  remoteOnline := false
  closed := false
  pingId := 0
  priorPingTime := now
  cfg := cfg
  pacingTime := now
  pacingCredit := 0
  pacingRate := cfg.transmitRateInit
  sndCwnd := umax (2 * (cfg.transmitRateInit / cfg.mtu)) 4
  srtt := 0
  curTime := now
  lastEventTime := now
  nextEventTime := now
  nextPingTime := now
  offlineTime := getOfflineTime cfg now
  rttMin := WindowedFilter.filterInit 10
  bw := WindowedFilter.filterInit 10
  rttRound := 0
  nextRttDelivered := 0
  inflight := 0
  inflightBytes := 0
  delivered := 1
  appLimited := BitVec.allOnes 32
  deliveredTime := now
  firstTxTime := now
  connQueue := .timerlistInit
  retransQueue := .timerlistInit
  timewaitQueue := []
  activeQueue := .init
  ctrl := CtrlMod.init now
  out := []
  log := []
  wakes := []
  counts := []

def litedtFini (env : Env) (h : Host) : Host :=
  { h.releaseAllConnections env .finalised with closed := true }

/-! ### Calls of the application -/

def litedtConnect (env : Env) (h : Host) (flow : U32) (tunnelId : U16) : Int × Host :=
  if h.litedtOnlineStatus = false then
    (litedtClientOffline, h)
  else
    let (ret, created) :=
      if (h.findConnection flow).isSome then (0, h)
      else h.createConnection env flow tunnelId .request
    (ret, if ret = 0 then created.litedtConnReq flow tunnelId else created)

def litedtClose (env : Env) (h : Host) (flow : U32) : Int × Host :=
  match h.findConnection flow with
  | none => (litedtRecordNotFound, h)
  | some conn =>
      if conn.state.code ≤ ConnState.established.code then
        let closing := h.modifyStream flow (fun c => { c with state := .finWait })
        (0, (closing.litedtCloseReq flow conn.writeSeq).litedtModEvtime (some flow)
          (h.lastEventTime + normalAckDelay))
      else if conn.state ≠ .finWait then
        (0, (h.litedtCloseRsp flow).releaseConnection env .application flow)
      else
        (0, h)

/-- "bring connection to active". -/
def activate (h : Host) (flow : U32) : Host :=
  match h.findConnection flow with
  | none => h
  | some conn =>
      if conn.active then h
      else
        { h.modifyConn flow (fun c => { c with active := true }) with
          activeQueue := h.activeQueue.addTail flow }

def litedtSend (env : Env) (h : Host) (flow : U32) (data : Payload) : Int × Host :=
  match h.findConnection flow with
  | none => (litedtRecordNotFound, h)
  | some conn =>
      if ConnState.finWait.code ≤ conn.state.code then
        (litedtRecordNotFound, h)
      else if conn.sendBuf.rbufWritableBytes.toNat < data.val.length then
        (litedtNotEnoughSpace, h)
      else if data.val.length = 0 then
        (0, h)
      else
        let written := h.modifyStream flow (fun c => c.write env.alloc data.val)
        (0, ((written.record (.wrote flow data.val)).activate flow).litedtModEvtime none
          (h.lastEventTime + sendInterval))

/-- The end of `litedt_recv` and `litedt_recv_skip`: the bytes leave `recv_buf`. -/
def releaseFront (env : Env) (h : Host) (flow : U32) (conn : Conn) (size : U32) : Host :=
  match conn.releaseRecv env.alloc.node size with
  | none => h.record (.assertFailed flow .recvRelease)
  | some stream =>
      let released := h.modifyConn flow (fun c => { c with toStream := stream, reackTimes := 2 })
      (released.record (.read flow (conn.front size.toNat))).litedtModEvtime (some flow)
        (env.now + fastAckDelay)

def litedtRecv (env : Env) (h : Host) (flow : U32) (len : U32) : Int × Host :=
  match h.findConnection flow with
  | none => (litedtRecordNotFound, h)
  | some conn =>
      let ret := umin len conn.recvBuf.rbufReadableBytes
      (ret.toNat, if ret = 0 then h else h.releaseFront env flow conn ret)

def litedtPeek (h : Host) (flow : U32) (len : U32) : Option (List Byte) :=
  (h.findConnection flow).bind (fun conn => conn.recvBuf.rbufReadFront len.toNat)

def litedtRecvSkip (env : Env) (h : Host) (flow : U32) (len : U32) : Host :=
  match h.findConnection flow with
  | none => h
  | some conn => if len = 0 then h else h.releaseFront env flow conn len

def litedtSetNotifyRecv (h : Host) (flow : U32) (notify : Bool) : Host :=
  h.modifyConn flow (fun c => { c with notifyRecv := notify })

def litedtSetNotifyRecvnew (h : Host) (flow : U32) (notify : Bool) : Host :=
  h.modifyConn flow (fun c => { c with notifyRecvnew := notify })

def litedtSetNotifySend (h : Host) (flow : U32) (notify : Bool) : Host :=
  h.modifyConn flow (fun c => { c with notifySend := notify })

/-! ### Callbacks -/

def receiveCall (env : Env) (flow : U32) (h : Host) : ReceiveCall → Host
  | .recv len => (h.litedtRecv env flow len).2
  | .skip len => h.litedtRecvSkip env flow len
  | .setNotifyRecv notify => h.litedtSetNotifyRecv flow notify
  | .setNotifyRecvnew notify => h.litedtSetNotifyRecvnew flow notify

def sendCall (env : Env) (flow : U32) (h : Host) : SendCall → Host
  | .send data => (h.litedtSend env flow data).2
  | .setNotifySend notify => h.litedtSetNotifySend flow notify
  | .close => (h.litedtClose env flow).2

end Host

end Liteflow

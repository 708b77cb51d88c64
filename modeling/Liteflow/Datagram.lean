import Liteflow.Receive

/-!
# Datagrams as bytes

The layout of the messages of `litedt_messages.h`, what the sending functions hand to `socket_send`,
and the checks of `litedt_io_event` before it calls a handler. The receive buffer is a function from
offsets to bytes: what stands behind `recv_len` is whatever the memory holds there.
-/

namespace Liteflow

def litedtVersion : U16 := 0xED03

def Packet.cmd : Packet → U8
  | pingReq _ => 0x10
  | pingRsp _ => 0x11
  | dataPost _ _ => 0x20
  | dataAck _ _ => 0x21
  | connectReq _ _ => 0x22
  | connectRsp _ _ => 0x23
  | closeReq _ _ => 0x24
  | closeRsp _ => 0x25
  | connectRst _ => 0x26
  | connectData _ _ _ => 0x27
  | dataFec _ _ => 0x30

/-! ### Layout -/

def buildLitedtHeader (cmd : U8) (flow : U32) : List Byte :=
  littleEndian 2 litedtVersion ++ ([0] ++ ([cmd] ++ littleEndian 4 flow))

/-- `ping_req_t`, and `ping_rsp_t` just the same. -/
def pingBytes (nodeId : U16) (pingId : U32) (timestamp : Time) (token : Token) : List Byte :=
  littleEndian 2 nodeId ++ (littleEndian 4 pingId ++
    (littleEndian 8 (BitVec.ofInt 64 timestamp) ++ token))

def DataAck.bytes (ack : DataAck) : List Byte :=
  littleEndian 4 ack.winStart ++ (littleEndian 4 ack.winSize ++
    ([BitVec.ofNat 8 ack.acks.length] ++
      ack.acks.flatMap (fun range => littleEndian 4 range.1 ++ littleEndian 4 range.2)))

def DataFec.bytes (fec : DataFec) : List Byte :=
  littleEndian 4 fec.fecSeq ++ ([fec.fecMembers] ++
    (littleEndian 2 (BitVec.ofNat 16 fec.fecData.length) ++ fec.fecData))

def Packet.body : Packet → List Byte
  | pingReq req => pingBytes req.nodeId req.pingId req.timestamp req.token
  | pingRsp rsp => pingBytes rsp.nodeId rsp.pingId rsp.timestamp rsp.token
  | dataPost _ post => post.bytes
  | dataAck _ ack => ack.bytes
  | connectReq _ tunnelId => littleEndian 2 tunnelId
  | connectRsp _ status => littleEndian 4 (BitVec.ofInt 32 status)
  | closeReq _ lastSeq => littleEndian 4 lastSeq
  | closeRsp _ | connectRst _ => []
  | connectData _ tunnelId post => littleEndian 2 tunnelId ++ post.bytes
  | dataFec _ fec => fec.bytes

def Packet.bytes (packet : Packet) : List Byte :=
  buildLitedtHeader packet.cmd packet.flow ++ packet.body

/-! ### Sending -/

inductive Build where
  | pingReq
  | pingRsp (req : PingReq)
  | connReq (flow : U32) (tunnelId : U16)
  | connRsp (flow : U32) (status : BitVec 32)
  | dataPost (flow seq len fecSeq : U32) (fecIndex : U8)
  | dataAck (flow : U32) (ackList : Bool)
  | closeReq (flow lastSeq : U32)
  | closeRsp (flow : U32)
  | connRst (flow : U32)
  | fecPost (flow : U32)

namespace Build

variable (env : Env) (h : Host)

/-- `litedt_data_post` reads the data of a packet that has any; `none` if that runs into a block that
is not there. -/
def readPost (conn : Conn) (seq len : U32) : Option (List Byte) :=
  if len = 0 then some [] else conn.sendBuf.rbufRead seq len.toNat

/-- The ranges that the loop of `litedt_data_ack` writes behind `data_ack_t`. -/
def writtenAcks (conn : Conn) (ackList : Bool) : List (U32 × U32) :=
  if ackList then
    (Stream.collectAcks h.cfg.ackSize conn.sackMap.treemapSize 0 conn.sackMap.treemapFirst
      conn.sackMap).1
  else
    []

/-- The message that a call builds and its `plen`; `none` if it returns before. -/
def message : Build → Option (Packet × Nat)
  | pingReq =>
      let pingId := h.pingId + 1
      some (.pingReq
        { nodeId := h.nodeId
          pingId := pingId
          timestamp := env.realtime
          token := h.cfg.generateToken h.nodeId (Host.tokenData pingId env.realtime) },
        sizeofLitedtHeader + sizeofPingReq)
  | pingRsp req =>
      some (.pingRsp
        { nodeId := h.nodeId
          pingId := req.pingId
          timestamp := req.timestamp
          token := h.cfg.generateToken h.nodeId req.token },
        sizeofLitedtHeader + sizeofPingRsp)
  | connReq flow tunnelId => some (.connectReq flow tunnelId, sizeofLitedtHeader + sizeofConnReq)
  | connRsp flow status => some (.connectRsp flow status.toInt, sizeofLitedtHeader + sizeofConnRsp)
  | dataPost flow seq len fecSeq fecIndex =>
      if h.litedtOnlineStatus = false ∨ h.cfg.mss < len.toNat then
        none
      else
        match h.findConnection flow with
        | none => none
        | some conn =>
            if conn.swinSize < seq - conn.swinStart ∨ conn.swinSize < seq + len - conn.swinStart then
              none
            else
              (readPost conn seq len).map (fun data =>
                let post : DataPost := ⟨seq, len.setWidth 16, fecSeq, fecIndex, data⟩
                if conn.state = .request then
                  (.connectData flow conn.tunnelId post,
                    sizeofLitedtHeader + sizeofDataConn + len.toNat)
                else
                  (.dataPost flow post, sizeofLitedtHeader + sizeofDataPost + len.toNat))
  | dataAck flow ackList =>
      (h.findConnection flow).map (fun conn =>
        let acks := writtenAcks h conn ackList
        -- `ack_size` has 8 bits
        (.dataAck flow { winStart := conn.rwinStart, winSize := conn.rwinSize, acks := acks },
          sizeofLitedtHeader + sizeofDataAck + 8 * (acks.length % 256)))
  | closeReq flow lastSeq => some (.closeReq flow lastSeq, sizeofLitedtHeader + sizeofCloseReq)
  | closeRsp flow => some (.closeRsp flow, sizeofLitedtHeader)
  | connRst flow => some (.connectRst flow, sizeofLitedtHeader)
  | fecPost flow =>
      match h.findConnection flow with
      | none => none
      | some conn =>
          if conn.fec.currentFecIndex = 0 then none
          else some (.dataFec flow conn.fec.groupPacket,
            sizeofLitedtHeader + sizeofDataFec + conn.fec.fecLen.toNat)

def run : Build → Host
  | pingReq => h.litedtPingReq env
  | pingRsp req => h.litedtPingRsp req
  | connReq flow tunnelId => h.litedtConnReq flow tunnelId
  | connRsp flow status => h.litedtConnRsp flow status.toInt
  | dataPost flow seq len fecSeq fecIndex =>
      (h.litedtDataPost env flow seq len fecSeq fecIndex false).2
  | dataAck flow ackList => h.litedtDataAck flow ackList
  | closeReq flow lastSeq => h.litedtCloseReq flow lastSeq
  | closeRsp flow => h.litedtCloseRsp flow
  | connRst flow => h.litedtConnRst flow
  | fecPost flow => h.fecPost flow

end Build

/-! ### Receiving -/

def u16At (buf : Nat → Byte) (k : Nat) : U16 :=
  BitVec.ofNat 16 (readLittleEndian buf k 2)

def u32At (buf : Nat → Byte) (k : Nat) : U32 :=
  BitVec.ofNat 32 (readLittleEndian buf k 4)

def timeAt (buf : Nat → Byte) (k : Nat) : Time :=
  (BitVec.ofNat 64 (readLittleEndian buf k 8)).toInt

def tokenAt (buf : Nat → Byte) (k : Nat) : Token :=
  (List.range 32).map (fun i => buf (k + i))

/-- `(ping_req_t *)buf`. -/
def PingReq.ofBytes (buf : Nat → Byte) : PingReq where
  nodeId := u16At buf 0
  pingId := u32At buf 2
  timestamp := timeAt buf 6
  token := tokenAt buf 14

/-- `(ping_rsp_t *)buf`. -/
def PingRsp.ofBytes (buf : Nat → Byte) : PingRsp where
  nodeId := u16At buf 0
  pingId := u32At buf 2
  timestamp := timeAt buf 6
  token := tokenAt buf 14

/-- `(data_ack_t *)buf`. -/
def DataAck.ofBytes (buf : Nat → Byte) : DataAck where
  winStart := u32At buf 0
  winSize := u32At buf 4
  acks := (List.range (buf 8).toNat).map (fun i =>
    (u32At buf (sizeofDataAck + 8 * i), u32At buf (sizeofDataAck + 8 * i + 4)))

/-- `(data_fec_t *)buf`. -/
def DataFec.ofBytes (buf : Nat → Byte) : DataFec where
  fecSeq := u32At buf 0
  fecMembers := buf 4
  fecData := (List.range (u16At buf 5).toNat).map (fun i => buf (sizeofDataFec + i))

/-- `if (recv_len < need) break`. -/
def ifReceived (recvLen need : Nat) (next : Option Packet) : Option Packet :=
  if recvLen < need then none else next

/-- The `switch` of `litedt_io_event`: the message that it calls a handler with, if any, when `body`
stands behind the header. -/
def litedtIoDispatch (cmd : U8) (flow : U32) (body : Nat → Byte) (recvLen : Nat) : Option Packet :=
  let hlen := sizeofLitedtHeader
  match cmd.toNat with
  | 0x10 => ifReceived recvLen (hlen + sizeofPingReq) (some (.pingReq (PingReq.ofBytes body)))
  | 0x11 => ifReceived recvLen (hlen + sizeofPingRsp) (some (.pingRsp (PingRsp.ofBytes body)))
  | 0x22 => ifReceived recvLen (hlen + sizeofConnReq) (some (.connectReq flow (u16At body 0)))
  | 0x23 =>
      ifReceived recvLen (hlen + sizeofConnRsp) (some (.connectRsp flow (u32At body 0).toInt))
  | 0x20 =>
      let data := DataPost.ofBytes body
      ifReceived recvLen (hlen + sizeofDataPost)
        (ifReceived recvLen (hlen + sizeofDataPost + data.len.toNat) (some (.dataPost flow data)))
  | 0x21 =>
      let ack := DataAck.ofBytes body
      ifReceived recvLen (hlen + sizeofDataAck)
        (ifReceived recvLen (hlen + sizeofDataAck + (body 8).toNat * 4 * 2)
          (some (.dataAck flow ack)))
  | 0x24 => ifReceived recvLen (hlen + sizeofCloseReq) (some (.closeReq flow (u32At body 0)))
  | 0x25 => some (.closeRsp flow)
  | 0x26 => some (.connectRst flow)
  | 0x27 =>
      let data := DataPost.ofBytes (fun i => body (sizeofConnReq + i))
      ifReceived recvLen (hlen + sizeofDataConn)
        (ifReceived recvLen (hlen + sizeofDataConn + data.len.toNat)
          (some (.connectData flow (u16At body 0) data)))
  | 0x30 =>
      let fec := DataFec.ofBytes body
      ifReceived recvLen (hlen + sizeofDataFec)
        (ifReceived recvLen (hlen + sizeofDataFec + (u16At body 5).toNat) (some (.dataFec flow fec)))
  | _ => none

/-- `litedt_io_event` up to the call of a handler. -/
def litedtIoDecode (buf : Nat → Byte) (recvLen : Nat) : Option Packet :=
  if recvLen < sizeofLitedtHeader ∨ u16At buf 0 ≠ litedtVersion then
    none
  else
    litedtIoDispatch (buf 3) (u32At buf 4) (fun i => buf (sizeofLitedtHeader + i)) recvLen

/-- `litedt_io_event` on a buffer. -/
def Host.ioEvent (env : Env) (h : Host) (buf : Nat → Byte) (recvLen : Nat) : Host :=
  match litedtIoDecode buf recvLen with
  | none => h.updateTime env
  | some packet => h.litedtIoEvent env packet

/-- The end of what the handler of a message may read, from the start of the datagram: the header, the
structure, and as many bytes or pairs behind it as its length field says. -/
def Packet.extent : Packet → Nat
  | pingReq _ => sizeofLitedtHeader + sizeofPingReq
  | pingRsp _ => sizeofLitedtHeader + sizeofPingRsp
  | dataPost _ post => sizeofLitedtHeader + sizeofDataPost + post.len.toNat
  | dataAck _ ack => sizeofLitedtHeader + sizeofDataAck + 8 * ack.acks.length
  | connectReq _ _ => sizeofLitedtHeader + sizeofConnReq
  | connectRsp _ _ => sizeofLitedtHeader + sizeofConnRsp
  | closeReq _ _ => sizeofLitedtHeader + sizeofCloseReq
  | closeRsp _ | connectRst _ => sizeofLitedtHeader
  | connectData _ _ post => sizeofLitedtHeader + sizeofDataConn + post.len.toNat
  | dataFec _ fec => sizeofLitedtHeader + sizeofDataFec + fec.fecData.length

end Liteflow

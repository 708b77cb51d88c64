import Liteflow.Rbuffer

/-!
# Datagrams

`litedt_messages.h`. A datagram that passes the length checks of `litedt_io_event` is one of the
values of `Packet`; `len`, `ack_size` and `fec_len` are the lengths of the lists, except in a
`DataPost`, which also comes out of the error correction with a `len` that no check has seen.
-/

namespace Liteflow

def litedtMssMax : Nat := 1400
def litedtMaxHeader : Nat := 28
def litedtMtuMax : Nat := litedtMssMax + litedtMaxHeader

/-- `sizeof` of the packed structures. -/
def sizeofLitedtHeader : Nat := 8
def sizeofPingReq : Nat := 46
def sizeofPingRsp : Nat := 46
def sizeofDataPost : Nat := 11
def sizeofDataAck : Nat := 9
def sizeofConnReq : Nat := 2
def sizeofDataConn : Nat := sizeofConnReq + sizeofDataPost
def sizeofConnRsp : Nat := 4
def sizeofCloseReq : Nat := 4
def sizeofDataFec : Nat := 7

/-- The token is whatever `generate_token` returns. -/
abbrev Token := List Byte

structure PingReq where
  nodeId : U16
  pingId : U32
  timestamp : Time
  token : Token
deriving DecidableEq, Repr

structure PingRsp where
  nodeId : U16
  pingId : U32
  timestamp : Time
  token : Token
deriving DecidableEq, Repr

structure DataPost where
  seq : U32
  len : U16
  fecSeq : U32
  fecIndex : U8
  data : List Byte
deriving DecidableEq, Repr

structure DataAck where
  winStart : U32
  winSize : U32
  acks : List (U32 × U32)
deriving DecidableEq, Repr

structure DataFec where
  fecSeq : U32
  fecMembers : U8
  fecData : List Byte
deriving DecidableEq, Repr

inductive Packet where
  | pingReq (req : PingReq)
  | pingRsp (rsp : PingRsp)
  | dataPost (flow : U32) (post : DataPost)
  | dataAck (flow : U32) (ack : DataAck)
  | connectReq (flow : U32) (tunnelId : U16)
  | connectRsp (flow : U32) (status : Int)
  | closeReq (flow : U32) (lastSeq : U32)
  | closeRsp (flow : U32)
  | connectRst (flow : U32)
  | connectData (flow : U32) (tunnelId : U16) (post : DataPost)
  | dataFec (flow : U32) (fec : DataFec)
deriving DecidableEq, Repr

/-- The flow field of the header; 0 in the session messages. -/
def Packet.flow : Packet → U32
  | pingReq _ | pingRsp _ => 0
  | dataPost flow _ | dataAck flow _ | connectReq flow _ | connectRsp flow _ | closeReq flow _
  | closeRsp flow | connectRst flow | connectData flow _ _ | dataFec flow _ => flow

/-! ### Bytes of a `data_post_t` -/

def littleEndian (n : Nat) {w : Nat} (value : BitVec w) : List Byte :=
  (List.range n).map (fun i => BitVec.ofNat 8 (value.toNat / 256 ^ i))

/-- The number whose little-endian bytes are `bytes i, bytes (i + 1), ...`. -/
def readLittleEndian (bytes : Nat → Byte) (start : Nat) : Nat → Nat
  | 0 => 0
  | n + 1 => (bytes start).toNat + 256 * readLittleEndian bytes (start + 1) n

def DataPost.bytes (post : DataPost) : List Byte :=
  littleEndian 4 post.seq ++ littleEndian 2 post.len ++ littleEndian 4 post.fecSeq ++
    [post.fecIndex] ++ post.data

/-- `(data_post_t *)buf`. -/
def DataPost.ofBytes (bytes : Nat → Byte) : DataPost :=
  let len := BitVec.ofNat 16 (readLittleEndian bytes 4 2)
  { seq := BitVec.ofNat 32 (readLittleEndian bytes 0 4)
    len := len
    fecSeq := BitVec.ofNat 32 (readLittleEndian bytes 6 4)
    fecIndex := bytes 10
    data := (List.range len.toNat).map (fun i => bytes (sizeofDataPost + i)) }

end Liteflow

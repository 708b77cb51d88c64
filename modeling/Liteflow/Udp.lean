import Liteflow.System

/-!
# UDP datagrams over a flow

`udp.c` sends a datagram over a flow as its length, two bytes, followed by its contents.
`udp_host_recv` and `udp_local_recv` write such frames, with one call of `litedt_send` for the length
and one for the contents. `udp_remote_recv`, the `receive_cb` of such a flow, reads them.

What is left out is where a datagram comes from and where it goes: the table of bind records, which
gives the flow, and the sockets.
-/

namespace Liteflow

def udpBufferSize : Nat := 65536

/-- The first two bytes of `read_len`, an `int`. -/
def udpLength (readLen : Nat) : List Byte :=
  littleEndian 2 (BitVec.ofNat 32 readLen)

/-- `read_len` after `litedt_peek` has written to its first two bytes, or to fewer. -/
def readUdpLength (bytes : List Byte) : Nat :=
  readLittleEndian (fun i => (bytes[i]?).getD 0) 0 2

/-- A datagram at a socket. The two calls of `litedt_send` for it allocate on their own. -/
structure UdpRead where
  datagram : List Byte
  head : Env
  body : Env

/-- What `recvfrom` copies to `buf`. -/
def UdpRead.buf (read : UdpRead) : Payload :=
  ⟨read.datagram.take udpBufferSize, by
    have := List.length_take_le udpBufferSize read.datagram
    rw [udpBufferSize] at *
    omega⟩

def UdpRead.readLen (read : UdpRead) : Nat :=
  read.buf.val.length

/-- `(char *)&read_len`, of which two bytes are sent. -/
def UdpRead.length (read : UdpRead) : Payload :=
  ⟨udpLength read.readLen, by simp [udpLength, littleEndian]⟩

namespace Host

def litedtWritableBytes (h : Host) (flow : U32) : Int :=
  match h.findConnection flow with
  | none => litedtRecordNotFound
  | some conn => conn.sendBuf.rbufWritableBytes.toInt

/-- This is also what `receive_cb` is given. -/
def litedtReadableBytes (h : Host) (flow : U32) : Int :=
  match h.findConnection flow with
  | none => litedtRecordNotFound
  | some conn => conn.recvBuf.rbufReadableBytes.toInt

/-! ### Writing frames -/

def udpForward (h : Host) (flow : U32) (read : UdpRead) : Host :=
  ((h.litedtSend read.head flow read.length).2.litedtSend read.body flow read.buf).2

/-- One turn of the loop of `udp_host_recv`, from the point where the flow is known. -/
def udpHostTurn (h : Host) (flow : U32) (read : UdpRead) : Host :=
  if h.litedtWritableBytes flow < read.readLen + 2 then
    h -- "LiteDT Buffer is full, udp packet lost."
  else if 0xFFFF < read.readLen then
    h -- "Error: udp packet too large"
  else
    h.udpForward flow read

/-- `udp_host_recv`. A datagram without a bind record ends the list: `create_udp_bind` calls
`litedt_connect` for it, which is an event of its own. -/
def udpHostRecv (h : Host) (reads : List (U32 × UdpRead)) : Host :=
  reads.foldl (fun h read => h.udpHostTurn read.1 read.2) h

/-- One turn of the loop of `udp_local_recv`. -/
def udpLocalTurn (h : Host) (flow : U32) (read : UdpRead) : Host :=
  if h.litedtWritableBytes flow < read.readLen + 2 then h else h.udpForward flow read

/-- `udp_local_recv`. The loop ends with an empty datagram; the others stay at the socket. -/
def udpLocalRecv (h : Host) (flow : U32) : List UdpRead → Host
  | [] => h
  | read :: rest =>
      if 0 < read.readLen then (h.udpLocalTurn flow read).udpLocalRecv flow rest
      else h.udpLocalTurn flow read

end Host

/-! ### Reading frames -/

/-- The state of the loop of `udp_remote_recv`: the host, the static buffer, and the datagrams that
have been sent on. -/
structure UdpReader where
  host : Host
  buf : Block
  sent : List (List Byte)

namespace UdpReader

/-- One turn, after the test for a whole frame. -/
def take (env : Env) (flow : U32) (readLen : Nat) (s : UdpReader) : UdpReader :=
  let skipped := s.host.litedtRecvSkip env flow 2
  -- `litedt_recv` copies what `litedt_peek` would
  let received := ((skipped.litedtPeek flow (BitVec.ofNat 32 readLen)).getD [])
  let buf := Rbuf.copyIn s.buf 0 received
  { host := (skipped.litedtRecv env flow (BitVec.ofNat 32 readLen)).2
    buf := buf
    sent := s.sent ++ [(List.range readLen).map buf] }

/-- The loop. Every turn takes two bytes or more. -/
def loop (env : Env) (flow : U32) : Nat → UdpReader → Int → UdpReader
  | 0, s, _ => s
  | fuel + 1, s, readable =>
      if readable ≤ 0 then
        s
      else
        let readLen := readUdpLength ((s.host.litedtPeek flow 2).getD [])
        if readable < readLen + 2 then s
        else loop env flow fuel (s.take env flow readLen) (readable - (readLen + 2))

end UdpReader

def udpRemoteRecv (env : Env) (flow : U32) (s : UdpReader) (readable : Int) : UdpReader :=
  UdpReader.loop env flow readable.toNat s readable

/-! ### What happens at the two ends -/

def Host.unread (h : Host) (flow : U32) : List Byte :=
  match h.findConnection flow with
  | none => []
  | some conn => conn.front conn.recvBuf.rbufReadableBytes.toNat

inductive UdpEvent where
  | hostRecv (reads : List (U32 × UdpRead))
  | localRecv (flow : U32) (reads : List UdpRead)
  | other (env : Env) (event : HostEvent)

namespace Host

def udpStep (h : Host) : UdpEvent → Host
  | .hostRecv reads => h.udpHostRecv reads
  | .localRecv flow reads => h.udpLocalRecv flow reads
  | .other env event => h.step env event

def udpRun (h : Host) (events : List UdpEvent) : Host :=
  events.foldl udpStep h

end Host

end Liteflow

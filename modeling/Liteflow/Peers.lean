import Liteflow.Datagram
import Liteflow.Flows
import Liteflow.System

/-!
# The peers of a node

The tables of `liteflow.c` that say which peer an address belongs to, which one a node id, and which
ones are configured, with the callbacks that fill and clear them.

* A pointer to a peer is its number in the order of creation, and `heap` has the peers that have not
  been released. To follow the pointer of a released one is undefined: the functions return `none`.
* Addresses and ports are numbers, whatever their byte order in the socket structures. The length of a
  socket address is that of its family. `inet_pton` is a parameter of the service.
* A timer of a peer may fire whenever the peer is there, since both callers of `release_peer` stop it,
  and a DNS query may be answered at any later time. `resolve_ipv6` only chooses what is asked for.
* `flow_map` is the subject of `Liteflow.Flows`. Closing the sockets of its flows and resetting the
  socket of the node change no table.
-/

namespace Liteflow

def domainMaxLen : Nat := 128
def domainPortMaxLen : Nat := domainMaxLen + 6
def defaultPort : U16 := 19210

/-! ### Addresses -/

inductive IpAddr where
  | v4 (address : BitVec 32)
  | v6 (address : BitVec 128)
deriving DecidableEq, Repr

/-- `struct sockaddr_storage`; `unspec` stands for every other family. -/
inductive SockAddr where
  | unspec
  | inet (address : BitVec 32) (port : U16)
  | inet6 (address : BitVec 128) (port : U16)
deriving DecidableEq, Repr

def IpAddr.sockAddr (port : U16) : IpAddr → SockAddr
  | v4 address => .inet address port
  | v6 address => .inet6 address port

inductive SaFamily where
  | unspec
  | inet
  | inet6
deriving DecidableEq, Repr

/-- `addr_key_t`; the first byte of `address` is the most significant one. -/
structure AddrKey where
  family : SaFamily
  port : U16
  address : BitVec 128
deriving DecidableEq, Repr

def AddrKey.zero : AddrKey := ⟨.unspec, 0, 0⟩

def getAddrKey : SockAddr → Option AddrKey
  | .unspec => none
  | .inet address port => some ⟨.inet, port, address ++ (0 : BitVec 96)⟩
  | .inet6 address port =>
      -- `IN6_IS_ADDR_V4MAPPED`
      if address >>> 32 = 0xffff then
        some ⟨.inet, port, address.setWidth 32 ++ (0 : BitVec 96)⟩
      else
        some ⟨.inet6, port, address⟩

/-! ### Names of outbound peers -/

/-- The number at the start of a text. -/
def leadingNumber (text : List Char) : Nat :=
  (text.takeWhile Char.isDigit).foldl (fun number c => 10 * number + (c.toNat - 48)) 0

def isSpace (c : Char) : Bool :=
  c.toNat = 32 ∨ 9 ≤ c.toNat ∧ c.toNat ≤ 13

def atoi (text : List Char) : Int :=
  match text.dropWhile isSpace with
  | '-' :: rest => -(leadingNumber rest : Int)
  | '+' :: rest => leadingNumber rest
  | rest => leadingNumber rest

/-- What stands before and behind the last colon (`strrchr`). -/
def splitLastColon (text : List Char) : Option (List Char × List Char) :=
  if ':' ∈ text then
    let behind := text.reverse.takeWhile (· ≠ ':')
    some ((text.reverse.drop (behind.length + 1)).reverse, behind.reverse)
  else
    none

/-- `parse_peer_address_port`: `peer->address` and `peer->port`. -/
def parsePeerAddressPort (addressPort : List Char) : List Char × U16 :=
  if domainPortMaxLen - 1 < addressPort.length then
    ([], defaultPort)
  else
    match splitLastColon addressPort with
    | some (address, port) =>
        if domainMaxLen ≤ address.length then ([], defaultPort)
        else (address, BitVec.ofInt 16 (atoi port))
    | none =>
        if domainMaxLen ≤ addressPort.length then ([], defaultPort)
        else (addressPort, defaultPort)

/-- `snprintf` with `"%s:%u"` in `release_peer`. -/
def printAddressPort (address : List Char) (port : U16) : List Char :=
  (address ++ ':' :: Nat.toDigits 10 port.toNat).take (domainPortMaxLen - 1)

/-! ### Nodes -/

/-- The part of `g_config` that the functions here use. -/
structure Service where
  nodeId : U32
  maxIncomingPeers : U32
  transport : Config
  /-- `inet_pton`, for either family. -/
  inetPton : List Char → Option IpAddr

abbrev PeerRef := Nat

structure PeerInfo where
  peerId : U16
  isOutbound : Bool
  dt : Host
  address : List Char
  port : U16
  remoteAddr : SockAddr
  boundAddrKey : AddrKey

/-- The global state of `liteflow.c`, with the peers that DNS queries are pending for. -/
structure Node where
  service : Service
  heap : PeerRef → Option PeerInfo
  created : Nat
  addrsTab : HashQueue AddrKey PeerRef
  peersTab : HashQueue U16 PeerRef
  peersOutbound : HashQueue (List Char) PeerRef
  peersInboundCnt : U32
  dnsQueries : List PeerRef

/-- What surrounds an event at a node; `newPeer` says that `new_peer` gets its memory. -/
structure NodeEnv extends Env where
  newPeer : Bool

/-- `online_cb(host, 1)` is called during `litedt_io_event`. -/
def Host.comesOnline (env : Env) (h : Host) (buf : Nat → Byte) (recvLen : Nat) : Bool :=
  match litedtIoDecode buf recvLen with
  | some (.pingRsp rsp) => !h.remoteOnline && (h.updateTime env).acceptsPingRsp env rsp
  | _ => false

/-- `online_cb(host, 0)` is called during `litedt_time_event`. -/
def Host.goesOffline (env : Env) (h : Host) : Bool :=
  !h.closed && h.offlineTime ≤ env.now

namespace Node

/-- The tables after `init_liteflow`, before the first `new_peer_outbound`. -/
def init (service : Service) : Node where
  service := service
  heap := fun _ => none
  created := 0
  addrsTab := []
  peersTab := []
  peersOutbound := []
  peersInboundCnt := 0
  dnsQueries := []

def setPeer (n : Node) (ref : PeerRef) (peer : PeerInfo) : Node :=
  { n with heap := Function.update n.heap ref (some peer) }

/-- `addrs_tab` without the address a peer is bound to. -/
def unbind (n : Node) (peer : PeerInfo) : HashQueue AddrKey PeerRef :=
  if peer.boundAddrKey.family ≠ .unspec then n.addrsTab.queueDel peer.boundAddrKey else n.addrsTab

def peerStart (n : Node) (ref : PeerRef) (addr : SockAddr) : Option Node :=
  (n.heap ref).map (fun peer =>
    let key := (getAddrKey addr).getD .zero
    { n.setPeer ref { peer with boundAddrKey := key, remoteAddr := addr } with
      addrsTab := ((n.unbind peer).queueDel key).queueAppend key ref })

def releasePeer (n : Node) (ref : PeerRef) : Option Node :=
  (n.heap ref).map (fun peer =>
    { n with
      heap := Function.update n.heap ref none
      addrsTab := n.unbind peer
      peersTab := if peer.peerId ≠ 0 then n.peersTab.queueDel peer.peerId else n.peersTab
      peersOutbound :=
        if peer.isOutbound then
          n.peersOutbound.queueDel (printAddressPort peer.address peer.port)
        else
          n.peersOutbound
      peersInboundCnt :=
        if peer.isOutbound then n.peersInboundCnt else n.peersInboundCnt - 1 })

def resolveOutboundPeer (n : Node) (ref : PeerRef) : Option Node := do
  let peer ← n.heap ref
  match n.service.inetPton peer.address with
  | some ip => n.peerStart ref (ip.sockAddr peer.port)
  | none => some { n with dnsQueries := n.dnsQueries ++ [ref] }

/-! ### Going online and offline -/

/-- "rebind peer address". -/
def rebind (n : Node) (ref : PeerRef) (peer : PeerInfo) : Node :=
  if peer.boundAddrKey.family ≠ .unspec then
    { n with addrsTab := (n.addrsTab.queueDel peer.boundAddrKey).queueAppend peer.boundAddrKey ref }
  else
    n

/-- The peer that an outbound peer with this id takes the place of. -/
def conflict (n : Node) (ref : PeerRef) (peerId : U16) : Option PeerRef :=
  (n.peersTab.queueGet peerId).filter (· ≠ ref)

/-- "Outbound peer may conflict with an inbound peer". -/
def overwriteConflict (n : Node) (ref : PeerRef) (peer : PeerInfo) : Option Node :=
  match n.conflict ref peer.peerId with
  | some old => (n.releasePeer old).map (fun released => released.rebind ref peer)
  | none => some n

/-- `liteflow_on_online` for a peer that is online. -/
def onOnline (n : Node) (ref : PeerRef) (peer : PeerInfo) : Option Node :=
  if peer.isOutbound then
    let peer := { peer with peerId := peer.dt.peerNodeId }
    ((n.setPeer ref peer).overwriteConflict ref peer).map (fun cleared =>
      { cleared with peersTab := cleared.peersTab.queueAppend peer.peerId ref })
  else
    some n

/-- `liteflow_on_online` for a peer that is offline. -/
def onOffline (n : Node) (ref : PeerRef) (peer : PeerInfo) : Option Node :=
  if peer.isOutbound then
    let unnamed :=
      if peer.peerId ≠ 0 then
        { n.setPeer ref { peer with peerId := 0 } with
          peersTab := n.peersTab.queueDel peer.peerId }
      else
        n
    unnamed.resolveOutboundPeer ref
  else
    n.releasePeer ref

def liteflowOnOnline (n : Node) (ref : PeerRef) (online : Bool) : Option Node := do
  let peer ← n.heap ref
  if online then n.onOnline ref peer else n.onOffline ref peer

/-! ### Datagrams -/

variable (env : NodeEnv)

/-- `litedt_io_event` on `peer->dt`, with its callback. -/
def litedtIoEvent (n : Node) (ref : PeerRef) (buf : Nat → Byte) (recvLen : Nat) : Option Node := do
  let peer ← n.heap ref
  let received := n.setPeer ref { peer with dt := peer.dt.ioEvent env.toEnv buf recvLen }
  if peer.dt.comesOnline env.toEnv buf recvLen then received.liteflowOnOnline ref true
  else some received

/-- `new_peer`, with what its callers assign; `none` for `NULL`. -/
def newPeer (n : Node) (isOutbound : Bool) (peerId : U16) (address : List Char) (port : U16) :
    Option (PeerRef × Node) :=
  if env.newPeer then
    let peer : PeerInfo :=
      { peerId := peerId
        isOutbound := isOutbound
        dt := Host.litedtInit n.service.transport (wireNodeId n.service.nodeId) env.now
        address := address
        port := port
        remoteAddr := .unspec
        boundAddrKey := .zero }
    some (n.created, { n.setPeer n.created peer with created := n.created + 1 })
  else
    none

/-- `try_accept_peer`, with `new_peer_inbound`. Its caller has computed the address key before. -/
def tryAcceptPeer (n : Node) (addr : SockAddr) (buf : Nat → Byte) (recvLen : Nat) : Option Node :=
  if buf 3 ≠ 0x10 ∨ recvLen < sizeofLitedtHeader + sizeofPingReq then
    some n
  else
    let peerId := (PingReq.ofBytes (fun i => buf (sizeofLitedtHeader + i))).nodeId
    match n.peersTab.queueGet peerId with
    | some ref => do
        let moved ← n.peerStart ref addr
        moved.litedtIoEvent env ref buf recvLen
    | none =>
        if n.service.maxIncomingPeers ≤ n.peersInboundCnt then
          some n
        else
          let counted := { n with peersInboundCnt := n.peersInboundCnt + 1 }
          match counted.newPeer env false peerId [] 0 with
          | none => some counted
          | some (ref, allocated) => do
              let named := { allocated with peersTab := allocated.peersTab.queueAppend peerId ref }
              let started ← named.peerStart ref addr
              started.litedtIoEvent env ref buf recvLen

/-- One turn of the loop of `litedt_io_cb`. -/
def litedtIoCb (n : Node) (addr : SockAddr) (buf : Nat → Byte) (recvLen : Nat) : Option Node :=
  match getAddrKey addr with
  | none => some n
  | some key =>
      if recvLen < sizeofLitedtHeader ∨ u16At buf 0 ≠ litedtVersion then
        some n
      else
        match n.addrsTab.queueGet key with
        | none => n.tryAcceptPeer env addr buf recvLen
        | some ref => n.litedtIoEvent env ref buf recvLen

/-! ### The other events -/

def newPeerOutbound (n : Node) (addressPort : List Char) : Option Node :=
  let key := addressPort.take (domainPortMaxLen - 1)
  if (n.peersOutbound.queueGet key).isSome then
    some n
  else
    let (address, port) := parsePeerAddressPort addressPort
    match n.newPeer env true 0 address port with
    | none => some n
    | some (ref, allocated) =>
        { allocated with
          peersOutbound := allocated.peersOutbound.queueAppend key ref }.resolveOutboundPeer ref

def litedtTimeoutCb (n : Node) (ref : PeerRef) (fuel : Nat) : Option Node :=
  match n.heap ref with
  | none => some n
  | some peer =>
      let served := n.setPeer ref { peer with dt := peer.dt.litedtTimeEvent env.toEnv fuel }
      if peer.dt.goesOffline env.toEnv then served.liteflowOnOnline ref false else some served

/-- `dns_query_cb`; without an address it only sets the timer of the peer. -/
def dnsQueryCb (n : Node) (ref : PeerRef) (answer : Option IpAddr) : Option Node :=
  if ref ∈ n.dnsQueries then do
    let peer ← n.heap ref
    let answered := { n with dnsQueries := n.dnsQueries.erase ref }
    match answer with
    | none => some answered
    | some ip => answered.peerStart ref (ip.sockAddr peer.port)
  else
    some n

def dnsFailedCb (n : Node) (ref : PeerRef) : Option Node :=
  match n.heap ref with
  | none => some n
  | some _ => n.liteflowOnOnline ref false

/-- A call of `litedt` by a flow of a peer; `release_peer` closes the flows. -/
def flowCall (n : Node) (ref : PeerRef) (call : Call) : Option Node :=
  match n.heap ref with
  | none => some n
  | some peer => some (n.setPeer ref { peer with dt := peer.dt.call env.toEnv call })

end Node

inductive NodeEvent where
  | connectPeer (addressPort : List Char)
  | datagram (addr : SockAddr) (buf : Nat → Byte) (recvLen : Nat)
  | timeout (ref : PeerRef) (fuel : Nat)
  | dnsQuery (ref : PeerRef) (answer : Option IpAddr)
  | dnsFailed (ref : PeerRef)
  | flowCall (ref : PeerRef) (call : Call)

namespace Node

def step (env : NodeEnv) (n : Node) : NodeEvent → Option Node
  | .connectPeer addressPort => n.newPeerOutbound env addressPort
  | .datagram addr buf recvLen => n.litedtIoCb env addr buf recvLen
  | .timeout ref fuel => n.litedtTimeoutCb env ref fuel
  | .dnsQuery ref answer => n.dnsQueryCb ref answer
  | .dnsFailed ref => n.dnsFailedCb ref
  | .flowCall ref call => n.flowCall env ref call

/-- A run of the event loop; `none` once a released peer has been used. -/
def run (n : Node) (events : List (NodeEnv × NodeEvent)) : Option Node :=
  events.foldlM (fun n e => n.step e.1 e.2) n

end Node

end Liteflow

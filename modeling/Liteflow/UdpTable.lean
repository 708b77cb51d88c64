import Liteflow.Peers
import Liteflow.Udp

/-!
# UDP flows and their bind records

`udp_tab` of `udp.c` finds the flow of a UDP client by the socket it has written to and by its
address. A record is made when the client is heard for the first time, expires when it has been silent
for `udp_timeout`, and goes when the connection of its flow is released: `release_connection` calls
`liteflow_on_close`, and that `udp_remote_close`.

* Of `flow_info_t` the table of a peer keeps `ext`. A flow that was not opened for a UDP client
  (`sock_fd` is set, or it is a TCP flow) has no record.
* `close_cb` is called by `release_connection`, which logs that it has run. Nothing reads `udp_tab`
  during an event of a host, so the callbacks are run after it.
* A pointer to a record is its key. The sweep `udp_timeout_cb` notes whether the record it follows a
  pointer to is there.
* Here `connect_cb` may also ask for notifications, as `udp_remote_init` does.
-/

namespace Liteflow

/-! ### Keys -/

structure UdpKey where
  hostFd : Nat
  ip : BitVec 128
  port : U16
deriving DecidableEq, Repr

/-- "mark this address as ipv4". -/
def markIpv4 (address : BitVec 32) : BitVec 128 :=
  (0xFF : BitVec 8) ++ (0 : BitVec 88) ++ address

def convertToUdpKey (hostFd : Nat) : SockAddr → UdpKey
  | .unspec => ⟨hostFd, 0, 0⟩
  | .inet address port => ⟨hostFd, markIpv4 address, port⟩
  | .inet6 address port => ⟨hostFd, address, port⟩

/-! ### Records -/

structure UdpBind where
  peer : PeerRef
  flow : U32
  expire : Time
  closed : Bool
deriving DecidableEq, Repr

/-- `flow_info_t.ext`: of a flow for a UDP client, `host_fd` and `sock_addr`. -/
inductive FlowExt where
  | client (hostFd : Nat) (sockAddr : SockAddr)
  | other
deriving DecidableEq, Repr

/-- `peer->dt` and `flow_map` of every peer, and `udp_tab`. -/
structure UdpNode where
  hosts : PeerRef → Host
  flows : PeerRef → U32 → Option FlowExt
  udpTab : HashQueue UdpKey UdpBind

/-- A datagram at the socket `hostFd`: its sender, the rule of the socket, and the flow that
`next_flow_id` would return for it. -/
structure UdpArrival where
  hostFd : Nat
  addr : SockAddr
  tunnelId : U16
  peer : PeerRef
  flow : U32
  read : UdpRead

namespace UdpNode

def setExt (n : UdpNode) (ref : PeerRef) (flow : U32) (ext : Option FlowExt) : UdpNode :=
  { n with flows := Function.update n.flows ref (Function.update (n.flows ref) flow ext) }

def udpRemoteClose (n : UdpNode) : FlowExt → UdpNode
  | .client hostFd sockAddr =>
      { n with udpTab := n.udpTab.queueDel (convertToUdpKey hostFd sockAddr) }
  | .other => n

/-- `liteflow_on_close`, with `release_flow`. -/
def liteflowOnClose (n : UdpNode) (ref : PeerRef) (flow : U32) : UdpNode :=
  match n.flows ref flow with
  | none => n
  | some ext => (n.udpRemoteClose ext).setExt ref flow none

/-- What an event of a host does to the tables. A connection that is created for a flow without an
entry has got one in `connect_cb`. -/
def onEvent (ref : PeerRef) (n : UdpNode) : Event → UdpNode
  | .created flow =>
      if (n.flows ref flow).isSome then n else n.setExt ref flow (some .other)
  | .released flow _ _ => n.liteflowOnClose ref flow
  | _ => n

/-- `h` takes the place of a host, and its callbacks are run. -/
def setHost (n : UdpNode) (ref : PeerRef) (h : Host) : UdpNode :=
  (h.log.drop (n.hosts ref).log.length).foldl (onEvent ref)
    { n with hosts := Function.update n.hosts ref h }

/-! ### Datagrams of the clients -/

/-- `udp_timeout * USEC_PER_SEC`, a product in 32 bits. -/
def udpExpire (udpTimeout : U32) (now : Time) : Time :=
  now + (udpTimeout * BitVec.ofNat 32 usecPerSec).toNat

/-- `create_udp_bind`; `none` if it fails. `next_flow_id` returns no flow that has an entry. -/
def createUdpBind (env : Env) (udpTimeout : U32) (n : UdpNode) (arrival : UdpArrival) :
    Option UdpNode :=
  if (n.flows arrival.peer arrival.flow).isSome then
    none
  else
    let (ret, connected) :=
      (n.hosts arrival.peer).litedtConnect env arrival.flow arrival.tunnelId
    if ret ≠ 0 then
      none
    else
      let notified :=
        (connected.litedtSetNotifyRecv arrival.flow false).litedtSetNotifyRecvnew arrival.flow true
      let entered := (n.setExt arrival.peer arrival.flow
        (some (.client arrival.hostFd arrival.addr))).setHost arrival.peer notified
      some { entered with
        udpTab := entered.udpTab.queueAppend (convertToUdpKey arrival.hostFd arrival.addr)
          { peer := arrival.peer
            flow := arrival.flow
            expire := udpExpire udpTimeout env.now
            closed := false } }

/-- The record of a datagram, which `udp_host_recv` makes or keeps from expiring. -/
def bindArrival (env : Env) (udpTimeout : U32) (n : UdpNode) (arrival : UdpArrival) :
    Option UdpNode :=
  let ukey := convertToUdpKey arrival.hostFd arrival.addr
  match n.udpTab.queueGet ukey with
  | none => n.createUdpBind env udpTimeout arrival
  | some _ =>
      let refreshed := n.udpTab.queueModify ukey (fun ubind =>
        { ubind with expire := udpExpire udpTimeout env.now })
      some { n with udpTab := refreshed.queueMoveBack ukey }

/-- One turn of the loop of `udp_host_recv`. -/
def udpHostRecv (env : Env) (udpTimeout : U32) (n : UdpNode) (arrival : UdpArrival) : UdpNode :=
  match n.bindArrival env udpTimeout arrival with
  | none => n
  | some bound =>
      match bound.udpTab.queueGet (convertToUdpKey arrival.hostFd arrival.addr) with
      | none => bound
      | some ubind =>
          bound.setHost ubind.peer
            ((bound.hosts ubind.peer).udpHostTurn ubind.flow arrival.read)

/-! ### The sweep -/

/-- A record that `udp_timeout_cb` reads or writes, and whether it is in `udp_tab` at that moment. -/
structure Touch where
  ukey : UdpKey
  present : Bool
deriving DecidableEq, Repr

structure Sweep where
  node : UdpNode
  touches : List Touch

def touch (n : UdpNode) (ukey : UdpKey) : Touch :=
  { ukey := ukey, present := (n.udpTab.queueGet ukey).isSome }

/-- `litedt_close(&ubind->peer->dt, ubind->flow)`, with its callbacks. -/
def litedtClose (env : Env) (n : UdpNode) (ubind : UdpBind) : UdpNode :=
  n.setHost ubind.peer ((n.hosts ubind.peer).litedtClose env ubind.flow).2

/-- "udp map expired". -/
def expireBind (env : Env) (s : Sweep) (ukey : UdpKey) (ubind : UdpBind) : Sweep :=
  let closed := s.node.litedtClose env ubind
  { node :=
      { closed with
        udpTab := closed.udpTab.queueModify ukey (fun ubind => { ubind with closed := true }) }
    touches := s.touches ++ [closed.touch ukey] }

/-- The loop of `udp_timeout_cb`. The pointer to the next record is read before the current one is
closed. -/
def udpTimeoutLoop (env : Env) : Nat → Option UdpKey → Sweep → Sweep
  | 0, _, s => s
  | _ + 1, none, s => s
  | fuel + 1, some ukey, s =>
      let read := { s with touches := s.touches ++ [s.node.touch ukey] }
      match s.node.udpTab.queueGet ukey with
      | none => read
      | some ubind =>
          let next := s.node.udpTab.queueNext ukey
          if env.now < ubind.expire then
            read
          else if ubind.closed then
            udpTimeoutLoop env fuel next read
          else
            udpTimeoutLoop env fuel next (expireBind env read ukey ubind)

def udpTimeoutCb (env : Env) (n : UdpNode) : Sweep :=
  udpTimeoutLoop env n.udpTab.length n.udpTab.queueFirst { node := n, touches := [] }

/-! ### Runs -/

inductive NodeAction where
  | arrive (udpTimeout : U32) (arrival : UdpArrival)
  | event (ref : PeerRef) (event : HostEvent)
  | sweep

def step (env : Env) (n : UdpNode) : NodeAction → UdpNode
  | .arrive udpTimeout arrival => n.udpHostRecv env udpTimeout arrival
  | .event ref event => n.setHost ref ((n.hosts ref).step env event)
  | .sweep => (n.udpTimeoutCb env).node

def run (n : UdpNode) (actions : List (Env × NodeAction)) : UdpNode :=
  actions.foldl (fun n act => n.step act.1 act.2) n

/-- The tables after `udp_init`, before any flow. -/
def init (hosts : PeerRef → Host) : UdpNode where
  hosts := hosts
  flows := fun _ _ => none
  udpTab := []

end UdpNode

/-! ### Notifications of a new connection -/

/-- Calls that `connect_cb` makes for the flow it is asked about. -/
inductive NotifyCall where
  | recv (notify : Bool)
  | recvnew (notify : Bool)
  | send (notify : Bool)
deriving DecidableEq, Repr

/-- The calls of a `connect_cb`, and its answer. -/
abbrev ConnectCb := Host → U32 → U16 → List NotifyCall × Int

/-- The calls of `udp_remote_init`, which `liteflow_on_connect` makes for a UDP rule. -/
def udpRemoteInit : ConnectCb := fun _ _ _ => ([.recv false, .recvnew true], 0)

namespace Host

def notifyCall (flow : U32) (h : Host) : NotifyCall → Host
  | .recv notify => h.litedtSetNotifyRecv flow notify
  | .recvnew notify => h.litedtSetNotifyRecvnew flow notify
  | .send notify => h.litedtSetNotifySend flow notify

/-- `create_connection` for a `CONNECT_REQ` or a `CONNECT_DATA`, with the calls of `connect_cb`. -/
def acceptConnection (env : Env) (connectCb : ConnectCb) (h : Host) (flow : U32) (tunnelId : U16) :
    Int × Host :=
  if (h.findConnection flow).isSome then
    (litedtRecordExists, h)
  else if (h.timewaitQueue.queueGet flow).isSome then
    (litedtRecordExists, h)
  else
    let (calls, ret) := connectCb h flow tunnelId
    let asked := calls.foldl (notifyCall flow) h
    if ret ≠ 0 then
      (ret, asked)
    else
      let pushed :=
        { asked with
          connQueue :=
            asked.connQueue.timerlistPush env.now flow
              (newConn asked.cfg env.now tunnelId .established) }
      (0, (pushed.record (.created flow)).litedtModEvtime (some flow) env.now)

end Host

end Liteflow

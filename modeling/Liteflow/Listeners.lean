import Liteflow.ConfigFile

/-!
# The listening sockets

`hsock_list` of `tcp.c` and of `udp.c`: the loop of `init_liteflow` that opens the entrances, and
`tcp_local_reload` and `udp_local_reload`. All socket calls succeed. `inet_pton` is a parameter, and a
`listen_addr` that it does not take cannot be opened.
-/

namespace Liteflow

structure Hsock where
  localAddr : List Char
  localPort : U16
  tunnelId : U16
  peerForward : U16
deriving DecidableEq, Repr

/-- The record that `tcp_local_init` and `udp_local_init` make of a rule. -/
def Hsock.ofRule (entrance : EntranceRule) : Hsock where
  localAddr := entrance.listenAddr.take (addressMaxLen - 1)
  localPort := entrance.listenPort
  tunnelId := entrance.tunnelId
  peerForward := entrance.nodeId

/-- The test by which both loops of a reload find the rule of a socket. -/
def Hsock.serves (host : Hsock) (entry : EntranceRule) : Bool :=
  host.localAddr = entry.listenAddr ∧ host.localPort = entry.listenPort

/-- The rules in front of the first one with port 0. -/
def activeRules (entrances : List EntranceRule) : List EntranceRule :=
  entrances.takeWhile (fun entry => entry.listenPort ≠ 0)

section Sockets

variable (inetPton : List Char → Option IpAddr)

def tcpLocalInit (entrance : EntranceRule) (hsocks : List Hsock) : Int × List Hsock :=
  if (inetPton entrance.listenAddr).isSome then (0, hsocks ++ [.ofRule entrance]) else (-1, hsocks)

def udpLocalInit (entrance : EntranceRule) (hsocks : List Hsock) : Int × List Hsock :=
  if maxPortNum ≤ hsocks.length then (-1, hsocks)
  else if (inetPton entrance.listenAddr).isSome then (0, hsocks ++ [.ofRule entrance])
  else (-1, hsocks)

/-! ### Starting -/

structure Listeners where
  tcp : List Hsock
  udp : List Hsock
deriving DecidableEq, Repr

/-- The loop of `init_liteflow`; it ends at the first rule that cannot be opened. -/
def initListeners : List EntranceRule → Listeners → Int × Listeners
  | [], listeners => (0, listeners)
  | entrance :: rest, listeners =>
      if entrance.listenPort = 0 then
        (0, listeners)
      else
        match entrance.protocol with
        | .tcp =>
            let (ret, tcp) := tcpLocalInit inetPton entrance listeners.tcp
            if ret ≠ 0 then (ret, listeners) else initListeners rest { listeners with tcp := tcp }
        | .udp =>
            let (ret, udp) := udpLocalInit inetPton entrance listeners.udp
            if ret ≠ 0 then (ret, listeners) else initListeners rest { listeners with udp := udp }

/-! ### Reloading -/

/-- What the first loop of a reload keeps of a socket: nothing without a rule, else everything but the
tunnel. -/
def keepHsock (protocol : Protocol) (entrances : List EntranceRule) (host : Hsock) : Option Hsock :=
  ((activeRules entrances).find? (fun entry => entry.protocol = protocol ∧ host.serves entry)).map
    (fun entry => { host with tunnelId := entry.tunnelId })

/-- The first loop of a reload, for the given number of turns: the last socket takes the place of one
that is closed. -/
def releaseLoop (protocol : Protocol) (entrances : List EntranceRule) :
    Nat → Nat → List Hsock → List Hsock
  | 0, _, hsocks => hsocks
  | turns + 1, i, hsocks =>
      match hsocks[i]? with
      | none => hsocks
      | some host =>
          match keepHsock protocol entrances host with
          | some host => releaseLoop protocol entrances turns (i + 1) (hsocks.set i host)
          | none =>
              let moved :=
                if i ≠ hsocks.length - 1 then hsocks.set i (hsocks.getLastD host) else hsocks
              releaseLoop protocol entrances turns i moved.dropLast

def bindLoop (protocol : Protocol) (init : EntranceRule → List Hsock → Int × List Hsock)
    (entrances : List EntranceRule) (hsocks : List Hsock) : List Hsock :=
  (activeRules entrances).foldl (fun hsocks entry =>
    if entry.protocol ≠ protocol then hsocks
    else if hsocks.any (fun host => host.serves entry) then hsocks
    else (init entry hsocks).2) hsocks

/-- Every turn of the first loop moves on or closes a socket. -/
def localReload (protocol : Protocol) (init : EntranceRule → List Hsock → Int × List Hsock)
    (entrances : List EntranceRule) (hsocks : List Hsock) : List Hsock :=
  bindLoop protocol init entrances (releaseLoop protocol entrances hsocks.length 0 hsocks)

def tcpLocalReload (entrances : List EntranceRule) (hsocks : List Hsock) : List Hsock :=
  localReload .tcp (tcpLocalInit inetPton) entrances hsocks

def udpLocalReload (entrances : List EntranceRule) (hsocks : List Hsock) : List Hsock :=
  localReload .udp (udpLocalInit inetPton) entrances hsocks

/-- The two calls of `monitor_cb`. -/
def reloadListeners (entrances : List EntranceRule) (listeners : Listeners) : Listeners where
  tcp := tcpLocalReload inetPton entrances listeners.tcp
  udp := udpLocalReload inetPton entrances listeners.udp

end Sockets

/-- A table of entrances: it ends with a rule of port 0, its addresses fit their fields, and no two
rules of a protocol have the same address and port. -/
structure RuleTable where
  rows : List EntranceRule
  length_eq : rows.length = maxPortNum + 1
  terminated : ∃ row ∈ rows, row.listenPort = 0
  addr_lt : ∀ row ∈ rows, row.listenAddr.length < addressMaxLen
  distinct : (activeRules rows).Pairwise (fun r r' => r.protocol = r'.protocol →
    (r.listenAddr, r.listenPort) ≠ (r'.listenAddr, r'.listenPort))

end Liteflow

import Liteflow.Lib.References
import Liteflow.Peers
import Liteflow.Proof.Datagram
import Liteflow.Proof.RefineTime

/-!
# Which peer is reached where

What a ping request does to the tables of a node, and the invariants of the tables over the runs of
the event loop.
-/

namespace Liteflow

open HashQueue References

/-! ### The other end -/

namespace FlowState

variable (v : FlowState) (flow : U32)

@[simp]
theorem session_postFull (c : Stream) : (v.postFull flow c).session = v.session := by
  unfold postFull
  split <;> rfl

@[simp]
theorem session_repost (c : Stream) (nodeAlloc : Bool) (packet entry : PacketEntry) :
    (v.repost flow c nodeAlloc packet entry).session = v.session := by
  unfold repost
  split <;> rfl

@[simp]
theorem session_requeue (key : U32) (packet : PacketEntry) (time : Time) :
    (v.requeue flow key packet time).session = v.session := by
  unfold requeue
  split <;> rfl

@[simp]
theorem session_popUnready (key : U32) : (v.popUnready flow key).session = v.session := by
  unfold popUnready
  split
  · rfl
  · split <;> rfl

end FlowState

theorem SenderMove.session_eq {flow : U32} {env : Env} {v v' : FlowState}
    (hmove : SenderMove flow env v v') : v'.session = v.session := by
  cases hmove <;> simp [FlowState.send, FlowState.note, FlowState.withStream]

theorem peerNodeId_move {flow : U32} {env : Env} {event : HostEvent} {start v v' : FlowState}
    {id : U16} (hid : id ≠ 0) (hmove : Move flow env event start v v')
    (hv : v.session.peerNodeId = id) : v'.session.peerNodeId = id := by
  cases hmove with
  | sender hmove => rwa [hmove.session_eq]
  | ack hmove => cases hmove <;> exact hv
  | receiver hmove => cases hmove <;> exact hv
  | control hmove => cases hmove <;> exact hv
  | session hmove =>
      cases hmove with
      | accept hevent hpingId htime hnode htoken =>
          have hne : v.session.peerNodeId ≠ 0 := hv ▸ hid
          exact (if_neg hne).trans hv
      | _ => exact hv
  | foreignSend flight hflow hping => exact hv
  | foreignNote note hflow hping => exact hv

namespace Host

theorem peerNodeId_step {h : Host} (env : Env) (event : HostEvent) (hknown : h.peerNodeId ≠ 0) :
    (h.step env event).peerNodeId = h.peerNodeId := by
  have hbegan : ((h.began env event).view 0).session.peerNodeId = h.peerNodeId := by
    cases event <;> rfl
  exact step_preserves (fun _ _ => peerNodeId_move hknown) hbegan

theorem peerNodeId_ioEvent {h : Host} (env : Env) (buf : Nat → Byte) (recvLen : Nat)
    (hknown : h.peerNodeId ≠ 0) : (h.ioEvent env buf recvLen).peerNodeId = h.peerNodeId := by
  unfold ioEvent
  split
  · rfl
  · exact peerNodeId_step env (.io _) hknown

theorem peerNodeId_goOnline (h : Host) : h.goOnline.peerNodeId = h.peerNodeId := by
  unfold goOnline
  split
  · rfl
  · dsimp only
    split
    · rfl
    · simp only [litedtModEvtime]
      split <;> rfl

theorem peerNodeId_of_comesOnline {env : Env} {h : Host} {buf : Nat → Byte} {recvLen : Nat}
    (honline : h.comesOnline env buf recvLen = true) :
    (h.ioEvent env buf recvLen).peerNodeId ≠ 0 := by
  unfold comesOnline at honline
  split at honline
  · rename_i rsp hdecode
    obtain ⟨-, haccepts⟩ : h.remoteOnline = false ∧
        (h.updateTime env).acceptsPingRsp env rsp = true := by simpa using honline
    have hnode : rsp.nodeId ≠ 0 := (of_decide_eq_true haccepts).2.2.1
    simp only [ioEvent, hdecode, litedtIoEvent, litedtOnPingRsp, if_pos haccepts,
      peerNodeId_goOnline]
    split
    · exact hnode
    · assumption
  · cases honline

end Host

/-! ### Ping requests -/

def plainService : Service where
  nodeId := 1
  maxIncomingPeers := 16
  transport := Config.globalConfigInit Config.plainToken
  inetPton := fun _ => none

def NodeEnv.plain (now : Time) : NodeEnv :=
  { Env.plain now with newPeer := true }

def guessedPing (nodeId : U16) : PingReq :=
  { nodeId := nodeId, pingId := 1, timestamp := 0, token := List.replicate 32 0 }

def guessedBytes (nodeId : U16) (i : Nat) : Byte :=
  (Packet.pingReq (guessedPing nodeId)).bytes.getD i 0

def guessedFrom (host : BitVec 32) (nodeId : U16) : NodeEvent :=
  .datagram (.inet host 5000) (guessedBytes nodeId) 54

theorem litedtIoDecode_pingReq {buf : Nat → Byte} {recvLen : Nat} {req : PingReq}
    (hdecode : litedtIoDecode buf recvLen = some (.pingReq req)) :
    ¬(recvLen < sizeofLitedtHeader ∨ u16At buf 0 ≠ litedtVersion) ∧
      ¬(buf 3 ≠ 0x10 ∨ recvLen < sizeofLitedtHeader + sizeofPingReq) ∧
        req = PingReq.ofBytes (fun i => buf (sizeofLitedtHeader + i)) := by
  unfold litedtIoDecode at hdecode
  split at hdecode
  · cases hdecode
  · rename_i hheader
    unfold litedtIoDispatch at hdecode
    split at hdecode
    case h_1 hcmd =>
      obtain ⟨hlen, hreq⟩ := ifReceived_eq_some.mp hdecode
      have hcmd' : buf 3 = 0x10 := BitVec.eq_of_toNat_eq hcmd
      have hreq' : PingReq.ofBytes (fun i => buf (sizeofLitedtHeader + i)) = req := by
        simpa using hreq
      refine ⟨hheader, ?_, hreq'.symm⟩
      rintro (hother | hshort)
      · exact hother hcmd'
      · exact absurd hlen (Nat.not_le.mpr hshort)
    all_goals simp [ifReceived_eq_some] at hdecode

theorem litedtIoDecode_of_pingReq {buf : Nat → Byte} {recvLen : Nat}
    (hheader : ¬(recvLen < sizeofLitedtHeader ∨ u16At buf 0 ≠ litedtVersion))
    (hping : ¬(buf 3 ≠ 0x10 ∨ recvLen < sizeofLitedtHeader + sizeofPingReq)) :
    litedtIoDecode buf recvLen =
      some (.pingReq (PingReq.ofBytes (fun i => buf (sizeofLitedtHeader + i)))) := by
  obtain ⟨hcmd, hlen⟩ := not_or.mp hping
  rw [litedtIoDecode, if_neg hheader, not_not.mp hcmd]
  exact ifReceived_of_le (Nat.not_lt.mp hlen) _

namespace Node

variable {env : NodeEnv} {n : Node} {ref : PeerRef} {peer : PeerInfo} {addr : SockAddr}
  {buf : Nat → Byte} {recvLen : Nat} {req : PingReq}

theorem litedtIoEvent_pingReq (hdecode : litedtIoDecode buf recvLen = some (.pingReq req))
    (hheap : n.heap ref = some peer) :
    n.litedtIoEvent env ref buf recvLen =
      some (n.setPeer ref { peer with dt := peer.dt.ioEvent env.toEnv buf recvLen }) := by
  simp [litedtIoEvent, hheap, Host.comesOnline, hdecode]

theorem heap_setPeer_self (n : Node) (ref : PeerRef) (peer : PeerInfo) :
    (n.setPeer ref peer).heap ref = some peer :=
  Function.update_self ..

theorem heap_setPeer_of_ne {other : PeerRef} (hother : other ≠ ref) (n : Node) (peer : PeerInfo) :
    (n.setPeer ref peer).heap other = n.heap other :=
  Function.update_of_ne hother ..

structure SameRouting (n n' : Node) : Prop where
  addrsTab : n'.addrsTab = n.addrsTab
  peersTab : n'.peersTab = n.peersTab
  peersInboundCnt : n'.peersInboundCnt = n.peersInboundCnt
  peers : ∀ ref peer, n.heap ref = some peer → ∃ peer', n'.heap ref = some peer' ∧
    peer'.remoteAddr = peer.remoteAddr ∧ peer'.boundAddrKey = peer.boundAddrKey

theorem SameRouting.refl (n : Node) : n.SameRouting n :=
  ⟨rfl, rfl, rfl, fun _ peer hheap => ⟨peer, hheap, rfl, rfl⟩⟩

theorem SameRouting.setDt (hheap : n.heap ref = some peer) (dt : Host) :
    n.SameRouting (n.setPeer ref { peer with dt := dt }) := by
  refine ⟨rfl, rfl, rfl, fun ref' peer' hheap' => ?_⟩
  by_cases href : ref' = ref
  · subst href
    obtain rfl : peer' = peer := Option.some.inj (hheap'.symm.trans hheap)
    exact ⟨_, heap_setPeer_self .., rfl, rfl⟩
  · exact ⟨peer', (heap_setPeer_of_ne href ..).trans hheap', rfl, rfl⟩

/-- The token does not belong to the node id, or the time of the request is too far away. -/
def Unauthenticated (env : NodeEnv) (n : Node) (req : PingReq) : Prop :=
  let cfg := n.service.transport
  let exp : Time := cfg.tokenExpire.toNat * usecPerSec
  req.token ≠ cfg.generateToken req.nodeId (Host.tokenData req.pingId req.timestamp) ∨
    cfg.tokenExpire ≠ 0 ∧
      (exp < req.timestamp - env.realtime ∨ exp < env.realtime - req.timestamp)

instance (env : NodeEnv) (n : Node) (req : PingReq) : Decidable (n.Unauthenticated env req) :=
  inferInstanceAs (Decidable (_ ∨ _ ∧ (_ ∨ _)))

/-- The address is not one of a socket, it belongs to a peer already, or it is new as its node id is
and `max_incoming_peers` has been reached. -/
def Settled (n : Node) (addr : SockAddr) (nodeId : U16) : Prop :=
  match getAddrKey addr with
  | none => True
  | some key =>
      match n.addrsTab.queueGet key with
      | some ref => (n.heap ref).isSome
      | none =>
          n.peersTab.queueGet nodeId = none ∧ n.service.maxIncomingPeers ≤ n.peersInboundCnt

theorem queueGet_peerStart {n' : Node} {key : AddrKey} (hkey : getAddrKey addr = some key)
    (hstart : n.peerStart ref addr = some n') : n'.addrsTab.queueGet key = some ref := by
  obtain ⟨peer, -, rfl⟩ := Option.map_eq_some_iff.mp hstart
  simp only [hkey, Option.getD_some, queueAppend, queueGet_append, queueGet_queueDel, if_true,
    Option.none_or, queueGet_cons]

theorem not_sameRouting_of_start {n₁ n₂ : Node} {key : AddrKey} (hkey : getAddrKey addr = some key)
    (hnew : n.addrsTab.queueGet key = none)
    (hdecode : litedtIoDecode buf recvLen = some (.pingReq req))
    (hstart : n₁.peerStart ref addr = some n₂) {n' : Node}
    (hevent : n₂.litedtIoEvent env ref buf recvLen = some n') : ¬n.SameRouting n' := by
  intro hsame
  obtain ⟨peer, hheap⟩ : ∃ peer, n₂.heap ref = some peer := by
    cases hheap : n₂.heap ref with
    | some peer => exact ⟨peer, rfl⟩
    | none => simp [litedtIoEvent, hheap] at hevent
  rw [litedtIoEvent_pingReq hdecode hheap, Option.some.injEq] at hevent
  have hget : n'.addrsTab.queueGet key = some ref := by
    subst hevent
    have hget := queueGet_peerStart hkey hstart
    exact hget
  rw [hsame.addrsTab, hnew] at hget
  cases hget

theorem sameRouting_tryAcceptPeer_iff {key : AddrKey} (hkey : getAddrKey addr = some key)
    (hnew : n.addrsTab.queueGet key = none)
    (hdecode : litedtIoDecode buf recvLen = some (.pingReq req)) :
    (∃ n', n.tryAcceptPeer env addr buf recvLen = some n' ∧ n.SameRouting n') ↔
      n.peersTab.queueGet req.nodeId = none ∧ n.service.maxIncomingPeers ≤ n.peersInboundCnt := by
  obtain ⟨-, hping, hreq⟩ := litedtIoDecode_pingReq hdecode
  rw [tryAcceptPeer, if_neg hping, ← hreq]
  dsimp only
  cases hknown : n.peersTab.queueGet req.nodeId with
  | some ref =>
      constructor
      · rintro ⟨n', haccept, hsame⟩
        obtain ⟨moved, hstart, hevent⟩ := Option.bind_eq_some_iff.mp haccept
        exact absurd hsame (not_sameRouting_of_start hkey hnew hdecode hstart hevent)
      · rintro ⟨hnone, -⟩
        cases hnone
  | none =>
      by_cases hfull : n.service.maxIncomingPeers ≤ n.peersInboundCnt
      · exact ⟨fun _ => ⟨rfl, hfull⟩, fun _ => ⟨n, if_pos hfull, .refl n⟩⟩
      · refine ⟨?_, fun hroom => absurd hroom.2 hfull⟩
        rintro ⟨n', haccept, hsame⟩
        simp only [if_neg hfull] at haccept
        split at haccept
        · obtain rfl := Option.some.inj haccept
          have hcount : n.peersInboundCnt + 1 = n.peersInboundCnt := hsame.peersInboundCnt
          bv_omega
        · obtain ⟨started, hstart, hevent⟩ := Option.bind_eq_some_iff.mp haccept
          exact absurd hsame (not_sameRouting_of_start hkey hnew hdecode hstart hevent)

/-- A ping request leaves the routing alone exactly if it is settled who receives it before the
checks of `litedt_on_ping_req`, whether it passes them or not. -/
theorem pingReq_sameRouting_iff (env : NodeEnv) (n : Node) (addr : SockAddr)
    (buf : Nat → Byte) (recvLen : Nat) (req : PingReq)
    (hdecode : litedtIoDecode buf recvLen = some (.pingReq req)) :
    (∃ n', n.litedtIoCb env addr buf recvLen = some n' ∧ n.SameRouting n') ↔
      n.Settled addr req.nodeId := by
  obtain ⟨hheader, -, -⟩ := litedtIoDecode_pingReq hdecode
  unfold litedtIoCb Settled
  cases hkey : getAddrKey addr with
  | none =>
      simp only [iff_true]
      exact ⟨n, rfl, .refl n⟩
  | some key =>
      simp only [if_neg hheader]
      cases hentry : n.addrsTab.queueGet key with
      | none => exact sameRouting_tryAcceptPeer_iff hkey hentry hdecode
      | some ref =>
          dsimp only
          cases hheap : n.heap ref with
          | none => simp [litedtIoEvent, hheap]
          | some peer =>
              refine ⟨fun _ => rfl, fun _ => ?_⟩
              exact ⟨_, litedtIoEvent_pingReq hdecode hheap, .setDt hheap _⟩

def remoteAddr (n : Node) (ref : PeerRef) : Option SockAddr :=
  (n.heap ref).map (fun peer => peer.remoteAddr)

/-- A guessed request from the address of a peer goes to that peer, whatever its node id. -/
theorem pingReq_sameRouting_bound :
    ∃ n n', (init plainService).run [(.plain 0, guessedFrom 1 7)] = some n ∧
      n.Unauthenticated (.plain 0) (guessedPing 8) ∧ n.remoteAddr 0 = some (.inet 1 5000) ∧
      n.litedtIoCb (.plain 0) (.inet 1 5000) (guessedBytes 8) 54 = some n' ∧ n.SameRouting n' := by
  have hrun : ((init plainService).run [(.plain 0, guessedFrom 1 7)]).map (fun n =>
      (decide (n.Unauthenticated (.plain 0) (guessedPing 8)), n.remoteAddr 0,
        ((getAddrKey (.inet 1 5000)).bind n.addrsTab.queueGet))) =
      some (true, some (.inet 1 5000), some 0) := by
    decide +kernel
  obtain ⟨n, hn, hvalues⟩ := Option.map_eq_some_iff.mp hrun
  simp only [Prod.mk.injEq, decide_eq_true_eq] at hvalues
  obtain ⟨hinvalid, hremote, hget⟩ := hvalues
  have hsettled : n.Settled (.inet 1 5000) 8 := by
    obtain ⟨peer, hheap, -⟩ := Option.map_eq_some_iff.mp hremote
    simp only [getAddrKey, Option.bind_some] at hget
    simp only [Settled, getAddrKey, hget, hheap, Option.isSome_some]
  obtain ⟨n', hn', hsame⟩ := (pingReq_sameRouting_iff (.plain 0) n (.inet 1 5000) (guessedBytes 8)
    54 (guessedPing 8) (by decide +kernel)).mpr hsettled
  exact ⟨n, n', hn, hinvalid, hremote, hn', hsame⟩

/-- A guessed request with the node id of a peer sends that peer's datagrams somewhere else. -/
theorem not_sameRouting_guessed :
    ∃ n n', (init plainService).run [(.plain 0, guessedFrom 1 7)] = some n ∧
      litedtIoDecode (guessedBytes 7) 54 = some (.pingReq (guessedPing 7)) ∧
      n.Unauthenticated (.plain 0) (guessedPing 7) ∧
      n.litedtIoCb (.plain 0) (.inet 2 5000) (guessedBytes 7) 54 = some n' ∧
      n.remoteAddr 0 = some (.inet 1 5000) ∧ n'.remoteAddr 0 = some (.inet 2 5000) ∧
      ¬n.SameRouting n' := by
  have hrun : ((init plainService).run [(.plain 0, guessedFrom 1 7)]).bind (fun n =>
      (n.litedtIoCb (.plain 0) (.inet 2 5000) (guessedBytes 7) 54).map (fun n' =>
        (decide (n.Unauthenticated (.plain 0) (guessedPing 7)), n.remoteAddr 0, n'.remoteAddr 0))) =
      some (true, some (.inet 1 5000), some (.inet 2 5000)) := by
    decide +kernel
  obtain ⟨n, hn, hevent⟩ := Option.bind_eq_some_iff.mp hrun
  obtain ⟨n', hn', hvalues⟩ := Option.map_eq_some_iff.mp hevent
  simp only [Prod.mk.injEq, decide_eq_true_eq] at hvalues
  obtain ⟨hinvalid, hbefore, hafter⟩ := hvalues
  refine ⟨n, n', hn, by decide +kernel, hinvalid, hn', hbefore, hafter, fun hsame => ?_⟩
  obtain ⟨peer, hheap, hremote⟩ := Option.map_eq_some_iff.mp hbefore
  obtain ⟨peer', hheap', hremote', -⟩ := hsame.peers 0 peer hheap
  rw [Node.remoteAddr, hheap', Option.map_some, hremote', hremote] at hafter
  exact absurd hafter (by decide)

/-! ### No dangling peers -/

def NoDangling (n : Node) : Prop :=
  (∀ entry ∈ n.addrsTab, (n.heap entry.2).isSome) ∧
    (∀ entry ∈ n.peersTab, (n.heap entry.2).isSome) ∧
      (∀ entry ∈ n.peersOutbound, (n.heap entry.2).isSome)

instance (n : Node) : Decidable n.NoDangling :=
  inferInstanceAs (Decidable (_ ∧ _ ∧ _))

/-- A peer is only found under its address and under its id, which is not 0, and only outbound peers
have a name or a DNS query. -/
structure Sound (n : Node) : Prop where
  addrs : Refers n.heap n.addrsTab (fun key peer => peer.boundAddrKey = key ∧ key.family ≠ .unspec)
  ids : Refers n.heap n.peersTab (fun id peer => peer.peerId = id ∧ id ≠ 0)
  names : Refers n.heap n.peersOutbound (fun _ peer => peer.isOutbound = true)
  queries : Refers n.heap (n.dnsQueries.map (Prod.mk ())) (fun _ peer => peer.isOutbound = true)
  met : ∀ ref peer, n.heap ref = some peer → peer.isOutbound = true →
    peer.peerId = 0 ∨ peer.peerId = peer.dt.peerNodeId
  fresh : ∀ ref, n.created ≤ ref → n.heap ref = none

theorem Sound.noDangling (hsound : n.Sound) : n.NoDangling := by
  exact ⟨fun _ => hsound.addrs.isSome, fun _ => hsound.ids.isSome, fun _ => hsound.names.isSome⟩

theorem sound_init (service : Service) : (init service).Sound where
  addrs := .nil
  ids := .nil
  names := .nil
  queries := .nil
  met := by
    intro ref peer hheap
    cases hheap
  fresh := fun _ _ => rfl

theorem Sound.ref_lt (hsound : n.Sound) (hheap : n.heap ref = some peer) : ref < n.created := by
  by_contra hle
  rw [hsound.fresh ref (Nat.le_of_not_lt hle)] at hheap
  cases hheap

theorem Sound.of_update {n' : Node} {peer' : PeerInfo} (hsound : n.Sound)
    (hheap : n.heap ref = some peer) (hheap' : n'.heap = Function.update n.heap ref (some peer'))
    (hcreated : n'.created = n.created)
    (haddrs : Refers n'.heap n'.addrsTab
      (fun key peer => peer.boundAddrKey = key ∧ key.family ≠ .unspec))
    (hids : Refers n'.heap n'.peersTab (fun id peer => peer.peerId = id ∧ id ≠ 0))
    (hnames : n'.peersOutbound = n.peersOutbound) (hqueries : n'.dnsQueries = n.dnsQueries)
    (hout : peer'.isOutbound = peer.isOutbound)
    (hmet : peer'.isOutbound = true → peer'.peerId = 0 ∨ peer'.peerId = peer'.dt.peerNodeId) :
    n'.Sound where
  addrs := haddrs
  ids := hids
  names := by
    rw [hheap', hnames]
    exact hsound.names.write hheap (fun _ _ hkey => hout.trans hkey)
  queries := by
    rw [hheap', hqueries]
    exact hsound.queries.write hheap (fun _ _ hkey => hout.trans hkey)
  met := by
    intro other found hfound hfoundOut
    rw [hheap'] at hfound
    by_cases hother : other = ref
    · obtain rfl : peer' = found := by simpa [hother] using hfound
      exact hmet hfoundOut
    · exact hsound.met other found (by simpa [hother] using hfound) hfoundOut
  fresh := by
    intro other hother
    rw [hcreated] at hother
    have hne : other ≠ ref := Nat.ne_of_gt (Nat.lt_of_lt_of_le (hsound.ref_lt hheap) hother)
    simpa [hheap', hne] using hsound.fresh other hother

theorem Sound.setPeer {peer' : PeerInfo} (hsound : n.Sound) (hheap : n.heap ref = some peer)
    (haddr : peer'.boundAddrKey = peer.boundAddrKey) (hid : peer'.peerId = peer.peerId)
    (hout : peer'.isOutbound = peer.isOutbound)
    (hmet : peer'.isOutbound = true → peer'.peerId = 0 ∨ peer'.peerId = peer'.dt.peerNodeId) :
    (n.setPeer ref peer').Sound :=
  hsound.of_update hheap rfl rfl (hsound.addrs.write hheap (fun _ _ hkey => haddr ▸ hkey))
    (hsound.ids.write hheap (fun _ _ hkey => hid ▸ hkey)) rfl rfl hout hmet

theorem Sound.not_mem_unbind (hsound : n.Sound) (hheap : n.heap ref = some peer) (key : AddrKey) :
    (key, ref) ∉ n.unbind peer := by
  unfold unbind
  split
  · exact hsound.addrs.not_mem_filter hheap (fun _ hkey => hkey.1.symm) key
  · rename_i hunspec
    intro hmem
    obtain ⟨hkey, hspec⟩ := hsound.addrs.rel_of_mem hheap hmem
    exact hunspec (hkey ▸ hspec)

theorem unbind_subset (n : Node) (peer : PeerInfo) : n.unbind peer ⊆ n.addrsTab := by
  unfold unbind
  split
  · exact queueDel_subset ..
  · exact fun _ hmem => hmem

theorem getAddrKey_family {key : AddrKey} (hkey : getAddrKey addr = some key) :
    key.family ≠ .unspec := by
  cases addr with
  | unspec => cases hkey
  | inet address port =>
      obtain rfl := Option.some.inj hkey
      simp
  | inet6 address port =>
      simp only [getAddrKey] at hkey
      split at hkey
      all_goals
        obtain rfl := Option.some.inj hkey
        simp

theorem Sound.peerStart {key : AddrKey} (hsound : n.Sound) (hheap : n.heap ref = some peer)
    (hkey : getAddrKey addr = some key) : ∃ n', n.peerStart ref addr = some n' ∧ n'.Sound ∧
      (n'.heap ref).isSome := by
  have hstart : n.peerStart ref addr =
      some { n.setPeer ref { peer with boundAddrKey := key, remoteAddr := addr } with
        addrsTab := ((n.unbind peer).queueDel key).queueAppend key ref } := by
    simp only [Node.peerStart, hheap, Option.map_some, hkey, Option.getD_some]
  have hself : (n.setPeer ref { peer with boundAddrKey := key, remoteAddr := addr }).heap ref =
      some { peer with boundAddrKey := key, remoteAddr := addr } := Function.update_self ..
  refine ⟨_, hstart, ?_, by simp [hself]⟩
  have hunbound : Refers n.heap ((n.unbind peer).queueDel key)
      (fun key peer => peer.boundAddrKey = key ∧ key.family ≠ .unspec) :=
    hsound.addrs.subset (List.Subset.trans (queueDel_subset ..) (unbind_subset ..))
  refine hsound.of_update hheap rfl rfl ?_ (hsound.ids.write hheap (fun _ _ hid => hid)) rfl rfl rfl
    (hsound.met ref peer hheap)
  refine (hunbound.write hheap fun other hmem _ => ?_).append hself ⟨rfl, getAddrKey_family hkey⟩
  exact absurd (queueDel_subset _ _ hmem) (hsound.not_mem_unbind hheap other)

/-- `release_peer` may be called: an outbound peer has the name that it prints, and no DNS query. -/
def Disposable (n : Node) (ref : PeerRef) : Prop :=
  ∀ peer, n.heap ref = some peer → peer.isOutbound = true →
    (∀ key, (key, ref) ∈ n.peersOutbound → key = printAddressPort peer.address peer.port) ∧
      ref ∉ n.dnsQueries

theorem Disposable.setPeer {other : PeerRef} (hdisposable : n.Disposable other)
    (hother : other ≠ ref) (peer : PeerInfo) : (n.setPeer ref peer).Disposable other := by
  intro found hfound hout
  rw [heap_setPeer_of_ne hother] at hfound
  exact hdisposable found hfound hout

theorem Sound.releasePeer (hsound : n.Sound) (hheap : n.heap ref = some peer)
    (hdisposable : n.Disposable ref) : ∃ n', n.releasePeer ref = some n' ∧ n'.Sound ∧
      n'.heap = Function.update n.heap ref none := by
  refine ⟨_, by rw [Node.releasePeer, hheap, Option.map_some], ?_, rfl⟩
  refine
    { addrs := (hsound.addrs.subset (unbind_subset n peer)).free (hsound.not_mem_unbind hheap)
      ids := ?_
      names := ?_
      queries := ?_
      met := ?_
      fresh := ?_ }
  · by_cases hid : peer.peerId = 0
    · simp only [hid, ne_eq, not_true_eq_false, if_false]
      refine hsound.ids.free fun id hmem => ?_
      obtain ⟨hkey, hne⟩ := hsound.ids.rel_of_mem hheap hmem
      exact hne (hkey.symm.trans hid)
    · simp only [ne_eq, hid, not_false_eq_true, if_true]
      exact (hsound.ids.subset (queueDel_subset ..)).free
        (hsound.ids.not_mem_filter hheap fun id hkey => hkey.1.symm)
  · by_cases hout : peer.isOutbound
    · simp only [hout, if_true]
      refine (hsound.names.subset (queueDel_subset ..)).free fun key hmem => ?_
      obtain ⟨hmem, hne⟩ := List.mem_filter.mp hmem
      exact of_decide_eq_true hne ((hdisposable peer hheap hout).1 key hmem)
    · simp only [hout]
      exact hsound.names.free fun key hmem => hout (hsound.names.rel_of_mem hheap hmem)
  · refine hsound.queries.free fun key hmem => ?_
    have hout := hsound.queries.rel_of_mem hheap hmem
    exact (hdisposable peer hheap hout).2 (by simpa using hmem)
  · intro other found hfound hout
    have hne : other ≠ ref := by
      rintro rfl
      simp at hfound
    exact hsound.met other found (by simpa [hne] using hfound) hout
  · intro other hother
    have hne : other ≠ ref := Nat.ne_of_gt (Nat.lt_of_lt_of_le (hsound.ref_lt hheap) hother)
    simpa [hne] using hsound.fresh other hother

theorem exists_getAddrKey (ip : IpAddr) (port : U16) :
    ∃ key, getAddrKey (ip.sockAddr port) = some key := by
  cases ip with
  | v4 address => exact ⟨_, rfl⟩
  | v6 address =>
      simp only [IpAddr.sockAddr, getAddrKey]
      split
      · exact ⟨_, rfl⟩
      · exact ⟨_, rfl⟩

theorem Sound.resolveOutboundPeer (hsound : n.Sound) (hheap : n.heap ref = some peer)
    (hout : peer.isOutbound = true) : ∃ n', n.resolveOutboundPeer ref = some n' ∧ n'.Sound := by
  simp only [Node.resolveOutboundPeer, hheap, Option.bind_eq_bind, Option.bind_some]
  cases hip : n.service.inetPton peer.address with
  | some ip =>
      obtain ⟨key, hkey⟩ := exists_getAddrKey ip peer.port
      obtain ⟨n', hstart, hsound', -⟩ := hsound.peerStart hheap hkey
      exact ⟨n', hstart, hsound'⟩
  | none =>
      refine ⟨_, rfl, { hsound with queries := ?_ }⟩
      simp only [List.map_append, List.map_cons, List.map_nil]
      exact hsound.queries.append hheap hout

theorem Sound.onOffline (hsound : n.Sound) (hheap : n.heap ref = some peer) :
    ∃ n', n.onOffline ref peer = some n' ∧ n'.Sound := by
  unfold Node.onOffline
  by_cases hout : peer.isOutbound = true
  · rw [if_pos hout]
    by_cases hid : peer.peerId = 0
    · rw [if_neg (not_not.mpr hid)]
      exact hsound.resolveOutboundPeer hheap hout
    · rw [if_pos hid]
      refine Sound.resolveOutboundPeer ?_ (Function.update_self ..) hout
      -- Without the entry under its id, the peer is found under no id.
      refine hsound.of_update hheap rfl rfl (hsound.addrs.write hheap fun _ _ hkey => hkey)
        ((hsound.ids.subset (queueDel_subset ..)).write hheap fun id hmem _ => ?_) rfl rfl rfl
        (fun _ => .inl rfl)
      exact absurd hmem (hsound.ids.not_mem_filter hheap (fun _ hkey => hkey.1.symm) id)
  · rw [if_neg hout]
    obtain ⟨n', hrelease, hsound', -⟩ := hsound.releasePeer hheap
      fun found hfound hfoundOut => absurd (Option.some.inj (hheap.symm.trans hfound) ▸ hfoundOut) hout
    exact ⟨n', hrelease, hsound'⟩

theorem Sound.rebind (hsound : n.Sound) (hheap : n.heap ref = some peer) : (n.rebind ref peer).Sound := by
  unfold Node.rebind
  split
  · rename_i hspec
    exact { hsound with
      addrs := (hsound.addrs.subset (queueDel_subset ..)).append hheap ⟨rfl, hspec⟩ }
  · exact hsound

theorem heap_rebind (n : Node) (ref : PeerRef) (peer : PeerInfo) :
    (n.rebind ref peer).heap = n.heap := by
  unfold Node.rebind
  split <;> rfl

theorem Sound.onOnline (hsound : n.Sound) (hheap : n.heap ref = some peer)
    (hid : peer.dt.peerNodeId ≠ 0)
    (hold : ∀ old, n.conflict ref peer.dt.peerNodeId = some old → n.Disposable old) :
    ∃ n', n.onOnline ref peer = some n' ∧ n'.Sound := by
  unfold Node.onOnline
  by_cases hout : peer.isOutbound = true
  · rw [if_pos hout]
    dsimp only
    set named := n.setPeer ref { peer with peerId := peer.dt.peerNodeId }
    have hself : named.heap ref = some { peer with peerId := peer.dt.peerNodeId } :=
      heap_setPeer_self ..
    have hnamedSound : named.Sound := by
      refine hsound.of_update hheap rfl rfl (hsound.addrs.write hheap fun _ _ hkey => hkey)
        (hsound.ids.write hheap fun id _ hkey => ⟨?_, hkey.2⟩) rfl rfl rfl (fun _ => .inr rfl)
      rcases hsound.met ref peer hheap hout with hzero | hmet
      · exact absurd (hkey.1.symm.trans hzero) hkey.2
      · exact hmet.symm.trans hkey.1
    -- The entry of the peer under its id, once nothing else stands there.
    have happend : ∀ cleared : Node, cleared.Sound →
        cleared.heap ref = some { peer with peerId := peer.dt.peerNodeId } →
        { cleared with
          peersTab := cleared.peersTab.queueAppend peer.dt.peerNodeId ref }.Sound :=
      fun cleared hcleared hfound =>
        { hcleared with ids := hcleared.ids.append hfound ⟨rfl, hid⟩ }
    unfold overwriteConflict
    cases hconflict : named.conflict ref peer.dt.peerNodeId with
    | none => exact ⟨_, rfl, happend named hnamedSound hself⟩
    | some old =>
        obtain ⟨hget, hne⟩ := Option.filter_eq_some_iff.mp hconflict
        have hne : old ≠ ref := of_decide_eq_true hne
        obtain ⟨oldPeer, holdHeap, -⟩ := hnamedSound.ids _ _ (mem_of_queueGet hget)
        obtain ⟨released, hrelease, hreleased, hheapReleased⟩ :=
          hnamedSound.releasePeer holdHeap ((hold old hconflict).setPeer hne _)
        have hstill : released.heap ref = some { peer with peerId := peer.dt.peerNodeId } := by
          rw [hheapReleased, Function.update_of_ne (Ne.symm hne), hself]
        simp only [hrelease, Option.map_some]
        exact ⟨_, rfl, happend _ (hreleased.rebind hstill) (by rw [heap_rebind, hstill])⟩
  · rw [if_neg hout]
    exact ⟨n, rfl, hsound⟩

theorem Sound.setDt {dt : Host} (hsound : n.Sound) (hheap : n.heap ref = some peer)
    (hdt : peer.dt.peerNodeId ≠ 0 → dt.peerNodeId = peer.dt.peerNodeId) :
    (n.setPeer ref { peer with dt := dt }).Sound := by
  refine hsound.setPeer hheap rfl rfl rfl fun hout => ?_
  by_cases hid : peer.peerId = 0
  · exact .inl hid
  · rcases hsound.met ref peer hheap hout with hzero | hmet
    · exact absurd hzero hid
    · exact .inr (hmet.trans (hdt (hmet ▸ hid)).symm)

def replaced (env : NodeEnv) (n : Node) (ref : PeerRef) (buf : Nat → Byte) (recvLen : Nat) :
    Option PeerRef :=
  match n.heap ref with
  | none => none
  | some peer =>
      if peer.isOutbound ∧ peer.dt.comesOnline env.toEnv buf recvLen then
        n.conflict ref (peer.dt.ioEvent env.toEnv buf recvLen).peerNodeId
      else
        none

theorem Sound.litedtIoEvent (hsound : n.Sound) (hheap : (n.heap ref).isSome)
    (hold : ∀ old, n.replaced env ref buf recvLen = some old → n.Disposable old) :
    ∃ n', n.litedtIoEvent env ref buf recvLen = some n' ∧ n'.Sound := by
  obtain ⟨peer, hheap⟩ := Option.isSome_iff_exists.mp hheap
  have hreceived : (n.setPeer ref
      { peer with dt := peer.dt.ioEvent env.toEnv buf recvLen }).Sound :=
    hsound.setDt hheap (Host.peerNodeId_ioEvent env.toEnv buf recvLen)
  simp only [Node.litedtIoEvent, hheap, Option.bind_eq_bind, Option.bind_some]
  by_cases honline : peer.dt.comesOnline env.toEnv buf recvLen = true
  · rw [if_pos honline, liteflowOnOnline, heap_setPeer_self]
    by_cases hout : peer.isOutbound = true
    · refine hreceived.onOnline (heap_setPeer_self ..) (Host.peerNodeId_of_comesOnline honline) ?_
      intro old hconflict
      have hne : old ≠ ref := of_decide_eq_true (Option.filter_eq_some_iff.mp hconflict).2
      refine (hold old ?_).setPeer hne _
      simp only [replaced, hheap, hout, honline, and_self, if_true]
      exact hconflict
    · exact ⟨_, if_neg hout, hreceived⟩
  · rw [if_neg honline]
    exact ⟨_, rfl, hreceived⟩

theorem newPeer_eq_some {isOutbound : Bool} {peerId : U16} {address : List Char} {port : U16}
    {n' : Node} (hnew : n.newPeer env isOutbound peerId address port = some (ref, n')) :
    ref = n.created ∧ ∃ dt, n' =
      { n.setPeer n.created ⟨peerId, isOutbound, dt, address, port, .unspec, .zero⟩ with
        created := n.created + 1 } := by
  unfold newPeer at hnew
  split at hnew
  · obtain ⟨rfl, rfl⟩ := Prod.mk.inj (Option.some.inj hnew)
    exact ⟨rfl, _, rfl⟩
  · cases hnew

theorem Sound.newPeer {isOutbound : Bool} {peerId : U16} {address : List Char} {port : U16}
    {n' : Node} (hsound : n.Sound) (hid : isOutbound = true → peerId = 0)
    (hnew : n.newPeer env isOutbound peerId address port = some (ref, n')) :
    n'.Sound ∧ ∃ peer, n'.heap ref = some peer ∧ peer.isOutbound = isOutbound ∧
      peer.peerId = peerId := by
  obtain ⟨rfl, dt, rfl⟩ := newPeer_eq_some hnew
  have hfresh : n.heap n.created = none := hsound.fresh _ (Nat.le_refl _)
  refine ⟨?_, _, heap_setPeer_self .., rfl, rfl⟩
  refine
    { addrs := hsound.addrs.allocate hfresh
      ids := hsound.ids.allocate hfresh
      names := hsound.names.allocate hfresh
      queries := hsound.queries.allocate hfresh
      met := ?_
      fresh := ?_ }
  · intro other found hfound hout
    by_cases hother : other = n.created
    · subst hother
      obtain rfl := Option.some.inj ((heap_setPeer_self ..).symm.trans hfound)
      exact .inl (hid hout)
    · exact hsound.met other found ((heap_setPeer_of_ne hother ..).symm.trans hfound) hout
  · intro other hother
    have hother : n.created < other := hother
    exact (heap_setPeer_of_ne (Nat.ne_of_gt hother) ..).trans (hsound.fresh other hother.le)

theorem replaced_pingReq (hdecode : litedtIoDecode buf recvLen = some (.pingReq req)) :
    n.replaced env ref buf recvLen = none := by
  unfold replaced
  split
  · rfl
  · simp [Host.comesOnline, hdecode]

theorem Sound.startAndReceive {key : AddrKey} (hsound : n.Sound) (hheap : n.heap ref = some peer)
    (hkey : getAddrKey addr = some key)
    (hdecode : litedtIoDecode buf recvLen = some (.pingReq req)) :
    ∃ n', (n.peerStart ref addr).bind (fun started => started.litedtIoEvent env ref buf recvLen) =
      some n' ∧ n'.Sound := by
  obtain ⟨started, hstart, hstarted, hlive⟩ := hsound.peerStart hheap hkey
  rw [hstart, Option.bind_some]
  exact hstarted.litedtIoEvent hlive fun old hold => by simp [replaced_pingReq hdecode] at hold

theorem Sound.tryAcceptPeer {key : AddrKey} (hsound : n.Sound) (hkey : getAddrKey addr = some key)
    (hheader : ¬(recvLen < sizeofLitedtHeader ∨ u16At buf 0 ≠ litedtVersion))
    (hid : ∀ req, litedtIoDecode buf recvLen = some (.pingReq req) → req.nodeId ≠ 0) :
    ∃ n', n.tryAcceptPeer env addr buf recvLen = some n' ∧ n'.Sound := by
  unfold Node.tryAcceptPeer
  split
  · exact ⟨n, rfl, hsound⟩
  · rename_i hping
    have hdecode := litedtIoDecode_of_pingReq hheader hping
    dsimp only
    split
    · rename_i known hget
      obtain ⟨peer, hheap, -⟩ := hsound.ids _ _ (mem_of_queueGet hget)
      exact hsound.startAndReceive hheap hkey hdecode
    · split
      · exact ⟨n, rfl, hsound⟩
      · have hcounted : { n with peersInboundCnt := n.peersInboundCnt + 1 }.Sound :=
          { hsound with }
        split
        · exact ⟨_, rfl, hcounted⟩
        · rename_i allocated hnew
          obtain ⟨hallocated, peer, hheap, -, hpeerId⟩ := hcounted.newPeer (by simp) hnew
          have hnamed : { allocated with
              peersTab := allocated.peersTab.queueAppend _ _ }.Sound :=
            { hallocated with ids := hallocated.ids.append hheap ⟨hpeerId, hid _ hdecode⟩ }
          exact hnamed.startAndReceive hheap hkey hdecode

/-- No ping request has the node id 0, and a peer that loses its id to an outbound peer can be
released. -/
def Admissible (env : NodeEnv) (n : Node) : NodeEvent → Prop
  | .datagram addr buf recvLen =>
      (∀ req, litedtIoDecode buf recvLen = some (.pingReq req) → req.nodeId ≠ 0) ∧
        ∀ key ref old, getAddrKey addr = some key → n.addrsTab.queueGet key = some ref →
          n.replaced env ref buf recvLen = some old → n.Disposable old
  | _ => True

theorem Sound.litedtIoCb (hsound : n.Sound)
    (hadmissible : n.Admissible env (.datagram addr buf recvLen)) :
    ∃ n', n.litedtIoCb env addr buf recvLen = some n' ∧ n'.Sound := by
  obtain ⟨hid, hold⟩ := hadmissible
  unfold Node.litedtIoCb
  cases hkey : getAddrKey addr with
  | none => exact ⟨n, rfl, hsound⟩
  | some key =>
      dsimp only
      split
      · exact ⟨n, rfl, hsound⟩
      · rename_i hheader
        cases hget : n.addrsTab.queueGet key with
        | none => exact hsound.tryAcceptPeer hkey hheader hid
        | some ref =>
            obtain ⟨peer, hheap, -⟩ := hsound.addrs _ _ (mem_of_queueGet hget)
            exact hsound.litedtIoEvent (by simp [hheap])
              fun old hreplaced => hold key ref old hkey hget hreplaced

theorem Sound.newPeerOutbound (hsound : n.Sound) (addressPort : List Char) :
    ∃ n', n.newPeerOutbound env addressPort = some n' ∧ n'.Sound := by
  unfold Node.newPeerOutbound
  dsimp only
  split
  · exact ⟨n, rfl, hsound⟩
  · split
    · exact ⟨n, rfl, hsound⟩
    · rename_i ref allocated hnew
      obtain ⟨hallocated, peer, hheap, hout, -⟩ := hsound.newPeer (fun _ => rfl) hnew
      have hnamed : ∀ key, { allocated with
          peersOutbound := allocated.peersOutbound.queueAppend key ref }.Sound :=
        fun key => { hallocated with names := hallocated.names.append hheap hout }
      exact (hnamed _).resolveOutboundPeer hheap hout

theorem Sound.litedtTimeoutCb (hsound : n.Sound) (ref : PeerRef) (fuel : Nat) :
    ∃ n', n.litedtTimeoutCb env ref fuel = some n' ∧ n'.Sound := by
  unfold Node.litedtTimeoutCb
  cases hheap : n.heap ref with
  | none => exact ⟨n, rfl, hsound⟩
  | some peer =>
      have hserved : (n.setPeer ref
          { peer with dt := peer.dt.litedtTimeEvent env.toEnv fuel }).Sound :=
        hsound.setDt hheap (Host.peerNodeId_step env.toEnv (.time fuel))
      dsimp only
      split
      · rw [liteflowOnOnline, heap_setPeer_self]
        exact hserved.onOffline (heap_setPeer_self ..)
      · exact ⟨_, rfl, hserved⟩

theorem Sound.dnsQueryCb (hsound : n.Sound) (ref : PeerRef) (answer : Option IpAddr) :
    ∃ n', n.dnsQueryCb ref answer = some n' ∧ n'.Sound := by
  unfold Node.dnsQueryCb
  split
  · rename_i hquery
    obtain ⟨peer, hheap, -⟩ := hsound.queries () ref (by simpa using hquery)
    have hanswered : { n with dnsQueries := n.dnsQueries.erase ref }.Sound :=
      { hsound with
        queries := hsound.queries.subset (List.map_subset _ (List.erase_subset ..)) }
    simp only [hheap, Option.bind_eq_bind, Option.bind_some]
    cases answer with
    | none => exact ⟨_, rfl, hanswered⟩
    | some ip =>
        obtain ⟨key, hkey⟩ := exists_getAddrKey ip peer.port
        obtain ⟨n', hstart, hsound', -⟩ := hanswered.peerStart hheap hkey
        exact ⟨n', hstart, hsound'⟩
  · exact ⟨n, rfl, hsound⟩

theorem Sound.dnsFailedCb (hsound : n.Sound) (ref : PeerRef) :
    ∃ n', n.dnsFailedCb ref = some n' ∧ n'.Sound := by
  unfold Node.dnsFailedCb
  cases hheap : n.heap ref with
  | none => exact ⟨n, rfl, hsound⟩
  | some peer =>
      simp only [liteflowOnOnline, hheap, Option.bind_eq_bind, Option.bind_some]
      exact hsound.onOffline hheap

theorem Sound.flowCall (hsound : n.Sound) (ref : PeerRef) (call : Call) :
    ∃ n', n.flowCall env ref call = some n' ∧ n'.Sound := by
  unfold Node.flowCall
  cases hheap : n.heap ref with
  | none => exact ⟨n, rfl, hsound⟩
  | some peer => exact ⟨_, rfl, hsound.setDt hheap (Host.peerNodeId_step env.toEnv (.call call))⟩

theorem Sound.step {event : NodeEvent} (hsound : n.Sound) (hadmissible : n.Admissible env event) :
    ∃ n', n.step env event = some n' ∧ n'.Sound := by
  cases event with
  | connectPeer addressPort => exact hsound.newPeerOutbound addressPort
  | datagram addr buf recvLen => exact hsound.litedtIoCb hadmissible
  | timeout ref fuel => exact hsound.litedtTimeoutCb ref fuel
  | dnsQuery ref answer => exact hsound.dnsQueryCb ref answer
  | dnsFailed ref => exact hsound.dnsFailedCb ref
  | flowCall ref call => exact hsound.flowCall ref call

def AdmissibleRun : Node → List (NodeEnv × NodeEvent) → Prop
  | _, [] => True
  | n, e :: rest =>
      n.Admissible e.1 e.2 ∧ ∀ n', n.step e.1 e.2 = some n' → AdmissibleRun n' rest

theorem run_cons {n' : Node} {e : NodeEnv × NodeEvent} {rest : List (NodeEnv × NodeEvent)}
    (hstep : n.step e.1 e.2 = some n') : n.run (e :: rest) = n'.run rest := by
  rw [run, List.foldlM_cons, hstep]
  rfl

theorem Sound.run {events : List (NodeEnv × NodeEvent)} (hsound : n.Sound)
    (hrun : n.AdmissibleRun events) : ∃ n', n.run events = some n' ∧ n'.Sound := by
  induction events generalizing n with
  | nil => exact ⟨n, rfl, hsound⟩
  | cons e rest ih =>
      obtain ⟨hadmissible, hrest⟩ := hrun
      obtain ⟨n', hstep, hsound'⟩ := hsound.step hadmissible
      obtain ⟨n'', hrun', hsound''⟩ := ih hsound' (hrest n' hstep)
      exact ⟨n'', (run_cons hstep).trans hrun', hsound''⟩

/-- No pointer in the tables dangles, and none to a released peer is used, in any run whose events
are all admissible. -/
theorem noDangling_run (service : Service) (events : List (NodeEnv × NodeEvent))
    (hrun : (init service).AdmissibleRun events) :
    ∃ n, (init service).run events = some n ∧ n.NoDangling := by
  obtain ⟨n, hrun', hsound⟩ := (sound_init service).run hrun
  exact ⟨n, hrun', hsound.noDangling⟩

theorem noDangling_run_inbound :
    ∃ n, (init plainService).run
        [(.plain 0, guessedFrom 1 7), (.plain 200000000, .timeout 0 1)] = some n ∧ n.NoDangling := by
  refine noDangling_run plainService _ ⟨⟨?_, ?_⟩, fun _ _ => ⟨trivial, fun _ _ => trivial⟩⟩
  · intro req hdecode
    have hguessed : litedtIoDecode (guessedBytes 7) 54 = some (.pingReq (guessedPing 7)) := by
      decide +kernel
    obtain rfl : guessedPing 7 = req :=
      Packet.pingReq.inj (Option.some.inj (hguessed.symm.trans hdecode))
    decide
  · intro key ref old _ hget
    cases hget

/-- With the node id 0 its entry in `peers_tab` stays behind. -/
theorem not_noDangling_nodeIdZero :
    ∃ n, (init plainService).run
        [(.plain 0, guessedFrom 1 0), (.plain 200000000, .timeout 0 1)] = some n ∧
      ¬n.NoDangling := by
  have hrun : ((init plainService).run
      [(.plain 0, guessedFrom 1 0), (.plain 200000000, .timeout 0 1)]).map
        (fun n => decide n.NoDangling) = some false := by
    decide +kernel
  obtain ⟨n, hn, hdangling⟩ := Option.map_eq_some_iff.mp hrun
  exact ⟨n, hn, of_decide_eq_false hdangling⟩

/-! ### Addresses and their owners -/

def Owned (n : Node) : Prop :=
  ∀ ref peer, n.heap ref = some peer → peer.boundAddrKey.family ≠ .unspec →
    n.addrsTab.queueGet peer.boundAddrKey = some ref

def Free (n : Node) (ref : PeerRef) (addr : SockAddr) : Prop :=
  ∀ other peer, other ≠ ref → n.heap other = some peer → getAddrKey addr ≠ some peer.boundAddrKey

theorem Owned.injective {other : PeerRef} {peer' : PeerInfo} (howned : n.Owned)
    (hheap : n.heap ref = some peer) (hheap' : n.heap other = some peer')
    (hbound : peer.boundAddrKey.family ≠ .unspec) (hsame : peer'.boundAddrKey = peer.boundAddrKey) :
    other = ref := by
  have hother := howned other peer' hheap' (hsame ▸ hbound)
  rw [hsame, howned ref peer hheap hbound] at hother
  exact (Option.some.inj hother).symm

theorem owned_init (service : Service) : (init service).Owned := by
  intro ref peer hheap
  cases hheap

theorem Owned.free_of_get_none {key : AddrKey} (howned : n.Owned)
    (hkey : getAddrKey addr = some key) (hget : n.addrsTab.queueGet key = none) (ref : PeerRef) :
    n.Free ref addr := by
  intro other peer _ hheap hbound
  obtain rfl : key = peer.boundAddrKey := Option.some.inj (hkey.symm.trans hbound)
  rw [howned other peer hheap (getAddrKey_family hkey)] at hget
  cases hget

theorem Owned.of_update {n' : Node} {peer' : PeerInfo} (howned : n.Owned)
    (hheap' : n'.heap = Function.update n.heap ref (some peer'))
    (haddrs : n'.addrsTab = n.addrsTab)
    (hbound : peer'.boundAddrKey.family ≠ .unspec →
      ∃ peer, n.heap ref = some peer ∧ peer.boundAddrKey = peer'.boundAddrKey) : n'.Owned := by
  intro other found hfound hspec
  rw [hheap'] at hfound
  rw [haddrs]
  by_cases hother : other = ref
  · subst hother
    obtain rfl : peer' = found := by simpa using hfound
    obtain ⟨peer, hheap, hsame⟩ := hbound hspec
    rw [← hsame]
    exact howned other peer hheap (hsame ▸ hspec)
  · exact howned other found (by simpa [hother] using hfound) hspec

theorem Owned.setPeer {peer' : PeerInfo} (howned : n.Owned) (hheap : n.heap ref = some peer)
    (hbound : peer'.boundAddrKey = peer.boundAddrKey) : (n.setPeer ref peer').Owned :=
  howned.of_update rfl rfl fun _ => ⟨peer, hheap, hbound.symm⟩

theorem Owned.queueGet_unbind {other : PeerRef} {found : PeerInfo} (howned : n.Owned)
    (hheap : n.heap ref = some peer) (hother : other ≠ ref) (hfound : n.heap other = some found)
    (hspec : found.boundAddrKey.family ≠ .unspec) :
    (n.unbind peer).queueGet found.boundAddrKey = some other := by
  unfold unbind
  split
  · rename_i hbound
    rw [queueGet_queueDel, if_neg]
    · exact howned other found hfound hspec
    · exact fun hsame => hother (howned.injective hheap hfound hbound hsame)
  · exact howned other found hfound hspec

theorem Owned.peerStart {n' : Node} (howned : n.Owned) (hfree : n.Free ref addr)
    (hstart : n.peerStart ref addr = some n') : n'.Owned := by
  obtain ⟨peer, hheap, rfl⟩ := Option.map_eq_some_iff.mp hstart
  intro other found hfound hspec
  simp only [queueAppend, queueGet_append, queueGet_queueDel]
  by_cases hother : other = ref
  · subst hother
    obtain rfl := Option.some.inj ((heap_setPeer_self ..).symm.trans hfound)
    simp only [if_true, Option.none_or, queueGet_cons]
  · have hfound : n.heap other = some found := (heap_setPeer_of_ne hother ..).symm.trans hfound
    have hkey : found.boundAddrKey ≠ (getAddrKey addr).getD .zero := by
      cases hkey : getAddrKey addr with
      | none =>
          rintro hzero
          exact hspec (hzero ▸ rfl)
      | some key =>
          rintro rfl
          exact hfree other found hother hfound hkey
    rw [if_neg hkey, howned.queueGet_unbind hheap hother hfound hspec, Option.some_or]

theorem Owned.releasePeer {n' : Node} (howned : n.Owned)
    (hrelease : n.releasePeer ref = some n') : n'.Owned := by
  obtain ⟨peer, hheap, rfl⟩ := Option.map_eq_some_iff.mp hrelease
  intro other found hfound hspec
  have hother : other ≠ ref := by
    rintro rfl
    simp at hfound
  exact howned.queueGet_unbind hheap hother (by simpa [hother] using hfound) hspec

theorem Owned.rebind (howned : n.Owned) (hheap : n.heap ref = some peer) :
    (n.rebind ref peer).Owned := by
  unfold Node.rebind
  split
  · rename_i hbound
    intro other found hfound hspec
    simp only [queueAppend, queueGet_append, queueGet_queueDel]
    by_cases hsame : found.boundAddrKey = peer.boundAddrKey
    · obtain rfl := howned.injective hheap hfound hbound hsame
      rw [if_pos hsame, Option.none_or, queueGet_cons, if_pos hsame.symm]
    · rw [if_neg hsame, howned other found hfound hspec, Option.some_or]
  · exact howned

theorem Owned.resolveOutboundPeer {n' : Node} (howned : n.Owned)
    (hfree : ∀ peer ip, n.heap ref = some peer → n.service.inetPton peer.address = some ip →
      n.Free ref (ip.sockAddr peer.port))
    (hresolve : n.resolveOutboundPeer ref = some n') : n'.Owned := by
  obtain ⟨peer, hheap, hresolve⟩ := Option.bind_eq_some_iff.mp hresolve
  cases hip : n.service.inetPton peer.address with
  | none =>
      simp only [hip, Option.some.injEq] at hresolve
      exact hresolve ▸ howned
  | some ip =>
      simp only [hip] at hresolve
      exact howned.peerStart (hfree peer ip hheap hip) hresolve

theorem Free.setPeer {peer' : PeerInfo} (hfree : n.Free ref addr) :
    (n.setPeer ref peer').Free ref addr := by
  intro other found hother hfound
  exact hfree other found hother ((heap_setPeer_of_ne hother ..).symm.trans hfound)

theorem Owned.onOffline {n' : Node} (howned : n.Owned) (hheap : n.heap ref = some peer)
    (hfree : ∀ ip, peer.isOutbound = true → n.service.inetPton peer.address = some ip →
      n.Free ref (ip.sockAddr peer.port))
    (hoffline : n.onOffline ref peer = some n') : n'.Owned := by
  unfold Node.onOffline at hoffline
  by_cases hout : peer.isOutbound = true
  · rw [if_pos hout] at hoffline
    by_cases hid : peer.peerId = 0
    · rw [if_neg (not_not.mpr hid)] at hoffline
      refine howned.resolveOutboundPeer (fun found ip hfound hip => ?_) hoffline
      obtain rfl : peer = found := Option.some.inj (hheap.symm.trans hfound)
      exact hfree ip hout hip
    · rw [if_pos hid] at hoffline
      have hunnamed : { n.setPeer ref { peer with peerId := 0 } with
          peersTab := n.peersTab.queueDel peer.peerId }.Owned :=
        howned.setPeer hheap rfl
      refine hunnamed.resolveOutboundPeer (fun found ip hfound hip => ?_) hoffline
      obtain rfl := Option.some.inj ((heap_setPeer_self ..).symm.trans hfound)
      exact (hfree ip hout hip).setPeer
  · rw [if_neg hout] at hoffline
    exact howned.releasePeer hoffline

theorem Owned.onOnline {n' : Node} (howned : n.Owned) (hheap : n.heap ref = some peer)
    (honline : n.onOnline ref peer = some n') : n'.Owned := by
  unfold Node.onOnline at honline
  by_cases hout : peer.isOutbound = true
  · rw [if_pos hout] at honline
    obtain ⟨cleared, hcleared, rfl⟩ := Option.map_eq_some_iff.mp honline
    have hnamed : (n.setPeer ref { peer with peerId := peer.dt.peerNodeId }).Owned :=
      howned.setPeer hheap rfl
    suffices howned' : cleared.Owned from howned'
    unfold overwriteConflict at hcleared
    split at hcleared
    · rename_i old hconflict
      obtain ⟨released, hrelease, rfl⟩ := Option.map_eq_some_iff.mp hcleared
      have hne : old ≠ ref := of_decide_eq_true (Option.filter_eq_some_iff.mp hconflict).2
      refine (hnamed.releasePeer hrelease).rebind ?_
      obtain ⟨oldPeer, -, rfl⟩ := Option.map_eq_some_iff.mp hrelease
      exact (Function.update_of_ne (Ne.symm hne) ..).trans (heap_setPeer_self ..)
    · obtain rfl := Option.some.inj hcleared
      exact hnamed
  · rw [if_neg hout, Option.some.injEq] at honline
    exact honline ▸ howned

theorem Owned.litedtIoEvent {n' : Node} (howned : n.Owned)
    (hevent : n.litedtIoEvent env ref buf recvLen = some n') : n'.Owned := by
  obtain ⟨peer, hheap, hevent⟩ := Option.bind_eq_some_iff.mp hevent
  have hreceived : (n.setPeer ref
      { peer with dt := peer.dt.ioEvent env.toEnv buf recvLen }).Owned :=
    howned.setPeer hheap rfl
  dsimp only at hevent
  split at hevent
  · rw [liteflowOnOnline, heap_setPeer_self] at hevent
    exact hreceived.onOnline (heap_setPeer_self ..) hevent
  · exact Option.some.inj hevent ▸ hreceived

theorem Owned.newPeer {isOutbound : Bool} {peerId : U16} {address : List Char} {port : U16}
    {n' : Node} (howned : n.Owned)
    (hnew : n.newPeer env isOutbound peerId address port = some (ref, n')) : n'.Owned := by
  obtain ⟨rfl, dt, rfl⟩ := newPeer_eq_some hnew
  exact howned.of_update rfl rfl fun hspec => absurd rfl hspec

theorem Owned.startAndReceive {n' : Node} {key : AddrKey} (howned : n.Owned)
    (hkey : getAddrKey addr = some key) (hget : n.addrsTab.queueGet key = none)
    (hreceive : (n.peerStart ref addr).bind
      (fun started => started.litedtIoEvent env ref buf recvLen) = some n') : n'.Owned := by
  obtain ⟨started, hstart, hevent⟩ := Option.bind_eq_some_iff.mp hreceive
  exact (howned.peerStart (howned.free_of_get_none hkey hget ref) hstart).litedtIoEvent hevent

theorem Owned.tryAcceptPeer {n' : Node} {key : AddrKey} (howned : n.Owned)
    (hkey : getAddrKey addr = some key) (hget : n.addrsTab.queueGet key = none)
    (hevent : n.tryAcceptPeer env addr buf recvLen = some n') : n'.Owned := by
  unfold Node.tryAcceptPeer at hevent
  split at hevent
  · exact Option.some.inj hevent ▸ howned
  · dsimp only at hevent
    split at hevent
    · exact howned.startAndReceive hkey hget hevent
    · split at hevent
      · exact Option.some.inj hevent ▸ howned
      · have hcounted : { n with peersInboundCnt := n.peersInboundCnt + 1 }.Owned := howned
        split at hevent
        · exact Option.some.inj hevent ▸ hcounted
        · rename_i allocated hnew
          have hallocated := hcounted.newPeer hnew
          have hget' : allocated.addrsTab.queueGet key = none := by
            obtain ⟨-, dt, rfl⟩ := newPeer_eq_some hnew
            exact hget
          refine Owned.startAndReceive ?_ hkey ?_ hevent
          · exact hallocated
          · exact hget'

theorem Owned.litedtIoCb {n' : Node} (howned : n.Owned)
    (hevent : n.litedtIoCb env addr buf recvLen = some n') : n'.Owned := by
  unfold Node.litedtIoCb at hevent
  split at hevent
  · exact Option.some.inj hevent ▸ howned
  · rename_i key hkey
    split at hevent
    · exact Option.some.inj hevent ▸ howned
    · split at hevent
      · rename_i hget
        exact howned.tryAcceptPeer hkey hget hevent
      · exact howned.litedtIoEvent hevent

def Uncontested (env : NodeEnv) (n : Node) : NodeEvent → Prop
  | .connectPeer addressPort =>
      ∀ ip, n.service.inetPton (parsePeerAddressPort addressPort).1 = some ip →
        n.Free n.created (ip.sockAddr (parsePeerAddressPort addressPort).2)
  | .timeout ref _ =>
      ∀ peer ip, n.heap ref = some peer → peer.dt.goesOffline env.toEnv = true →
        peer.isOutbound = true → n.service.inetPton peer.address = some ip →
          n.Free ref (ip.sockAddr peer.port)
  | .dnsQuery ref answer =>
      ∀ peer ip, n.heap ref = some peer → answer = some ip → n.Free ref (ip.sockAddr peer.port)
  | .dnsFailed ref =>
      ∀ peer ip, n.heap ref = some peer → peer.isOutbound = true →
        n.service.inetPton peer.address = some ip → n.Free ref (ip.sockAddr peer.port)
  | .datagram .. | .flowCall .. => True

theorem Owned.newPeerOutbound {n' : Node} {addressPort : List Char} (howned : n.Owned)
    (huncontested : n.Uncontested env (.connectPeer addressPort))
    (hevent : n.newPeerOutbound env addressPort = some n') : n'.Owned := by
  unfold Node.newPeerOutbound at hevent
  dsimp only at hevent
  split at hevent
  · exact Option.some.inj hevent ▸ howned
  · split at hevent
    · exact Option.some.inj hevent ▸ howned
    · rename_i ref allocated hnew
      have hallocated := howned.newPeer hnew
      refine Owned.resolveOutboundPeer ?_ (fun peer ip hheap hip => ?_) hevent
      · exact hallocated
      · obtain ⟨rfl, dt, rfl⟩ := newPeer_eq_some hnew
        obtain rfl := Option.some.inj ((heap_setPeer_self ..).symm.trans hheap)
        exact (huncontested ip hip).setPeer

theorem Owned.litedtTimeoutCb {n' : Node} {fuel : Nat} (howned : n.Owned)
    (huncontested : n.Uncontested env (.timeout ref fuel))
    (hevent : n.litedtTimeoutCb env ref fuel = some n') : n'.Owned := by
  unfold Node.litedtTimeoutCb at hevent
  split at hevent
  · exact Option.some.inj hevent ▸ howned
  · rename_i peer hheap
    have hserved : (n.setPeer ref
        { peer with dt := peer.dt.litedtTimeEvent env.toEnv fuel }).Owned :=
      howned.setPeer hheap rfl
    dsimp only at hevent
    split at hevent
    · rename_i hoffline
      rw [liteflowOnOnline, heap_setPeer_self] at hevent
      refine hserved.onOffline (heap_setPeer_self ..) (fun ip hout hip => ?_) hevent
      exact (huncontested peer ip hheap hoffline hout hip).setPeer
    · exact Option.some.inj hevent ▸ hserved

theorem Owned.step {n' : Node} {event : NodeEvent} (howned : n.Owned)
    (huncontested : n.Uncontested env event) (hevent : n.step env event = some n') : n'.Owned := by
  cases event with
  | connectPeer addressPort => exact howned.newPeerOutbound huncontested hevent
  | datagram addr buf recvLen => exact howned.litedtIoCb hevent
  | timeout ref fuel => exact howned.litedtTimeoutCb huncontested hevent
  | dnsQuery ref answer =>
      simp only [Node.step, dnsQueryCb] at hevent
      split at hevent
      · obtain ⟨peer, hheap, hevent⟩ := Option.bind_eq_some_iff.mp hevent
        have hanswered : { n with dnsQueries := n.dnsQueries.erase ref }.Owned := howned
        cases answer with
        | none => exact Option.some.inj hevent ▸ hanswered
        | some ip => exact hanswered.peerStart (huncontested peer ip hheap rfl) hevent
      · exact Option.some.inj hevent ▸ howned
  | dnsFailed ref =>
      simp only [Node.step, dnsFailedCb] at hevent
      split at hevent
      · exact Option.some.inj hevent ▸ howned
      · rename_i peer hheap
        simp only [liteflowOnOnline, hheap, Option.bind_eq_bind, Option.bind_some] at hevent
        exact howned.onOffline hheap (fun ip => huncontested peer ip hheap) hevent
  | flowCall ref call =>
      simp only [Node.step, Node.flowCall] at hevent
      split at hevent
      · exact Option.some.inj hevent ▸ howned
      · rename_i peer hheap
        exact Option.some.inj hevent ▸ howned.setPeer hheap rfl

def UncontestedRun : Node → List (NodeEnv × NodeEvent) → Prop
  | _, [] => True
  | n, e :: rest =>
      n.Uncontested e.1 e.2 ∧ ∀ n', n.step e.1 e.2 = some n' → UncontestedRun n' rest

theorem Owned.run {events : List (NodeEnv × NodeEvent)} {n' : Node} (howned : n.Owned)
    (huncontested : n.UncontestedRun events) (hrun : n.run events = some n') : n'.Owned := by
  induction events generalizing n with
  | nil => exact Option.some.inj hrun ▸ howned
  | cons e rest ih =>
      obtain ⟨hfirst, hrest⟩ := huncontested
      rw [Node.run, List.foldlM_cons] at hrun
      obtain ⟨next, hstep, hrun⟩ := Option.bind_eq_some_iff.mp hrun
      exact ih (howned.step hfirst hstep) (hrest next hstep) hrun

/-- Every address of a live peer leads to it, and no two share one, in every state of a run in which
no peer is started at an address that another one is bound to. -/
theorem addresses_owned (service : Service) (events : List (NodeEnv × NodeEvent)) (n : Node)
    (huncontested : (init service).UncontestedRun events)
    (hrun : (init service).run events = some n) :
    n.Owned ∧ ∀ ref other peer peer', n.heap ref = some peer → n.heap other = some peer' →
      peer.boundAddrKey.family ≠ .unspec → peer'.boundAddrKey = peer.boundAddrKey → other = ref := by
  have howned := (owned_init service).run huncontested hrun
  exact ⟨howned, fun ref other peer peer' => howned.injective⟩

/-- Whom the table has at an address that a peer is resolved to. -/
def holder (n : Node) (ref : PeerRef) (ip : IpAddr) : Option PeerRef :=
  (n.heap ref).bind (fun peer => (getAddrKey (ip.sockAddr peer.port)).bind n.addrsTab.queueGet)

theorem Owned.uncontested_dnsQuery {ip : IpAddr} (howned : n.Owned) (hnew : n.holder ref ip = none) :
    n.Uncontested env (.dnsQuery ref (some ip)) := by
  intro peer answer hheap hanswer
  cases hanswer
  obtain ⟨key, hkey⟩ := exists_getAddrKey ip peer.port
  rw [holder, hheap, Option.bind_some, hkey, Option.bind_some] at hnew
  exact howned.free_of_get_none hkey hnew ref

/-- Two names and the two hosts that they lead to. -/
def twoHosts : List (NodeEnv × NodeEvent) :=
  [(.plain 0, .connectPeer ['a']), (.plain 0, .connectPeer ['b']),
    (.plain 0, .dnsQuery 0 (some (.v4 1))), (.plain 0, .dnsQuery 1 (some (.v4 2)))]

theorem uncontestedRun_twoHosts : (init plainService).UncontestedRun twoHosts := by
  have hname : ∀ {n : Node} {name : List Char},
      n.service.inetPton (parsePeerAddressPort name).1 = none →
        n.Uncontested (.plain 0) (.connectPeer name) := by
    intro n name hnone ip hip
    cases hnone.symm.trans hip
  have hfirst : ((init plainService).run (twoHosts.take 1)).map (fun n =>
      n.service.inetPton (parsePeerAddressPort ['b']).1) = some none := by decide +kernel
  have hsecond : ((init plainService).run (twoHosts.take 2)).map (fun n => n.holder 0 (.v4 1)) =
      some none := by decide +kernel
  have hthird : ((init plainService).run (twoHosts.take 3)).map (fun n => n.holder 1 (.v4 2)) =
      some none := by decide +kernel
  have huncontested : (init plainService).Uncontested (.plain 0) (.connectPeer ['a']) := hname rfl
  refine ⟨huncontested, fun n₁ h₁ => ?_⟩
  have hrun₁ : (init plainService).run (twoHosts.take 1) = some n₁ := run_cons h₁
  have howned₁ := (owned_init plainService).step huncontested h₁
  rw [hrun₁] at hfirst
  have huncontested₁ : n₁.Uncontested (.plain 0) (.connectPeer ['b']) :=
    hname (Option.some.inj hfirst)
  refine ⟨huncontested₁, fun n₂ h₂ => ?_⟩
  have hrun₂ : (init plainService).run (twoHosts.take 2) = some n₂ :=
    (run_cons h₁).trans (run_cons h₂)
  have howned₂ := howned₁.step huncontested₁ h₂
  rw [hrun₂] at hsecond
  have huncontested₂ : n₂.Uncontested (.plain 0) (.dnsQuery 0 (some (.v4 1))) :=
    howned₂.uncontested_dnsQuery (Option.some.inj hsecond)
  refine ⟨huncontested₂, fun n₃ h₃ => ⟨?_, fun _ _ => trivial⟩⟩
  have hrun₃ : (init plainService).run (twoHosts.take 3) = some n₃ :=
    (run_cons h₁).trans ((run_cons h₂).trans (run_cons h₃))
  rw [hrun₃] at hthird
  exact (howned₂.step huncontested₂ h₃).uncontested_dnsQuery (Option.some.inj hthird)

theorem addresses_owned_twoHosts :
    ∃ n, (init plainService).run twoHosts = some n ∧ n.remoteAddr 0 = some (.inet 1 19210) ∧
      n.remoteAddr 1 = some (.inet 2 19210) ∧ n.Owned := by
  have hrun : ((init plainService).run twoHosts).map (fun n => (n.remoteAddr 0, n.remoteAddr 1)) =
      some (some (.inet 1 19210), some (.inet 2 19210)) := by decide +kernel
  obtain ⟨n, hn, hvalues⟩ := Option.map_eq_some_iff.mp hrun
  obtain ⟨hremote, hremote'⟩ := Prod.mk.inj hvalues
  exact ⟨n, hn, hremote, hremote',
    (addresses_owned plainService twoHosts n uncontestedRun_twoHosts hn).1⟩

/-- Two names lead to one host. The peer that moves away first takes the address of the other out of
the table. -/
def sharedAddress : List (NodeEnv × NodeEvent) :=
  [(.plain 0, .connectPeer ['a']), (.plain 0, .connectPeer ['b']),
    (.plain 0, .dnsQuery 0 (some (.v4 1))), (.plain 0, .dnsQuery 1 (some (.v4 1))),
    (.plain 200000000, .timeout 0 1), (.plain 200000000, .dnsQuery 0 (some (.v4 2)))]

theorem not_owned_sharedAddress :
    ∃ n peer, (init plainService).run sharedAddress = some n ∧ n.heap 1 = some peer ∧
      peer.boundAddrKey.family ≠ .unspec ∧ n.addrsTab.queueGet peer.boundAddrKey = none := by
  have hrun : ((init plainService).run sharedAddress).bind (fun n => (n.heap 1).map (fun peer =>
      (peer.boundAddrKey.family, n.addrsTab.queueGet peer.boundAddrKey))) =
      some (.inet, none) := by
    decide +kernel
  obtain ⟨n, hn, hpeer⟩ := Option.bind_eq_some_iff.mp hrun
  obtain ⟨peer, hheap, hvalues⟩ := Option.map_eq_some_iff.mp hpeer
  obtain ⟨hfamily, hget⟩ := Prod.mk.inj hvalues
  exact ⟨n, peer, hn, hheap, by simp [hfamily], hget⟩

end Node

end Liteflow

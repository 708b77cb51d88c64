import Liteflow.Proof.RefineConnection
import Liteflow.UdpTable

/-!
# Bind records while they are swept

`udp_timeout_cb` writes to a record after `litedt_close`. That is too late for the record of a
connection which the peer has closed: `litedt_close` releases it, and its callback removes the record.
The sweep is safe in a reachable state if and only if no record that it closes belongs to such a
connection.

The second part is about the notifications that `connect_cb` asks for. It is called before the
connection exists, so they are those of a connection that nobody has changed.
-/

namespace Liteflow

namespace HashQueue

variable {κ ν : Type} [DecidableEq κ] {hq : HashQueue κ ν} {key : κ}

theorem keys_queueModify (update : ν → ν) :
    (hq.queueModify key update).map Prod.fst = hq.map Prod.fst := by
  induction hq with
  | nil => rfl
  | cons entry hq ih =>
      rw [queueModify]
      split
      · rfl
      · rw [List.map_cons, List.map_cons, ih]

theorem mem_queueModify {entry : κ × ν} {update : ν → ν}
    (hmem : entry ∈ hq.queueModify key update) :
    ∃ value, (entry.1, value) ∈ hq ∧ (entry.2 = value ∨ entry.2 = update value) := by
  induction hq with
  | nil => cases hmem
  | cons head hq ih =>
      rw [queueModify] at hmem
      split at hmem
      · rcases List.mem_cons.mp hmem with rfl | hrest
        · exact ⟨head.2, List.mem_cons_self, .inr rfl⟩
        · exact ⟨entry.2, List.mem_cons_of_mem _ hrest, .inl rfl⟩
      · rcases List.mem_cons.mp hmem with rfl | hrest
        · exact ⟨entry.2, List.mem_cons_self, .inl rfl⟩
        · obtain ⟨value, hvalue, heq⟩ := ih hrest
          exact ⟨value, List.mem_cons_of_mem _ hvalue, heq⟩

theorem queueMoveBack_perm (hq : HashQueue κ ν) (key : κ) : (hq.queueMoveBack key).Perm hq := by
  have hperm := List.filter_append_perm (fun entry : κ × ν => decide (entry.1 ≠ key)) hq
  simpa [queueMoveBack] using hperm

section Split

variable {front back : HashQueue κ ν} {value : ν}

omit [DecidableEq κ] in
theorem not_mem_front (hnodup : ((front ++ (key, value) :: back).map Prod.fst).Nodup) :
    ∀ entry ∈ front, entry.1 ≠ key := by
  intro entry hentry heq
  rw [List.map_append, List.nodup_append] at hnodup
  exact hnodup.2.2 entry.1 (List.mem_map_of_mem hentry) key (by simp) heq

omit [DecidableEq κ] in
theorem not_mem_back (hnodup : ((front ++ (key, value) :: back).map Prod.fst).Nodup) :
    ∀ entry ∈ back, entry.1 ≠ key := by
  intro entry hentry heq
  rw [List.map_append, List.nodup_append, List.map_cons, List.nodup_cons] at hnodup
  have hkey : entry.1 ∈ back.map Prod.fst := List.mem_map_of_mem hentry
  exact hnodup.2.1.1 (heq ▸ hkey)

theorem queueGet_split (hnodup : ((front ++ (key, value) :: back).map Prod.fst).Nodup) :
    queueGet (front ++ (key, value) :: back) key = some value := by
  rw [queueGet_append, queueGet_eq_none_iff.mpr (not_mem_front hnodup), queueGet_cons, if_pos rfl,
    Option.none_or]

theorem queueDel_split (hnodup : ((front ++ (key, value) :: back).map Prod.fst).Nodup) :
    queueDel (front ++ (key, value) :: back) key = front ++ back := by
  rw [queueDel, List.filter_append, List.filter_cons_of_neg (by simp),
    List.filter_eq_self.mpr (by simpa using not_mem_front hnodup),
    List.filter_eq_self.mpr (by simpa using not_mem_back hnodup)]

theorem queueModify_split (hnodup : ((front ++ (key, value) :: back).map Prod.fst).Nodup)
    (update : ν → ν) :
    queueModify (front ++ (key, value) :: back) key update =
      front ++ (key, update value) :: back := by
  have hfront := not_mem_front hnodup
  clear hnodup
  induction front with
  | nil => rw [List.nil_append, queueModify, if_pos rfl, List.nil_append]
  | cons entry front ih =>
      rw [List.cons_append, queueModify, if_neg (hfront entry List.mem_cons_self),
        ih fun e he => hfront e (List.mem_cons_of_mem _ he), List.cons_append]

theorem queueNext_split (hnodup : ((front ++ (key, value) :: back).map Prod.fst).Nodup) :
    queueNext (front ++ (key, value) :: back) key = queueFirst back := by
  have hdrop : (front ++ (key, value) :: back).dropWhile (fun entry => decide (entry.1 ≠ key)) =
      (key, value) :: back := by
    rw [List.dropWhile_append_of_pos (by simpa using not_mem_front hnodup)]
    simp
  rw [queueNext, hdrop]
  rfl

end Split

theorem queueModify_absent (habsent : queueGet hq key = none) (update : ν → ν) :
    hq.queueModify key update = hq := by
  rw [queueGet_eq_none_iff] at habsent
  induction hq with
  | nil => rfl
  | cons entry hq ih =>
      rw [queueModify, if_neg (habsent entry List.mem_cons_self),
        ih fun e he => habsent e (List.mem_cons_of_mem _ he)]

end HashQueue

/-! ### Closing a connection -/

namespace Host

variable {env : Env} {h : Host} {flow g : U32} {conn : Conn}

theorem log_emit (flight : Flight) (len : Nat) : (h.emit flight len).log = h.log := by
  simp [emit, socketSend]

theorem log_litedtModEvtime (target : Option U32) (time : Time) :
    (h.litedtModEvtime target time).log = h.log := by
  have hview : (h.litedtModEvtime target time).view 0 = h.view 0 := view_litedtModEvtime _ _
  exact congrArg FlowState.log hview

theorem log_releaseConnection (hfind : h.findConnection flow = some conn) (cause : ReleaseCause) :
    (h.releaseConnection env cause flow).log = h.log ++ [.released flow cause conn.toStream] := by
  have hinactive : (if conn.active then { h with activeQueue := h.activeQueue.del flow }
      else h).log = h.log := by
    split <;> rfl
  have habandoned : ∀ h' : Host, (h'.retransModFini flow
      (conn.packetList.toList.map Prod.snd)).log = h'.log := by
    intro h'
    have hview : (h'.retransModFini flow (conn.packetList.toList.map Prod.snd)).view flow = _ :=
      view_retransModFini_self _
    exact congrArg FlowState.log hview
  simp only [releaseConnection, hfind, record, count, habandoned, hinactive]

theorem stream_releaseConnection_of_ne (hne : flow ≠ g) (cause : ReleaseCause) :
    ((h.releaseConnection env cause flow).view g).stream = (h.view g).stream := by
  unfold releaseConnection
  cases hfind : h.findConnection flow with
  | none => rfl
  | some conn =>
      dsimp only
      refine (congrArg FlowState.stream (view_delConn_of_ne hne _)).trans ?_
      rw [view_record, view_retransModFini_of_ne hne]
      split <;> rfl

def Closable (h : Host) (flow : U32) : Prop :=
  ∀ conn, h.findConnection flow = some conn → conn.state.code ≤ ConnState.finWait.code

theorem log_litedtClose_of_closable (hclosable : h.Closable flow) :
    (h.litedtClose env flow).2.log = h.log := by
  unfold litedtClose
  cases hfind : h.findConnection flow with
  | none => rfl
  | some conn =>
      have hstate := hclosable conn hfind
      dsimp only
      split
      · rw [log_litedtModEvtime, litedtCloseReq, log_emit]
        rfl
      · rw [if_neg]
        intro hfin
        cases hc : conn.state <;> simp_all [ConnState.code]

theorem log_litedtClose_of_not_closable (hclosable : ¬ h.Closable flow) :
    ∃ stream, (h.litedtClose env flow).2.log =
      h.log ++ [.released flow .application stream] := by
  simp only [Closable, not_forall, not_le] at hclosable
  obtain ⟨conn, hfind, hstate⟩ := hclosable
  have hopen : ¬ conn.state.code ≤ ConnState.established.code := by
    simp only [ConnState.code] at hstate ⊢
    omega
  have hfin : conn.state ≠ .finWait := fun heq => by simp [heq] at hstate
  refine ⟨conn.toStream, ?_⟩
  simp only [litedtClose, hfind, if_neg hopen, if_pos hfin]
  rw [log_releaseConnection (by rw [litedtCloseRsp, find_emit, hfind]), litedtCloseRsp, log_emit]

theorem closable_litedtClose_of_ne (hne : flow ≠ g) :
    (h.litedtClose env flow).2.Closable g ↔ h.Closable g := by
  have hstream : ((h.litedtClose env flow).2.view g).stream = (h.view g).stream := by
    unfold litedtClose
    cases hfind : h.findConnection flow with
    | none => rfl
    | some conn =>
        dsimp only
        split
        · rw [view_litedtModEvtime, litedtCloseReq, view_emit, view_modifyStream_of_ne hne]
          rfl
        · split
          · rw [stream_releaseConnection_of_ne hne, litedtCloseRsp, view_emit]
            rfl
          · rfl
  have hiff : ∀ h' : Host, h'.Closable g ↔
      ∀ c, (h'.view g).stream = some c → c.state.code ≤ ConnState.finWait.code := by
    intro h'
    refine ⟨fun hclosable c hc => ?_, fun hstate conn hfind => ?_⟩
    · obtain ⟨conn, hfind, rfl⟩ := (view_stream_eq_some h' g).mp hc
      exact hclosable conn hfind
    · exact hstate conn.toStream (view_stream_of_find hfind)
  rw [hiff, hiff, hstream]

end Host

namespace UdpNode

open HashQueue

variable {env : Env} {n : UdpNode} {ref : PeerRef} {ukey : UdpKey} {ubind : UdpBind}

/-! ### Records and flows -/

/-- A record belongs to a flow whose `ext` leads back to it. -/
structure Linked (n : UdpNode) : Prop where
  nodup : (n.udpTab.map Prod.fst).Nodup
  ext : ∀ entry ∈ n.udpTab, ∃ hostFd sockAddr,
    n.flows entry.2.peer entry.2.flow = some (.client hostFd sockAddr) ∧
      convertToUdpKey hostFd sockAddr = entry.1

theorem flows_setExt (n : UdpNode) (ref ref' : PeerRef) (flow flow' : U32) (ext : Option FlowExt) :
    (n.setExt ref flow ext).flows ref' flow' =
      if ref' = ref ∧ flow' = flow then ext else n.flows ref' flow' := by
  dsimp only [setExt]
  by_cases href : ref' = ref
  · subst href
    rw [Function.update_self, Function.update_apply]
    simp
  · rw [Function.update_of_ne href, if_neg fun h => href h.1]

theorem Linked.setExt_of_none (hlinked : n.Linked) {flow : U32} (hnone : n.flows ref flow = none)
    (ext : Option FlowExt) : (n.setExt ref flow ext).Linked := by
  refine ⟨hlinked.nodup, fun entry hentry => ?_⟩
  obtain ⟨hostFd, sockAddr, hext, hkey⟩ := hlinked.ext entry hentry
  refine ⟨hostFd, sockAddr, ?_, hkey⟩
  rw [flows_setExt, if_neg, hext]
  rintro ⟨hpeer, hflow⟩
  rw [hpeer, hflow, hnone] at hext
  cases hext

theorem Linked.liteflowOnClose (hlinked : n.Linked) (ref : PeerRef) (flow : U32) :
    (n.liteflowOnClose ref flow).Linked := by
  unfold UdpNode.liteflowOnClose
  cases hflow : n.flows ref flow with
  | none => exact hlinked
  | some closing =>
      -- a record that stays has another flow: `ext` of the closing one leads to no record
      suffices hrest : ((n.udpRemoteClose closing).udpTab.map Prod.fst).Nodup ∧
          ∀ entry ∈ (n.udpRemoteClose closing).udpTab, entry ∈ n.udpTab ∧
            ¬ (entry.2.peer = ref ∧ entry.2.flow = flow) by
        refine ⟨hrest.1, fun entry hentry => ?_⟩
        obtain ⟨hentry, hother⟩ := hrest.2 entry hentry
        obtain ⟨hostFd, sockAddr, hext, hkey⟩ := hlinked.ext entry hentry
        have hflows : (n.udpRemoteClose closing).flows = n.flows := by
          cases closing <;> rfl
        refine ⟨hostFd, sockAddr, ?_, hkey⟩
        rw [flows_setExt, if_neg hother, hflows, hext]
      cases closing with
      | other =>
          refine ⟨hlinked.nodup, fun entry hentry => ⟨hentry, ?_⟩⟩
          rintro ⟨hpeer, hflow'⟩
          obtain ⟨hostFd, sockAddr, hext, -⟩ := hlinked.ext entry hentry
          rw [hpeer, hflow', hflow] at hext
          cases hext
      | client closingFd closingAddr =>
          refine ⟨hlinked.nodup.sublist (List.Sublist.map _ List.filter_sublist),
            fun entry hentry => ?_⟩
          simp only [udpRemoteClose, queueDel, List.mem_filter, decide_eq_true_eq] at hentry
          refine ⟨hentry.1, ?_⟩
          rintro ⟨hpeer, hflow'⟩
          obtain ⟨hostFd, sockAddr, hext, hkey⟩ := hlinked.ext entry hentry.1
          rw [hpeer, hflow', hflow] at hext
          cases hext
          exact hentry.2 hkey.symm

theorem Linked.onEvent (hlinked : n.Linked) (ref : PeerRef) (event : Event) :
    (n.onEvent ref event).Linked := by
  cases event
  case created flow =>
      rw [UdpNode.onEvent]
      split
      · exact hlinked
      · rename_i hnone
        exact hlinked.setExt_of_none (by simpa using hnone) _
  case released flow cause stream => exact hlinked.liteflowOnClose ref flow
  all_goals exact hlinked

theorem Linked.setHost (hlinked : n.Linked) (ref : PeerRef) (h : Host) :
    (n.setHost ref h).Linked := by
  unfold UdpNode.setHost
  have hstart : { n with hosts := Function.update n.hosts ref h }.Linked :=
    ⟨hlinked.nodup, hlinked.ext⟩
  generalize h.log.drop (n.hosts ref).log.length = events
  revert hstart
  generalize { n with hosts := Function.update n.hosts ref h } = m
  intro hstart
  induction events generalizing m with
  | nil => exact hstart
  | cons event events ih => exact ih _ (hstart.onEvent ref event)

theorem Linked.queueModify (hlinked : n.Linked) (ukey : UdpKey) {update : UdpBind → UdpBind}
    (hpeer : ∀ ubind, (update ubind).peer = ubind.peer)
    (hflow : ∀ ubind, (update ubind).flow = ubind.flow) :
    { n with udpTab := n.udpTab.queueModify ukey update }.Linked := by
  refine ⟨by rw [keys_queueModify]; exact hlinked.nodup, fun entry hentry => ?_⟩
  obtain ⟨value, hvalue, heq | heq⟩ := mem_queueModify hentry
  · exact heq ▸ hlinked.ext _ hvalue
  · have hext := hlinked.ext _ hvalue
    rw [heq, hpeer, hflow]
    exact hext

theorem Linked.queueMoveBack (hlinked : n.Linked) (ukey : UdpKey) :
    { n with udpTab := n.udpTab.queueMoveBack ukey }.Linked :=
  ⟨((queueMoveBack_perm n.udpTab ukey).map Prod.fst).nodup_iff.mpr hlinked.nodup,
    fun entry hentry => hlinked.ext entry ((queueMoveBack_perm n.udpTab ukey).subset hentry)⟩

theorem setHost_of_created {flow : U32} {h : Host} {events : List Event}
    (hlog : h.log = (n.hosts ref).log ++ events) (hevents : ∀ event ∈ events, event = .created flow)
    (hsome : (n.flows ref flow).isSome) :
    n.setHost ref h = { n with hosts := Function.update n.hosts ref h } := by
  rw [setHost, hlog, List.drop_left]
  clear hlog
  induction events with
  | nil => rfl
  | cons event events ih =>
      have hevent := hevents event List.mem_cons_self
      rw [List.foldl_cons, hevent, onEvent, if_pos hsome]
      exact ih fun e he => hevents e (List.mem_cons_of_mem _ he)

/-! ### Datagrams of the clients -/

theorem log_litedtConnect (env : Env) (h : Host) (flow : U32) (tunnelId : U16) :
    ∃ events, (h.litedtConnect env flow tunnelId).2.log = h.log ++ events ∧
      ∀ event ∈ events, event = .created flow := by
  have hcreate : ∃ events, (h.createConnection env flow tunnelId .request).2.log =
      h.log ++ events ∧ ∀ event ∈ events, event = .created flow := by
    unfold Host.createConnection
    split
    · exact ⟨[], by simp⟩
    · split
      · exact ⟨[], by simp⟩
      · dsimp only
        split
        · exact ⟨[], by simp⟩
        · exact ⟨[.created flow], Host.log_litedtModEvtime _ _, by simp⟩
  unfold Host.litedtConnect
  split
  · exact ⟨[], by simp⟩
  · dsimp only
    split
    · refine ⟨[], ?_, by simp⟩
      rw [if_pos rfl, Host.litedtConnReq, Host.log_emit, List.append_nil]
    · split
      · rw [Host.litedtConnReq, Host.log_emit]
        exact hcreate
      · exact hcreate

theorem Linked.createUdpBind (hlinked : n.Linked) {udpTimeout : U32} {arrival : UdpArrival}
    {bound : UdpNode} (hnew : n.udpTab.queueGet (convertToUdpKey arrival.hostFd arrival.addr) = none)
    (hbound : n.createUdpBind env udpTimeout arrival = some bound) : bound.Linked := by
  unfold UdpNode.createUdpBind at hbound
  split at hbound
  · cases hbound
  · rename_i hfree
    dsimp only at hbound
    split at hbound
    · cases hbound
    · obtain ⟨events, hlog, hevents⟩ :=
        log_litedtConnect env (n.hosts arrival.peer) arrival.flow arrival.tunnelId
      have hfree' : n.flows arrival.peer arrival.flow = none := by simpa using hfree
      have hentered := hlinked.setExt_of_none hfree'
        (some (.client arrival.hostFd arrival.addr))
      have hext := flows_setExt n arrival.peer arrival.peer arrival.flow arrival.flow
        (some (.client arrival.hostFd arrival.addr))
      rw [if_pos ⟨rfl, rfl⟩] at hext
      rw [setHost_of_created (by exact hlog) hevents (by rw [hext]; rfl)] at hbound
      obtain rfl := Option.some.inj hbound
      refine ⟨?_, fun entry hentry => ?_⟩
      · have hkeys := hlinked.nodup
        rw [queueGet_eq_none_iff] at hnew
        simp only [queueAppend, List.map_append, List.map_cons, List.map_nil]
        refine List.nodup_append.mpr ⟨hkeys, by simp, ?_⟩
        rintro key hkey other hother rfl
        obtain ⟨entry, hentry, rfl⟩ := List.mem_map.mp hkey
        exact hnew entry hentry (by simpa using hother)
      · rcases List.mem_append.mp hentry with hold | hnew
        · exact hentered.ext entry hold
        · obtain rfl := List.mem_singleton.mp hnew
          exact ⟨_, _, hext, rfl⟩

theorem Linked.udpHostRecv (hlinked : n.Linked) (env : Env) (udpTimeout : U32)
    (arrival : UdpArrival) : (n.udpHostRecv env udpTimeout arrival).Linked := by
  unfold UdpNode.udpHostRecv
  cases hbound : n.bindArrival env udpTimeout arrival with
  | none => exact hlinked
  | some bound =>
      have hkept : bound.Linked := by
        unfold bindArrival at hbound
        dsimp only at hbound
        split at hbound
        · rename_i hnew
          exact hlinked.createUdpBind hnew hbound
        · obtain rfl := Option.some.inj hbound
          have hrefreshed := hlinked.queueModify (convertToUdpKey arrival.hostFd arrival.addr)
            (fun ubind => rfl : ∀ ubind : UdpBind,
              ({ ubind with expire := udpExpire udpTimeout env.now } : UdpBind).peer = ubind.peer)
            (fun ubind => rfl)
          exact hrefreshed.queueMoveBack _
      dsimp only
      split
      · exact hkept
      · exact hkept.setHost _ _

/-! ### The sweep -/

theorem Linked.expireBind {s : Sweep} (hlinked : s.node.Linked) (env : Env) (ukey : UdpKey)
    (ubind : UdpBind) : (expireBind env s ukey ubind).node.Linked :=
  (hlinked.setHost _ _).queueModify ukey (fun _ => rfl) (fun _ => rfl)

theorem Linked.udpTimeoutLoop (fuel : Nat) {s : Sweep} (hlinked : s.node.Linked) (env : Env)
    (it : Option UdpKey) : (udpTimeoutLoop env fuel it s).node.Linked := by
  induction fuel generalizing s it with
  | zero => exact hlinked
  | succ fuel ih =>
      cases it with
      | none => exact hlinked
      | some ukey =>
          have hread : { s with touches := s.touches ++ [s.node.touch ukey] }.node.Linked := hlinked
          rw [UdpNode.udpTimeoutLoop]
          generalize { s with touches := s.touches ++ [s.node.touch ukey] } = read at hread ⊢
          dsimp only
          split
          · exact hread
          · split
            · exact hread
            · split
              · exact ih hread _
              · exact ih (Linked.expireBind hread env _ _) _

theorem Linked.step (hlinked : n.Linked) (env : Env) (action : NodeAction) :
    (n.step env action).Linked := by
  cases action with
  | arrive udpTimeout arrival => exact hlinked.udpHostRecv env udpTimeout arrival
  | event ref event => exact hlinked.setHost ref _
  | sweep => exact Linked.udpTimeoutLoop _ hlinked env _

theorem linked_run (hosts : PeerRef → Host) (actions : List (Env × NodeAction)) :
    ((init hosts).run actions).Linked := by
  unfold run
  have hinit : (init hosts).Linked := ⟨List.nodup_nil, fun _ hentry => by cases hentry⟩
  generalize init hosts = m at hinit ⊢
  induction actions generalizing m with
  | nil => exact hinit
  | cons act actions ih => exact ih _ (hinit.step act.1 act.2)

def Closable (n : UdpNode) (ubind : UdpBind) : Prop :=
  (n.hosts ubind.peer).Closable ubind.flow

theorem litedtClose_of_closable (hclosable : n.Closable ubind) :
    (n.litedtClose env ubind).udpTab = n.udpTab := by
  rw [litedtClose, setHost, Host.log_litedtClose_of_closable hclosable, List.drop_length]
  rfl

theorem litedtClose_of_not_closable (hlinked : n.Linked) (hmem : (ukey, ubind) ∈ n.udpTab)
    (hclosable : ¬ n.Closable ubind) : (n.litedtClose env ubind).udpTab = n.udpTab.queueDel ukey := by
  have hreleased : ∃ stream, ((n.hosts ubind.peer).litedtClose env ubind.flow).2.log = _ ++ _ :=
    Host.log_litedtClose_of_not_closable hclosable
  obtain ⟨stream, hlog⟩ := hreleased
  obtain ⟨hostFd, sockAddr, hext, hkey⟩ := hlinked.ext _ hmem
  rw [litedtClose, setHost, hlog, List.drop_left]
  simp only [List.foldl_cons, List.foldl_nil, onEvent, liteflowOnClose, hext]
  exact congrArg n.udpTab.queueDel hkey

theorem hosts_setHost (n : UdpNode) (ref : PeerRef) (h : Host) :
    (n.setHost ref h).hosts = Function.update n.hosts ref h := by
  have hevent : ∀ (m : UdpNode) (event : Event), (m.onEvent ref event).hosts = m.hosts := by
    intro m event
    cases event
    case created flow =>
      rw [onEvent]
      split <;> rfl
    case released flow cause stream =>
      rw [onEvent, liteflowOnClose]
      split
      · rfl
      · rename_i ext hext
        cases ext <;> rfl
    all_goals rfl
  rw [setHost]
  generalize h.log.drop (n.hosts ref).log.length = events
  have hfold : ∀ m : UdpNode, (events.foldl (onEvent ref) m).hosts = m.hosts := by
    induction events with
    | nil => exact fun m => rfl
    | cons event events ih => exact fun m => (ih _).trans (hevent m event)
  exact hfold _

theorem closable_litedtClose {other : UdpBind}
    (hne : ¬ (other.peer = ubind.peer ∧ other.flow = ubind.flow)) :
    (n.litedtClose env ubind).Closable other ↔ n.Closable other := by
  rw [Closable, Closable, litedtClose, hosts_setHost]
  by_cases hpeer : other.peer = ubind.peer
  · have hflow : ubind.flow ≠ other.flow := fun heq => hne ⟨hpeer, heq.symm⟩
    rw [hpeer, Function.update_self]
    exact Host.closable_litedtClose_of_ne hflow
  · rw [Function.update_of_ne hpeer]

theorem Linked.flow_ne (hlinked : n.Linked) {other : UdpKey × UdpBind}
    (hmem : (ukey, ubind) ∈ n.udpTab) (hother : other ∈ n.udpTab) (hkey : other.1 ≠ ukey) :
    ¬ (other.2.peer = ubind.peer ∧ other.2.flow = ubind.flow) := by
  rintro ⟨hpeer, hflow⟩
  obtain ⟨hostFd, sockAddr, hext, hconvert⟩ := hlinked.ext _ hmem
  obtain ⟨hostFd', sockAddr', hext', hconvert'⟩ := hlinked.ext _ hother
  rw [hpeer, hflow, hext] at hext'
  cases hext'
  exact hkey (hconvert'.symm.trans hconvert)

/-- The records that the sweep closes: those before the first one that has not expired. -/
def expiredBinds (now : Time) (tab : HashQueue UdpKey UdpBind) : HashQueue UdpKey UdpBind :=
  tab.takeWhile (fun entry => entry.2.expire ≤ now)

def AllPresent (touches : List Touch) : Prop :=
  ∀ t ∈ touches, t.present = true

theorem allPresent_append_singleton {touches : List Touch} {t : Touch} :
    AllPresent (touches ++ [t]) ↔ AllPresent touches ∧ t.present = true := by
  simp [AllPresent, or_imp, forall_and]

section Turn

variable {s : Sweep} {front back : HashQueue UdpKey UdpBind}
variable (env)

theorem expireBind_of_closable (hlinked : s.node.Linked)
    (htab : s.node.udpTab = front ++ (ukey, ubind) :: back) (hclosable : s.node.Closable ubind) :
    (expireBind env s ukey ubind).node.udpTab =
        front ++ (ukey, { ubind with closed := true }) :: back ∧
      (AllPresent (expireBind env s ukey ubind).touches ↔ AllPresent s.touches) := by
  have hkeys := hlinked.nodup
  rw [htab] at hkeys
  have hclosed : (s.node.litedtClose env ubind).udpTab = _ := litedtClose_of_closable hclosable
  rw [htab] at hclosed
  refine ⟨?_, ?_⟩
  · simp only [expireBind, hclosed]
    exact queueModify_split hkeys _
  · rw [expireBind, allPresent_append_singleton, touch, hclosed, queueGet_split hkeys]
    simp

theorem expireBind_of_not_closable (hlinked : s.node.Linked)
    (htab : s.node.udpTab = front ++ (ukey, ubind) :: back) (hclosable : ¬ s.node.Closable ubind) :
    (expireBind env s ukey ubind).node.udpTab = front ++ back ∧
      ¬ AllPresent (expireBind env s ukey ubind).touches := by
  have hkeys := hlinked.nodup
  rw [htab] at hkeys
  have hmem : (ukey, ubind) ∈ s.node.udpTab := by simp [htab]
  have hclosed : (s.node.litedtClose env ubind).udpTab = _ :=
    litedtClose_of_not_closable hlinked hmem hclosable
  rw [htab, queueDel_split hkeys] at hclosed
  have hgone : queueGet (front ++ back) ukey = none := by
    rw [queueGet_eq_none_iff]
    intro entry hentry
    rcases List.mem_append.mp hentry with hfront | hback
    · exact not_mem_front hkeys entry hfront
    · exact not_mem_back hkeys entry hback
  refine ⟨?_, ?_⟩
  · simp only [expireBind, hclosed]
    exact queueModify_absent hgone _
  · rw [expireBind, allPresent_append_singleton, touch, hclosed, hgone]
    simp

theorem closable_expireBind (hlinked : s.node.Linked)
    (htab : s.node.udpTab = front ++ (ukey, ubind) :: back) {entry : UdpKey × UdpBind}
    (hentry : entry ∈ back) :
    (expireBind env s ukey ubind).node.Closable entry.2 ↔ s.node.Closable entry.2 := by
  have hkeys := hlinked.nodup
  rw [htab] at hkeys
  have hmem : (ukey, ubind) ∈ s.node.udpTab := by simp [htab]
  have hother : entry ∈ s.node.udpTab := by simp [htab, hentry]
  exact closable_litedtClose (hlinked.flow_ne hmem hother (not_mem_back hkeys entry hentry))

end Turn

theorem allPresent_udpTimeoutLoop (env : Env) (rest : HashQueue UdpKey UdpBind) (fuel : Nat)
    (hfuel : rest.length ≤ fuel) (front : HashQueue UdpKey UdpBind) (s : Sweep)
    (hlinked : s.node.Linked) (htab : s.node.udpTab = front ++ rest) :
    AllPresent (udpTimeoutLoop env fuel rest.queueFirst s).touches ↔
      AllPresent s.touches ∧
        ∀ entry ∈ expiredBinds env.now rest, entry.2.closed = false →
          s.node.Closable entry.2 := by
  -- `front` are the records the sweep has passed, some of them removed; `rest` it has not touched
  induction rest generalizing fuel front s with
  | nil =>
      have hloop : udpTimeoutLoop env fuel none s = s := by
        cases fuel <;> rfl
      have hfirst : queueFirst ([] : HashQueue UdpKey UdpBind) = none := rfl
      simp [hfirst, hloop, expiredBinds]
  | cons entry rest ih =>
      obtain ⟨ukey, ubind⟩ := entry
      obtain ⟨fuel, rfl⟩ : ∃ k, fuel = k + 1 := ⟨fuel - 1, by simp at hfuel; omega⟩
      have hlen : rest.length ≤ fuel := by simpa using hfuel
      have hkeys := hlinked.nodup
      rw [htab] at hkeys
      have hget : s.node.udpTab.queueGet ukey = some ubind := by
        rw [htab, queueGet_split hkeys]
      have hnext : s.node.udpTab.queueNext ukey = queueFirst rest := by
        rw [htab, queueNext_split hkeys]
      have hread : AllPresent (s.touches ++ [s.node.touch ukey]) ↔ AllPresent s.touches := by
        rw [allPresent_append_singleton, touch, hget]
        simp
      have hfirst : queueFirst ((ukey, ubind) :: rest) = some ukey := rfl
      rw [hfirst, udpTimeoutLoop, hget, hnext]
      dsimp only
      by_cases hexpired : env.now < ubind.expire
      · rw [if_pos hexpired, expiredBinds, List.takeWhile_cons_of_neg (by simpa using hexpired)]
        simpa using hread
      · rw [if_neg hexpired, expiredBinds, List.takeWhile_cons_of_pos (by simpa using hexpired),
          ← expiredBinds]
        set read : Sweep := { s with touches := s.touches ++ [s.node.touch ukey] } with hs
        have htail : ∀ entry ∈ expiredBinds env.now rest, entry ∈ rest :=
          fun entry hentry => (List.takeWhile_sublist _).subset hentry
        cases hclosed : ubind.closed with
        | true =>
            rw [if_pos rfl, ih fuel hlen (front ++ [(ukey, ubind)]) read hlinked
              (by rw [List.append_assoc]; exact htab)]
            simp only [List.forall_mem_cons, hclosed]
            rw [hs, hread]
            simp
        | false =>
            rw [if_neg (by simp)]
            have hlinked' : (expireBind env read ukey ubind).node.Linked :=
              Linked.expireBind hlinked env ukey ubind
            by_cases hclosable : s.node.Closable ubind
            · obtain ⟨htab', htouches⟩ :=
                expireBind_of_closable env (s := read) hlinked htab hclosable
              rw [ih fuel hlen (front ++ [(ukey, { ubind with closed := true })]) _ hlinked'
                (by rw [List.append_assoc]; exact htab'), htouches, hs, hread]
              refine and_congr_right fun _ => ?_
              rw [List.forall_mem_cons]
              refine ⟨fun h => ⟨fun _ => hclosable, fun entry hentry hopen => ?_⟩,
                fun h entry hentry hopen => ?_⟩
              · exact (closable_expireBind env (s := read) hlinked htab (htail entry hentry)).mp
                  (h entry hentry hopen)
              · exact (closable_expireBind env (s := read) hlinked htab (htail entry hentry)).mpr
                  (h.2 entry hentry hopen)
            · obtain ⟨htab', htouches⟩ :=
                expireBind_of_not_closable env (s := read) hlinked htab hclosable
              rw [ih fuel hlen front _ hlinked' htab', List.forall_mem_cons]
              refine ⟨fun h => absurd h.1 htouches, fun h => absurd (h.2.1 hclosed) hclosable⟩

/-- In a reachable state the sweep touches only records that are in the table if and only if
`litedt_close` releases none of the connections it is called for. -/
theorem sweep_present_iff (hosts : PeerRef → Host) (actions : List (Env × NodeAction)) (env : Env) :
    AllPresent (((init hosts).run actions).udpTimeoutCb env).touches ↔
      ∀ entry ∈ expiredBinds env.now ((init hosts).run actions).udpTab,
        entry.2.closed = false →
          ∀ conn, (((init hosts).run actions).hosts entry.2.peer).findConnection entry.2.flow =
              some conn →
            conn.state.code ≤ ConnState.finWait.code := by
  have hlinked := linked_run hosts actions
  generalize (init hosts).run actions = n at hlinked ⊢
  have hloop := allPresent_udpTimeoutLoop env n.udpTab n.udpTab.length le_rfl []
    { node := n, touches := [] } hlinked rfl
  rw [udpTimeoutCb, hloop]
  exact and_iff_right (fun _ h => by cases h)

def client : NodeAction :=
  .arrive 1
    { hostFd := 5
      addr := .inet 0x7F000001 4000
      tunnelId := 1
      peer := 0
      flow := 2
      read := { datagram := [], head := .plain 0, body := .plain 0 } }

def clientKey : UdpKey :=
  convertToUdpKey 5 (.inet 0x7F000001 4000)

/-- The peer answers a ping, a client is heard, and the peer closes its flow before everything it has
sent on it has arrived. -/
def closedClient : List (Env × NodeAction) :=
  [(.plain 0, .event 0 (.time 1)),
    (.plain 0, .event 0 (.io (.pingRsp .plain))),
    (.plain 0, client),
    (.plain 500000, .event 0 (.io (.closeReq 2 5)))]

/-- The connection waits in `CLOSE_WAIT` when the record expires. `litedt_close` releases it, with the
record, and `closed` is written to freed memory. -/
theorem not_sweep_present_closedClient :
    (((init (fun _ => Host.litedtInit (.globalConfigInit Config.plainToken) 1 0)).run
        closedClient).udpTimeoutCb (.plain 1000000)).touches =
          [⟨clientKey, true⟩, ⟨clientKey, false⟩] ∧
      ¬ AllPresent (((init (fun _ => Host.litedtInit (.globalConfigInit Config.plainToken) 1 0)).run
        closedClient).udpTimeoutCb (.plain 1000000)).touches := by
  have htouches : (((init (fun _ => Host.litedtInit (.globalConfigInit Config.plainToken) 1 0)).run
      closedClient).udpTimeoutCb (.plain 1000000)).touches =
        [⟨clientKey, true⟩, ⟨clientKey, false⟩] := by
    decide +kernel
  refine ⟨htouches, fun hpresent => ?_⟩
  rw [htouches] at hpresent
  exact absurd (hpresent ⟨clientKey, false⟩ (by simp)) (by simp)

end UdpNode

/-! ### Notifications of a new connection -/

structure NotifySettings where
  recv : Bool
  recvnew : Bool
  send : Bool
deriving DecidableEq, Repr

namespace NotifySettings

/-- What `create_connection` writes. -/
def initial : NotifySettings := ⟨true, false, false⟩

def set (settings : NotifySettings) : NotifyCall → NotifySettings
  | .recv notify => { settings with recv := notify }
  | .recvnew notify => { settings with recvnew := notify }
  | .send notify => { settings with send := notify }

end NotifySettings

def Conn.notifySettings (conn : Conn) : NotifySettings :=
  ⟨conn.notifyRecv, conn.notifyRecvnew, conn.notifySend⟩

namespace NotifyCall

def recv? : NotifyCall → Option Bool
  | recv notify => some notify
  | _ => none

def recvnew? : NotifyCall → Option Bool
  | recvnew notify => some notify
  | _ => none

def send? : NotifyCall → Option Bool
  | send notify => some notify
  | _ => none

/-- No kind of notification is, in the end, asked to be other than in a new connection. -/
structure AsksInitial (calls : List NotifyCall) : Prop where
  recv : (calls.filterMap recv?).getLast? ≠ some false
  recvnew : (calls.filterMap recvnew?).getLast? ≠ some true
  send : (calls.filterMap send?).getLast? ≠ some true

theorem foldl_set (calls : List NotifyCall) (settings : NotifySettings) :
    calls.foldl NotifySettings.set settings =
      ⟨(calls.filterMap recv?).getLast?.getD settings.recv,
        (calls.filterMap recvnew?).getLast?.getD settings.recvnew,
        (calls.filterMap send?).getLast?.getD settings.send⟩ := by
  induction calls generalizing settings with
  | nil => rfl
  | cons call calls ih =>
      rw [List.foldl_cons, ih]
      cases call <;> simp [NotifySettings.set, recv?, recvnew?, send?, List.getLast?_cons]

theorem foldl_set_initial_iff (calls : List NotifyCall) :
    calls.foldl NotifySettings.set .initial = .initial ↔ AsksInitial calls := by
  have hdefault : ∀ (last : Option Bool) (b : Bool), last.getD b = b ↔ last ≠ some (!b) := by
    intro last b
    cases last with
    | none => simp
    | some a => cases a <;> cases b <;> simp
  rw [foldl_set, NotifySettings.initial, NotifySettings.mk.injEq, hdefault, hdefault, hdefault]
  exact ⟨fun h => ⟨h.1, h.2.1, h.2.2⟩, fun h => ⟨h.recv, h.recvnew, h.send⟩⟩

end NotifyCall

namespace Host

variable {h : Host} {flow : U32}

theorem modifyConn_of_absent (hfind : h.findConnection flow = none) (update : Conn → Conn) :
    h.modifyConn flow update = h := by
  have hnodes := Timerlist.modifyFirst_of_get_none hfind update
  have hqueue : h.connQueue.timerlistModify flow update = h.connQueue := by
    simp only [Timerlist.timerlistModify, hnodes]
  rw [modifyConn, hqueue]

theorem notifyCall_of_absent (hfind : h.findConnection flow = none) (call : NotifyCall) :
    h.notifyCall flow call = h := by
  cases call <;> exact modifyConn_of_absent hfind _

theorem foldl_notifyCall_of_absent (hfind : h.findConnection flow = none)
    (calls : List NotifyCall) : calls.foldl (notifyCall flow) h = h := by
  induction calls with
  | nil => rfl
  | cons call calls ih => rw [List.foldl_cons, notifyCall_of_absent hfind, ih]

/-- The calls of `connect_cb` have no effect: only its answer counts. -/
theorem acceptConnection_eq (env : Env) (connectCb : ConnectCb) (h : Host) (flow : U32)
    (tunnelId : U16) :
    h.acceptConnection env connectCb flow tunnelId =
      h.createConnection
        { env with connectCb := some (fun h flow tunnelId => (connectCb h flow tunnelId).2) }
        flow tunnelId .established := by
  unfold acceptConnection createConnection
  cases hfind : h.findConnection flow with
  | some conn => rfl
  | none =>
      dsimp only [askConnectCb]
      cases connectCb h flow tunnelId with
      | mk calls ret => rw [foldl_notifyCall_of_absent hfind]

theorem find_acceptConnection {env : Env} {connectCb : ConnectCb} {tunnelId : U16}
    (hret : (h.acceptConnection env connectCb flow tunnelId).1 = 0) :
    (h.acceptConnection env connectCb flow tunnelId).2.findConnection flow =
      some (newConn h.cfg env.now tunnelId .established) := by
  unfold acceptConnection at hret ⊢
  cases hfind : h.findConnection flow with
  | some conn =>
      rw [hfind] at hret
      cases hret
  | none =>
      cases hcb : connectCb h flow tunnelId with
      | mk calls ret =>
          rw [hfind, hcb] at hret
          dsimp only at hret ⊢
          rw [foldl_notifyCall_of_absent hfind] at hret ⊢
          rw [if_neg (by simp)] at hret ⊢
          split at hret
          · cases hret
          · rename_i hfree
            split at hret
            · rename_i hrefused
              exact absurd hret hrefused
            · rename_i haccepted
              rw [if_neg hfree, if_neg haccepted]
              set pushed : Host :=
                { h with
                  connQueue := h.connQueue.timerlistPush env.now flow
                    (newConn h.cfg env.now tunnelId .established) } with hpushed
              have hget : (pushed.record (.created flow)).findConnection flow =
                  some (newConn h.cfg env.now tunnelId .established) := by
                rw [find_record, hpushed]
                refine (Timerlist.timerlistGet_push _ _ _ _ _).trans ?_
                rw [if_pos rfl]
                exact congrArg (Option.or · _) hfind
              have hsync : (pushed.record (.created flow)).advanceSync flow env.now =
                  pushed.record (.created flow) := by
                rw [advanceSync, hget]
                exact if_neg (lt_irrefl env.now)
              rw [litedtModEvtime]
              dsimp only
              rw [hsync]
              split <;> exact hget

/-- A connection that has just been accepted has the notifications that `connect_cb` has asked for if
and only if these are the ones a new connection has anyway. -/
theorem acceptedSettings_iff {env : Env} {connectCb : ConnectCb} {tunnelId : U16}
    (hret : (h.acceptConnection env connectCb flow tunnelId).1 = 0) :
    (∃ conn, (h.acceptConnection env connectCb flow tunnelId).2.findConnection flow = some conn ∧
        conn.notifySettings =
          (connectCb h flow tunnelId).1.foldl NotifySettings.set .initial) ↔
      NotifyCall.AsksInitial (connectCb h flow tunnelId).1 := by
  rw [find_acceptConnection hret, ← NotifyCall.foldl_set_initial_iff]
  constructor
  · rintro ⟨conn, hconn, hsettings⟩
    obtain rfl := Option.some.inj hconn
    exact hsettings.symm
  · intro hsettings
    exact ⟨_, rfl, hsettings.symm⟩

/-- A `connect_cb` that makes all three calls, for what a new connection has anyway. -/
def asksForInitial : ConnectCb := fun _ _ _ =>
  ([.recvnew true, .recv true, .recvnew false, .send false], 0)

theorem acceptedSettings_asked :
    (∃ conn, ((litedtInit (.globalConfigInit Config.plainToken) 1 0).acceptConnection (.plain 0)
          asksForInitial 7 1).2.findConnection 7 = some conn ∧
        conn.notifySettings = .initial) := by
  have hret : ((litedtInit (.globalConfigInit Config.plainToken) 1 0).acceptConnection (.plain 0)
      asksForInitial 7 1).1 = 0 := by
    decide +kernel
  exact (acceptedSettings_iff hret).mpr ⟨by decide, by decide, by decide⟩

/-- A flow that the peer opens for a UDP rule keeps `notify_recv` and has no `notify_recvnew`. -/
theorem not_acceptedSettings_udp :
    ((((litedtInit (.globalConfigInit Config.plainToken) 1 0).acceptConnection (.plain 0)
        udpRemoteInit 7 1).2.findConnection 7).map Conn.notifySettings = some ⟨true, false, false⟩) ∧
      (udpRemoteInit (litedtInit (.globalConfigInit Config.plainToken) 1 0) 7 1).1.foldl
        NotifySettings.set .initial = ⟨false, true, false⟩ ∧
      ((((UdpNode.init (fun _ => litedtInit (.globalConfigInit Config.plainToken) 1 0)).run
        (UdpNode.closedClient.take 3)).hosts 0).findConnection 2).map Conn.notifySettings =
          some ⟨false, true, false⟩ := by
  decide +kernel

end Host

end Liteflow

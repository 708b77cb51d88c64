import Liteflow.Proof.Ledger

/-!
# The packet entries of a host

Where the entries of all connections are, in which order they wait, and what the counters of the host
say about them: after every event, and also in the middle of a time event, where
`retrans_time_event` is called.
-/

namespace Liteflow

namespace Host

def packets (h : Host) : List PacketEntry :=
  h.connQueue.nodes.flatMap (fun node => node.value.packetList.toList.map Prod.snd)

/-- Every packet entry is in one of the two queues, they hold nothing else, and the counters agree.
-/
structure Accounted (h : Host) : Prop where
  flows_nodup : h.flows.Nodup
  keys_nodup : ∀ flow conn, h.findConnection flow = some conn →
    (conn.packetList.toList.map Prod.fst).Nodup
  one_queue : ∀ flow conn, h.findConnection flow = some conn →
    ∀ key packet, (key, packet) ∈ conn.packetList.toList → packet.seq = key ∧
      conn.waitingQueue.count key = (if packet.isReady then 0 else 1) ∧
      h.retransQueue.entries (flow, key) = (if packet.isReady then 1 else 0)
  waiting_only : ∀ flow conn, h.findConnection flow = some conn → ∀ key ∈ conn.waitingQueue,
    ∃ packet, conn.packetList.treemapValue key = some packet ∧ packet.isReady = false
  retrans_only : ∀ flow key, 0 < h.retransQueue.entries (flow, key) →
    ∃ packet, h.findPacket flow key = some packet ∧ packet.isReady = true
  sorted : ∀ flow conn, h.findConnection flow = some conn →
    (conn.waitingQueue.filterMap conn.packetList.treemapValue).Pairwise
      (fun first second => first.retransTime ≤ second.retransTime)
  inflight_eq : h.inflight.toNat = h.packets.length
  inflightBytes_eq : h.inflightBytes = (h.packets.map (fun packet => packet.length)).sum

variable {h : Host} {flow : U32} {conn : Conn}

theorem lengths_eq (h : Host) : h.lengths = h.packets.map (fun packet => packet.length) := by
  unfold lengths packets Stream.lengths
  rw [List.map_flatMap]
  simp only [List.map_map]
  rfl

theorem keys_nodup_of_sending {c : Stream} {ready : U32 → Nat} {snd fin : Nat}
    {packets : List (Nat × PacketEntry)} (hsending : Sending c ready snd fin packets) :
    (c.packetList.toList.map Prod.fst).Nodup := by
  rw [hsending.keyed.toList_eq, wireEntries, List.map_map, List.Nodup, List.pairwise_map]
  refine (List.Pairwise.and_mem.mp hsending.keyed.sorted).imp fun hlt heq => ?_
  obtain ⟨ha, hb, hlt⟩ := hlt
  exact hlt.ne (hsending.keyed.mem_inj ha hb heq).1

theorem Balanced.accounted (hbal : h.Balanced) (hscheduled : ∀ flow, Scheduled flow (h.view flow)) :
    h.Accounted where
  flows_nodup := hbal.nodup
  keys_nodup := fun flow conn hfind => by
    obtain ⟨snd, fin, packets, hsending⟩ := (hscheduled flow).book.sending (view_stream_of_find hfind)
    exact keys_nodup_of_sending hsending
  one_queue := fun flow conn hfind key packet hmem => by
    obtain ⟨snd, fin, packets, hsending⟩ := (hscheduled flow).book.sending (view_stream_of_find hfind)
    have hwaiting := hsending.waiting_iff hmem
    obtain ⟨p, rfl, he⟩ := hsending.mem_toList.mp hmem
    refine ⟨hsending.seq_eq _ he, ?_, ?_⟩
    · rw [hsending.nodup.count]
      cases hisReady : packet.isReady <;> simp [hwaiting, hisReady]
    · cases hisReady : packet.isReady with
      | true => exact hsending.ready_eq_one _ he hisReady
      | false =>
          refine hsending.ready_eq_zero _ fun e he' hkey => ?_
          rw [(hsending.keyed.mem_inj he' he hkey).2]
          exact hisReady
  waiting_only := fun flow conn hfind key hkey => by
    obtain ⟨snd, fin, packets, hsending⟩ := (hscheduled flow).book.sending (view_stream_of_find hfind)
    obtain ⟨packet, hmem, hisReady⟩ := hsending.exists_waiting hkey
    exact ⟨packet, hsending.value_iff.mpr hmem, hisReady⟩
  retrans_only := fun flow key hpos => by
    have hsender := (hscheduled flow).book.sender
    cases hstream : (h.view flow).stream with
    | none =>
        -- without a connection nothing of the flow is in the queue
        unfold SenderOk at hsender
        rw [hstream] at hsender
        exact absurd (congrFun hsender key) hpos.ne'
    | some c =>
        obtain ⟨snd, fin, packets, hsending⟩ := (hscheduled flow).book.sending hstream
        obtain ⟨p, packet, rfl, -, hisReady, hvalue⟩ := hsending.isReady_of_ready hpos
        refine ⟨packet, ?_, hisReady⟩
        rw [findPacket_eq, hstream, Option.bind_some, hvalue]
  sorted := fun flow conn hfind => by
    have hsorted := (hscheduled flow).sorted _ (view_stream_of_find hfind)
    rw [List.pairwise_filterMap]
    exact hsorted.imp fun hle p hp q hq =>
      hle p q (Treemap.mem_of_treemapValue hp) (Treemap.mem_of_treemapValue hq)
  inflight_eq := by
    rw [hbal.inflight_eq, lengths_eq, List.length_map]
  inflightBytes_eq := by
    rw [hbal.inflightBytes_eq, lengths_eq]

/-! ### In the middle of a time event -/

/-- The host when `litedt_time_event` calls `retrans_time_event` for a connection, after those of
`done`. -/
def beforeRetrans (env : Env) (fuel : Nat) (h : Host) (nextTime : Time) (done : List U32) : Host :=
  let pinged := (h.updateTime env).sendPing env
  let expired :=
    { pinged with timewaitQueue := (expireTimeWait env.now pinged.timewaitQueue).1 }
  let (checked, nextTime) := checkConnectionState env fuel expired.addCredit.ctrlTimeEvent nextTime
  (retransActive checked.curTime done checked nextTime).1

def MovesDue (h : Host) (flow : U32) (time : Time) : Prop :=
  ∀ key, (h.retransTimeEvent flow time).findPacket flow key =
    (h.findPacket flow key).map (PacketEntry.readyBy time)

theorem reaches_beforeRetrans (flow : U32) (env : Env) (fuel : Nat) (h : Host) (nextTime : Time)
    (done : List U32) :
    Reaches flow env (.time fuel) ((h.updateTime env).view flow) (h.updateTime env)
      (h.beforeRetrans env fuel nextTime done) := by
  unfold beforeRetrans
  dsimp only
  refine Reaches.trans ?_ (reaches_retransActive _ done _)
  refine Reaches.trans ?_ (reaches_checkConnectionState rfl nextTime)
  refine Reaches.silent ?_ (view_of_core (core_ctrlTimeEvent.trans core_addCredit))
  exact reaches_sendPing.silent rfl

theorem Balanced.beforeRetrans {env : Env} (hbal : h.Balanced) (fuel : Nat) (nextTime : Time)
    (done : List U32) : (h.beforeRetrans env fuel nextTime done).Balanced := by
  have hexpired := hbal.acts env ((Acts.refl h).expired fun _ => trivial)
  exact (hexpired.checkConnectionState env fuel nextTime).acts env ((Acts.refl _).retransActive _ _ _)

/-- **The packet entries are accounted for.** After every sequence of events, and wherever a time
event then calls `retrans_time_event`, each entry is in exactly one of the two queues, and the
counters agree with the entries of all connections. `retrans_time_event` makes exactly the packets
ready whose time has come, except from `CLOSE_WAIT` on. -/
theorem retransmission_accounted {cfg : Config} (hsize : cfg.bufferSize.toNat < 2 ^ 31)
    (nodeId : U16) (now : Time) (events : List (Env × HostEvent))
    (halloc : ∀ e ∈ events, e.1.alloc.Succeeds) :
    ((litedtInit cfg nodeId now).run events).Accounted ∧
      ∀ (env : Env) (fuel : Nat) (nextTime : Time) (done : List U32) (flow : U32) (conn : Conn)
        (time : Time), env.alloc.Succeeds →
        (((litedtInit cfg nodeId now).run events).beforeRetrans env fuel nextTime
          done).findConnection flow = some conn →
        (((litedtInit cfg nodeId now).run events).beforeRetrans env fuel nextTime done).Accounted ∧
          if conn.state.code < ConnState.closeWait.code then
            (((litedtInit cfg nodeId now).run events).beforeRetrans env fuel nextTime
              done).MovesDue flow time
          else
            (((litedtInit cfg nodeId now).run events).beforeRetrans env fuel nextTime
              done).retransTimeEvent flow time =
                ((litedtInit cfg nodeId now).run events).beforeRetrans env fuel nextTime done := by
  have hbal := balanced_run hsize nodeId now halloc
  have hscheduled := scheduled_run hsize nodeId now halloc
  refine ⟨hbal.accounted hscheduled, fun env fuel nextTime done flow conn time halloc' hfind => ?_⟩
  generalize (litedtInit cfg nodeId now).run events = h at hbal hscheduled hfind ⊢
  have hscheduled' : ∀ flow, Scheduled flow ((h.beforeRetrans env fuel nextTime done).view flow) :=
    fun flow => ((hscheduled flow).setTime env.now).of_reaches halloc'
      (reaches_beforeRetrans flow env fuel h nextTime done)
  refine ⟨(hbal.beforeRetrans fuel nextTime done).accounted hscheduled', ?_⟩
  split
  · exact findPacket_retransTimeEvent (hscheduled' flow) hfind ‹_› time
  · rename_i hstate
    rw [retransTimeEvent, hfind]
    dsimp only
    rw [if_pos (not_lt.mp hstate)]

end Host

/-- The peer answers a ping and opens a flow; the three bytes that the application writes to it are
sent a second later. -/
def threeBytes : List (Env × HostEvent) :=
  [(.plain 0, .time 1),
    (.plain 0, .io (.pingRsp .plain)),
    (.plain 0, .io (.connectReq 7 0)),
    (.plain 0, .call (.send 7 .three)),
    (.plain 1000000, .time 9)]

theorem threeBytes_succeeds : ∀ e ∈ threeBytes, e.1.alloc.Succeeds := by
  simp [threeBytes, Env.plain_succeeds]

/-- The peer closes the flow before it has the acknowledgement. -/
def closedEarly : List (Env × HostEvent) :=
  threeBytes ++ [(.plain 1000000, .io (.closeReq 7 5))]

theorem retransmission_accounted_threeBytes :
    ((Host.litedtInit (.globalConfigInit Config.plainToken) 1 0).run threeBytes).packets.length = 1 ∧
      (((Host.litedtInit (.globalConfigInit Config.plainToken) 1 0).run
        threeBytes).beforeRetrans (.plain 3000000) 9 4000000 []).MovesDue 7 3000000 := by
  obtain ⟨haccounted, hdue⟩ := Host.retransmission_accounted
    (show (Config.globalConfigInit Config.plainToken).bufferSize.toNat < 2 ^ 31 by decide) 1 0
    threeBytes threeBytes_succeeds
  have hone : ((Host.litedtInit (.globalConfigInit Config.plainToken) 1 0).run
      threeBytes).inflight.toNat = 1 := by
    decide +kernel
  have hopen : ((((Host.litedtInit (.globalConfigInit Config.plainToken) 1 0).run
      threeBytes).beforeRetrans (.plain 3000000) 9 4000000 []).findConnection 7).map
        (fun conn => conn.state.code) = some 1 := by
    decide +kernel
  obtain ⟨conn, hfind, hstate⟩ := Option.map_eq_some_iff.mp hopen
  have hmoves := (hdue (.plain 3000000) 9 4000000 [] 7 conn 3000000 (Env.plain_succeeds _) hfind).2
  rw [if_pos (by rw [hstate]; decide)] at hmoves
  exact ⟨haccounted.inflight_eq ▸ hone, hmoves⟩

/-- In `CLOSE_WAIT` a packet stays where it is although its time has come and the time event asks for
its connection. -/
theorem not_movesDue_closedEarly :
    7 ∈ (((Host.litedtInit (.globalConfigInit Config.plainToken) 1 0).run
        closedEarly).beforeRetrans (.plain 3000000) 9 4000000 []).activeQueue.flows ∧
      ¬ (((Host.litedtInit (.globalConfigInit Config.plainToken) 1 0).run
        closedEarly).beforeRetrans (.plain 3000000) 9 4000000 []).MovesDue 7 3000000 := by
  refine ⟨by decide +kernel, fun hmoves => ?_⟩
  have hready := congrArg (Option.map (fun packet => packet.isReady)) (hmoves 0)
  revert hready
  decide +kernel

end Liteflow

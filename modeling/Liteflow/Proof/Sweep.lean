import Liteflow.Proof.RefineGauges
import Liteflow.Proof.RefineTables
import Liteflow.Proof.TimerHeap

/-!
# The sweep over the connections

`check_connection_state` takes the connection at the top of the timers as long as it is due. Whatever
the turn of a connection does, its callbacks included, it only moves this connection up, so the
connection is still at the top when `timerlist_resched_top` comes, and every branch then sets a time
after `cur_time`. The sweep therefore ends, with one turn for each connection that was due.
-/

namespace Liteflow

namespace Host

variable {env : Env} {flow : U32} {h h' : Host} {conn : Conn}

def schedule (h : Host) : List (U32 × Time) :=
  h.connQueue.timers.map (fun timer => (timer.1.key, timer.2))

structure Timed (h : Host) : Prop where
  sorted : h.connQueue.Sorted
  nodup : h.flows.Nodup

theorem flows_eq_schedule (h : Host) : h.flows = h.schedule.map Prod.fst := by
  rw [flows, schedule, List.map_map, ← TimerlistData.timers_map_fst, List.map_map]
  rfl

theorem Timed.of_queue (htimed : h.Timed) (hqueue : h'.connQueue = h.connQueue) : h'.Timed := by
  refine ⟨?_, ?_⟩
  · rw [hqueue]
    exact htimed.sorted
  · rw [flows, hqueue]
    exact htimed.nodup

/-! ### Every run keeps the timers in order -/

theorem Touch.timed (htouch : Touch flow h h') (htimed : h.Timed) : h'.Timed := by
  cases htouch with
  | aside hqueue htime => exact htimed.of_queue hqueue
  | update update =>
      refine ⟨⟨(h.connQueue.timerlistModify flow update).linked, htimed.sorted.ordered⟩, ?_⟩
      rw [flows_modifyConn]
      exact htimed.nodup
  | moveup time =>
      refine ⟨(htimed.sorted.moveup time flow).1, ?_⟩
      rw [flows, Timerlist.nodes_moveup]
      exact htimed.nodup

theorem Touches.timed (hs : Touches flow h h') (htimed : h.Timed) : h'.Timed :=
  hs.preserves (fun _ _ htouch => htouch.timed) htimed

theorem Timed.released (htimed : h.Timed) (hfind : h.findConnection flow = some conn)
    (cause : ReleaseCause) : (h.releaseConnection env cause flow).Timed := by
  have hqueue := connQueue_releaseConnection env hfind cause
  refine ⟨?_, ?_⟩
  · rw [hqueue]
    exact (htimed.sorted.del flow).1
  · rw [flows, hqueue, Timerlist.nodes_del]
    exact htimed.nodup.sublist (List.filter_sublist.map _)

theorem Timed.rescheduled (htimed : h.Timed) (time : Time) :
    Timed { h with connQueue := h.connQueue.timerlistReschedTop time } := by
  refine ⟨?_, ?_⟩
  · by_cases hpos : 0 < h.connQueue.nodeCount
    · exact (htimed.sorted.reschedTop hpos time).1
    · have hsame := (TimerlistData.adjustDown_spec h.connQueue.nodeCount (s := 0)
        (h.connQueue.linked.setTime 0 time)).2.nodeCount_eq
      refine ⟨(h.connQueue.timerlistReschedTop time).linked, fun i _ hi => absurd hi ?_⟩
      change ¬i < ((h.connQueue.setTime 0 time).adjustDown h.connQueue.nodeCount 0).nodeCount
      rw [hsame]
      exact fun hlt => hpos (Nat.zero_lt_of_lt hlt)
  · rw [flows, Timerlist.nodes_reschedTop]
    exact htimed.nodup

theorem touches_releaseAcked (hfind : h.findConnection flow = some conn) (ack : DataAck) :
    Touches flow h (h.releaseAcked env flow ack) := by
  have hmoved := (released_moved env hfind ack).touches
  unfold Host.releaseAcked
  dsimp only
  generalize releaseRanges env flow ack.acks (h.modifyStream flow Stream.establish) {} = ranged
    at hmoved ⊢
  generalize ranged.1.moveWindow env flow ack ranged.2 = moved at hmoved ⊢
  have hkept := (kept_ctrlIoEvent (h := moved.1.generateBandwidth moved.2
    (moved.1.delivered - h.delivered)) moved.2).trans (kept_generateBandwidth moved.2 _)
  exact hmoved.aside (connQueue_of_kept hkept) (curTime_of_kept hkept)

end Host

open Host in
theorem Act.timed {env : Env} {event : HostEvent} {may : Packet → Prop} {h h' : Host}
    (hact : Act env event may h h') (htimed : h.Timed) : h'.Timed := by
  have hsame (flow : U32) : Touches flow h h := .refl h
  cases hact with
  | aside htables hgauges hqueue hbytes => exact htimed.of_queue hqueue
  | send flight credit hmay => exact htimed.of_queue rfl
  | note entry hentry => exact htimed.of_queue rfl
  | wake target time =>
      cases target with
      | none => exact ((hsame 0).modEvtime (.inl rfl) time).timed htimed
      | some flow => exact ((hsame flow).modEvtime (.inr rfl) time).timed htimed
  | update flow update hactive hquiet => exact ((hsame flow).modifyConn update).timed htimed
  | write flow update hfind hpackets =>
      exact ((hsame flow).modifyStream update).activate.timed htimed
  | post flow seq length fecSeq fecIndex hevent hpending =>
      exact ((hsame flow).createPacketEntry seq length fecSeq fecIndex).timed htimed
  | rest flow hmember hfind howes =>
      have hmodified := ((hsame flow).modifyConn (fun c => { c with active := false })).timed htimed
      exact hmodified.of_queue rfl
  | rotate flow hmember => exact htimed.of_queue rfl
  | create flow tunnelId state hnew hfree =>
      refine ⟨(htimed.sorted.push _ flow _).1, ?_⟩
      change ((h.connQueue.timerlistPush _ flow _).nodes.map TimerNode.key).Nodup
      rw [Timerlist.nodes_push, List.map_append]
      refine htimed.nodup.append (List.nodup_singleton _) (List.disjoint_singleton.mpr fun hmem => ?_)
      exact mem_flows.mp hmem hnew
  | release flow cause hfind => exact htimed.released hfind cause
  | expire => exact htimed.of_queue rfl
  | ack flow ack hevent hfind => exact (touches_releaseAcked hfind ack).timed htimed
  | resched time => exact htimed.rescheduled time
  | control => exact htimed.of_queue (connQueue_of_kept kept_ctrlTimeEvent)
  | limit => exact htimed.of_queue rfl

namespace Host

theorem timed_step (h : Host) (env : Env) (event : HostEvent) (htimed : h.Timed) :
    (h.step env event).Timed := by
  obtain ⟨h', hs, hend⟩ := h.acts_step env event
  have htimed' : h'.Timed := hs.preserves (fun _ _ hact => hact.timed) htimed
  rcases hend with heq | ⟨next, heq⟩
  · rw [heq]
    exact htimed'
  · rw [heq]
    exact htimed'.of_queue rfl

theorem timed_run (cfg : Config) (nodeId : U16) (now : Time) (events : List (Env × HostEvent)) :
    ((litedtInit cfg nodeId now).run events).Timed := by
  have hstart : (litedtInit cfg nodeId now).Timed :=
    ⟨⟨Timerlist.timerlistInit.linked, fun i _ hi => absurd hi (Nat.not_lt_zero i)⟩, List.nodup_nil⟩
  generalize litedtInit cfg nodeId now = h at hstart
  induction events generalizing h with
  | nil => exact hstart
  | cons e rest ih => exact ih _ (h.timed_step e.1 e.2 hstart)

end Host

namespace Host

variable {env : Env} {flow : U32} {h h' : Host} {conn : Conn}

/-! ### The connection at the top -/

structure AtTop (flow : U32) (h : Host) : Prop where
  timed : h.Timed
  pos : 0 < h.connQueue.nodeCount
  top : ((h.connQueue.heap 0).node, flow) ∈ h.connQueue.nodes.map (fun n => (n.id, n.key))

theorem AtTop.of_queue (htop : AtTop flow h) (hqueue : h'.connQueue = h.connQueue) :
    AtTop flow h' := by
  refine ⟨htop.timed.of_queue hqueue, ?_, ?_⟩
  · rw [hqueue]
    exact htop.pos
  · rw [hqueue]
    exact htop.top

theorem AtTop.id_iff (htop : AtTop flow h) {n : TimerNode U32 Conn} (hn : n ∈ h.connQueue.nodes) :
    n.id = (h.connQueue.heap 0).node ↔ n.key = flow := by
  obtain ⟨first, hfirst, heq⟩ := List.mem_map.mp htop.top
  obtain ⟨hid, hkey⟩ := Prod.mk.inj heq
  rw [← hid, ← hkey]
  constructor
  · intro hsame
    rw [List.inj_on_of_nodup_map h.connQueue.linked.nodup hn hfirst hsame]
  · intro hsame
    rw [List.inj_on_of_nodup_map htop.timed.nodup hn hfirst hsame]

def retime (flow : U32) (change : Time → Time) (schedule : List (U32 × Time)) : List (U32 × Time) :=
  schedule.map (fun entry => if entry.1 = flow then (entry.1, change entry.2) else entry)

theorem mem_retime_of_ne {schedule : List (U32 × Time)} {change : Time → Time} {entry : U32 × Time}
    (hne : entry.1 ≠ flow) : entry ∈ retime flow change schedule ↔ entry ∈ schedule := by
  constructor
  · intro hmem
    obtain ⟨old, hold, heq⟩ := List.mem_map.mp hmem
    split at heq
    · rename_i hflow
      exact absurd (heq ▸ hflow) hne
    · exact heq ▸ hold
  · exact fun hmem => List.mem_map.mpr ⟨entry, hmem, if_neg hne⟩

theorem schedule_update (update : Conn → Conn) :
    (h.modifyConn flow update).schedule = h.schedule := by
  unfold schedule TimerlistData.timers
  rw [List.map_map, List.map_map]
  exact Timerlist.modifyFirst_map (fun _ _ => rfl) flow update h.connQueue.nodes

theorem schedule_moveup (htimed : h.Timed) (time : Time) :
    schedule { h with connQueue := h.connQueue.timerlistMoveup time flow } =
      retime flow (fun old => min old time) h.schedule := by
  change (h.connQueue.moveup time flow).timers.map _ = _
  rw [(htimed.sorted.moveup time flow).2, schedule, retime, List.map_map, List.map_map]
  refine List.map_congr_left fun timer _ => ?_
  dsimp only [Function.comp_apply]
  split <;> rfl

theorem schedule_reschedTop (htop : AtTop flow h) (time : Time) :
    schedule { h with connQueue := h.connQueue.timerlistReschedTop time } =
      retime flow (fun _ => time) h.schedule := by
  change ((h.connQueue.setTime 0 time).adjustDown h.connQueue.nodeCount 0).timers.map _ = _
  rw [(htop.timed.sorted.reschedTop htop.pos time).2, schedule, retime, TimerlistData.retimed,
    List.map_map, List.map_map]
  refine List.map_congr_left fun timer htimer => ?_
  dsimp only [Function.comp_apply]
  have hiff := htop.id_iff (TimerlistData.timeOf_of_mem htimer).1
  by_cases hkey : timer.1.key = flow
  · rw [if_pos (hiff.mpr hkey), if_pos hkey]
  · rw [if_neg fun hid => hkey (hiff.mp hid), if_neg hkey]

theorem schedule_del (htimed : h.Timed) (hqueue : h'.connQueue = h.connQueue.timerlistDel flow) :
    h'.schedule = h.schedule.filter (fun entry => entry.1 ≠ flow) := by
  rw [schedule, hqueue]
  change (h.connQueue.del flow).timers.map _ = _
  rw [(htimed.sorted.del flow).2, schedule, List.filter_map]
  rfl

theorem Touch.schedule (htouch : Touch flow h h') (htimed : h.Timed) {entry : U32 × Time}
    (hne : entry.1 ≠ flow) : entry ∈ h'.schedule ↔ entry ∈ h.schedule := by
  cases htouch with
  | aside hqueue htime => rw [Host.schedule, hqueue, Host.schedule]
  | update update => rw [schedule_update]
  | moveup time =>
      rw [schedule_moveup htimed]
      exact mem_retime_of_ne hne

theorem Touch.atTop (htouch : Touch flow h h') (htop : AtTop flow h) : AtTop flow h' := by
  cases htouch with
  | aside hqueue htime => exact htop.of_queue hqueue
  | update update =>
      refine ⟨(Touch.update update).timed htop.timed, htop.pos, ?_⟩
      change _ ∈ (Timerlist.modifyFirst flow update h.connQueue.nodes).map _
      rw [Timerlist.modifyFirst_map fun _ _ => rfl]
      exact htop.top
  | moveup time =>
      have hsame := (h.connQueue.linked.moveup time flow).2
      have hroot : ∀ address ∈ h.connQueue.withKey flow, h.connQueue.heapId address = 0 := by
        intro address hmem
        obtain ⟨n, hn, rfl, hkey⟩ := TimerlistData.mem_withKey.mp hmem
        rw [(htop.id_iff hn).mpr hkey]
        exact h.connQueue.linked.index 0 htop.pos
      have hfirst : ((h.connQueue.moveup time flow).heap 0).node = (h.connQueue.heap 0).node :=
        TimerlistData.foldl_moveupNode_top time _ hroot
      refine ⟨(Touch.moveup time).timed htop.timed, ?_, ?_⟩
      · change 0 < (h.connQueue.moveup time flow).nodeCount
        rw [hsame.nodeCount_eq]
        exact htop.pos
      · change (((h.connQueue.moveup time flow).heap 0).node, flow) ∈
          (h.connQueue.moveup time flow).nodes.map _
        rw [hfirst, hsame.nodes_eq]
        exact htop.top

theorem Touches.atTop (hs : Touches flow h h') (htop : AtTop flow h) :
    AtTop flow h' ∧ ∀ entry : U32 × Time, entry.1 ≠ flow →
      (entry ∈ h'.schedule ↔ entry ∈ h.schedule) := by
  refine hs.preserves (P := fun h' => AtTop flow h' ∧ ∀ entry : U32 × Time, entry.1 ≠ flow →
      (entry ∈ h'.schedule ↔ entry ∈ h.schedule)) (fun _ _ htouch hkept => ?_) ⟨htop, fun _ _ => .rfl⟩
  exact ⟨htouch.atTop hkept.1, fun entry hne =>
    (htouch.schedule hkept.1.timed hne).trans (hkept.2 entry hne)⟩

/-! ### One turn -/

/-- The connection is released in its turn: it has been silent for too long, or it is closed, its time
has come and everything has been read. -/
def Expires (flow : U32) (h : Host) : Prop :=
  ∃ conn ∈ h.findConnection flow, connectionTimeout < h.curTime - conn.lastSyncTime ∨
    conn.nextSyncTime ≤ h.curTime ∧ conn.state = .closed ∧ conn.recvBuf.rbufReadableBytes = 0

/-- What the turn of a connection does: the others keep their state and their timers, and this one is
released, or keeps a timer that has not run out. -/
structure Turned (flow : U32) (h h' : Host) : Prop where
  curTime : h'.curTime = h.curTime
  timed : h'.Timed
  conns : ∀ g, g ≠ flow → h'.findConnection g = h.findConnection g
  others : ∀ entry : U32 × Time, entry.1 ≠ flow → (entry ∈ h'.schedule ↔ entry ∈ h.schedule)
  passed : ∀ time, (flow, time) ∈ h'.schedule → h.curTime < time
  expired : h.Expires flow → h'.findConnection flow = none
  kept : ¬h.Expires flow → h'.findConnection flow ≠ none ∧ ∃ time, (flow, time) ∈ h'.schedule

theorem Turned.released {probed : Host} (htop : AtTop flow h) (hs : Touches flow h probed)
    (hfind : probed.findConnection flow = some conn) (cause : ReleaseCause)
    (hexpires : h.Expires flow) :
    Turned flow h (probed.releaseConnection env cause flow) := by
  obtain ⟨htop', hothers⟩ := hs.atTop htop
  have hqueue := connQueue_releaseConnection env hfind cause
  have hschedule := schedule_del htop'.timed hqueue
  refine ⟨?_, htop'.timed.released hfind cause, fun g hne => ?_, fun entry hne => ?_,
    fun time hmem => ?_, fun _ => ?_, absurd hexpires⟩
  · rw [curTime_releaseConnection]
    exact hs.curTime
  · rw [findConnection, hqueue, Timerlist.timerlistGet_del, if_neg hne.symm]
    exact hs.others hne
  · rw [hschedule, List.mem_filter, ← hothers entry hne]
    simp [hne]
  · rw [hschedule, List.mem_filter] at hmem
    simp at hmem
  · rw [findConnection, hqueue, Timerlist.timerlistGet_del, if_pos rfl]

theorem Turned.rescheduled {notified : Host} (htop : AtTop flow h) (hs : Touches flow h notified)
    (hfind : notified.findConnection flow ≠ none) (hlives : ¬h.Expires flow) {time : Time}
    (htime : h.curTime < time) :
    Turned flow h { notified with connQueue := notified.connQueue.timerlistReschedTop time } := by
  obtain ⟨htop', hothers⟩ := hs.atTop htop
  have hschedule := schedule_reschedTop htop' time
  have hfind' : findConnection { notified with
      connQueue := notified.connQueue.timerlistReschedTop time } flow ≠ none := by
    rw [findConnection, Timerlist.timerlistGet_reschedTop]
    exact hfind
  refine ⟨hs.curTime, htop'.timed.rescheduled time, fun g hne => ?_, fun entry hne => ?_,
    fun other hmem => ?_, fun hexpires => absurd hexpires hlives, fun _ => ⟨hfind', ?_⟩⟩
  · rw [findConnection, Timerlist.timerlistGet_reschedTop]
    exact hs.others hne
  · rw [hschedule, mem_retime_of_ne hne]
    exact hothers entry hne
  · rw [hschedule] at hmem
    obtain ⟨old, -, heq⟩ := List.mem_map.mp hmem
    split at heq
    · rw [← (Prod.mk.inj heq).2]
      exact htime
    · rename_i hne
      exact absurd (congrArg Prod.fst heq) hne
  · have hmem := mem_flows.mpr hfind'
    rw [flows_eq_schedule] at hmem
    simpa using hmem

/-! ### The callbacks -/

theorem notifyUser_touches (env : Env) (flow : U32) (h : Host) :
    Touches flow h (h.notifyUser env flow).2.2 ∧
      ((h.notifyUser env flow).1 = 0 → (h.notifyUser env flow).2.1 = 0 →
        (h.notifyUser env flow).2.2 = h) := by
  have hs : Touches flow h h := .refl h
  have hreceived : Touches flow h (h.notifyReadable env flow).2 ∧
      ((h.notifyReadable env flow).1 = 0 → (h.notifyReadable env flow).2 = h) := by
    unfold notifyReadable
    split
    · exact ⟨hs, fun _ => rfl⟩
    · split
      · dsimp only
        split
        · exact ⟨hs, fun _ => rfl⟩
        · rename_i hreadable
          exact ⟨hs.notifyReceive _, fun hzero => absurd hzero hreadable⟩
      · exact ⟨hs, fun _ => rfl⟩
  unfold notifyUser
  generalize h.notifyReadable env flow = readable at hreceived
  obtain ⟨hreceived, hunread⟩ := hreceived
  dsimp only
  split
  · exact ⟨hreceived, fun hzero _ => hunread hzero⟩
  · rename_i conn hfind
    split
    · rename_i hnotify
      dsimp only
      split
      · exact ⟨hreceived, fun hzero _ => hunread hzero⟩
      · rename_i hwritable
        refine ⟨hreceived.notifySend ⟨conn.toStream, view_stream_of_find hfind, ?_⟩ _,
          fun _ hzero => absurd hzero hwritable⟩
        exact hnotify.2.2.trans (Nat.le_succ _)
    · exact ⟨hreceived, fun hzero _ => hunread hzero⟩

theorem Turned.finished {probed : Host} (htop : AtTop flow h) (hs : Touches flow h probed)
    (hfind : probed.findConnection flow = some conn) (hsync : h.curTime < conn.nextSyncTime)
    (hlives : ¬h.Expires flow) {probeTime : Time} (hprobe : 0 < probeTime → h.curTime < probeTime) :
    Turned flow h (probed.finishConnection env flow probeTime) := by
  obtain ⟨hcalled, hsilent⟩ := notifyUser_touches env flow probed
  unfold finishConnection
  generalize probed.notifyUser env flow = result at hcalled hsilent
  obtain ⟨readable, writable, notified⟩ := result
  dsimp only at hcalled hsilent ⊢
  obtain ⟨last, hlast⟩ := hcalled.find ⟨conn, hfind⟩
  rw [hlast]
  refine Turned.rescheduled htop (hs.trans hcalled) (hlast ▸ Option.some_ne_none _) hlives ?_
  split
  · rw [hs.curTime]
    exact Int.lt_add_one_of_le (Int.le_refl _)
  · rename_i hquiet
    obtain ⟨hread, hwrite⟩ := not_or.mp hquiet
    obtain rfl := hsilent (not_not.mp hread) (not_not.mp hwrite)
    obtain rfl : conn = last := Option.some.inj (hfind.symm.trans hlast)
    split
    · rename_i hsooner
      exact hprobe hsooner.1
    · exact hsync

/-! ### The turn of a connection -/

theorem checkAndSendProbes_after (env : Env) (h : Host) (flow : U32) (conn : Conn)
    (hpos : 0 < (h.checkAndSendProbes env flow conn).1) :
    h.curTime < (h.checkAndSendProbes env flow conn).1 := by
  unfold checkAndSendProbes at hpos ⊢
  split_ifs at hpos ⊢ with hclosing hidle hsilent hprobed hwindow hprobed
  · exact absurd hpos (Int.not_lt.mpr (by decide : (-1 : Int) ≤ 0))
  · exact Int.lt_add_of_pos_right _ (by decide)
  · exact Int.lt_add_of_sub_left_lt (not_le.mp hprobed)
  · exact Int.lt_add_of_sub_left_lt (not_le.mp hsilent)
  · exact Int.lt_add_of_pos_right _ (by decide)
  · exact Int.lt_add_of_sub_left_lt (not_le.mp hprobed)
  · exact absurd hpos (Int.not_lt.mpr (by decide : (-1 : Int) ≤ 0))

theorem rearm_after {sent : Host} (hfind : (sent.rearm flow).findConnection flow = some conn) :
    sent.curTime < conn.nextSyncTime := by
  unfold rearm at hfind
  rw [findConnection_modifyConn, if_pos rfl] at hfind
  obtain ⟨old, -, rfl⟩ := Option.map_eq_some_iff.mp hfind
  split
  · exact Int.lt_add_of_pos_right _ (by decide)
  · dsimp only
    split <;> exact Int.lt_add_of_pos_right _ (by decide)

theorem expires_iff (hfind : h.findConnection flow = some conn) :
    h.Expires flow ↔ connectionTimeout < h.curTime - conn.lastSyncTime ∨
      conn.nextSyncTime ≤ h.curTime ∧ conn.state = .closed ∧ conn.recvBuf.rbufReadableBytes = 0 := by
  simp [Expires, hfind]

theorem findConnection_keepalive (seq : U32) :
    (h.litedtDataPost env flow seq 0 0 0 false).2.findConnection = h.findConnection := by
  unfold litedtDataPost
  split_ifs
  · rfl
  · rfl
  · split
    · rfl
    · split
      · rfl
      · dsimp only
        rw [if_neg (by simp), enterPost, if_pos rfl, socketSend]
        split <;> rfl

theorem checkAndSendProbes_find (env : Env) (hfind : h.findConnection flow = some conn) :
    ∃ probesSent lastProbeTime, (h.checkAndSendProbes env flow conn).2.findConnection flow =
      some { conn with probesSent, lastProbeTime } := by
  have hprobe (maxProbes : Nat) : ∃ probesSent lastProbeTime,
      (h.probeWindow env flow conn maxProbes).findConnection flow =
        some { conn with probesSent, lastProbeTime } := by
    unfold probeWindow
    dsimp only
    rw [findConnection_modifyConn, if_pos rfl]
    split
    · rw [findConnection_modifyConn, if_pos rfl, findConnection_keepalive, hfind]
      exact ⟨_, _, rfl⟩
    · rw [hfind]
      exact ⟨_, _, rfl⟩
  have hsame : ∃ probesSent lastProbeTime, h.findConnection flow =
      some { conn with probesSent, lastProbeTime } := ⟨_, _, hfind⟩
  unfold checkAndSendProbes
  split_ifs
  · exact hsame
  · exact hprobe keepaliveProbes
  · exact hsame
  · exact hsame
  · exact hprobe zeroWindowProbes
  · exact hsame
  · exact hsame

theorem synchronize_eq_none : h.synchronize flow conn = none ↔
    conn.state = .closed ∧ conn.recvBuf.rbufReadableBytes = 0 := by
  unfold synchronize
  cases conn.state <;> simp

theorem turned_checkConnection (env : Env) (htop : AtTop flow h)
    (hfind : h.findConnection flow = some conn) : Turned flow h (h.checkConnection env flow conn) := by
  have hsame : Touches flow h h := .refl h
  have hprobes : Touches flow h (h.checkAndSendProbes env flow conn).2 :=
    hsame.checkAndSendProbes conn
  have hafter := checkAndSendProbes_after env h flow conn
  have hexpires : h.Expires flow ↔ _ := expires_iff hfind
  unfold checkConnection
  split
  · rename_i hsilent
    exact .released htop hsame hfind _ (hexpires.mpr (.inl hsilent))
  · rename_i hheard
    obtain ⟨probesSent, lastProbeTime, hprobed⟩ := checkAndSendProbes_find env hfind
    generalize h.checkAndSendProbes env flow conn = result at hprobes hafter hprobed
    obtain ⟨probeTime, probed⟩ := result
    dsimp only at hprobes hafter hprobed ⊢
    rw [hprobed]
    dsimp only
    split
    · rename_i hdue
      cases hsent : probed.synchronize flow { conn with probesSent, lastProbeTime } with
      | none =>
          exact .released htop hprobes hprobed _
            (hexpires.mpr (.inr ⟨hdue, synchronize_eq_none.mp hsent⟩))
      | some sent =>
          have hsynced := hprobes.synchronize hsent
          have harmed : Touches flow h (sent.rearm flow) := hsynced.modifyConn _
          obtain ⟨armedConn, hfound⟩ := harmed.find ⟨conn, hfind⟩
          refine .finished htop harmed hfound ?_ (fun hends => ?_) hafter
          · rw [← hsynced.curTime]
            exact rearm_after hfound
          · have hdrained := (hexpires.mp hends).resolve_left hheard
            exact absurd (synchronize_eq_none.mpr hdrained.2) (hsent ▸ Option.some_ne_none sent)
    · rename_i hlater
      refine .finished htop hprobes hprobed (not_le.mp hlater) (fun hends => ?_) hafter
      exact hlater ((hexpires.mp hends).resolve_left hheard).1

/-! ### The sweep -/

def due (h : Host) : List U32 :=
  (h.schedule.filter (fun entry => entry.2 ≤ h.curTime)).map Prod.fst

theorem mem_due {h : Host} {flow : U32} :
    flow ∈ h.due ↔ ∃ time, (flow, time) ∈ h.schedule ∧ time ≤ h.curTime := by
  simp [due]

theorem Timed.due_nodup (htimed : h.Timed) : h.due.Nodup := by
  have hnodup := htimed.nodup
  rw [flows_eq_schedule] at hnodup
  exact hnodup.sublist (List.filter_sublist.map _)

theorem Turned.mem_due (hturned : Turned flow h h') {g : U32} :
    g ∈ h'.due ↔ g ∈ h.due ∧ g ≠ flow := by
  rw [Host.mem_due, Host.mem_due, hturned.curTime]
  constructor
  · rintro ⟨time, hmem, hle⟩
    have hne : g ≠ flow := by
      rintro rfl
      exact absurd hle (not_le.mpr (hturned.passed time hmem))
    exact ⟨⟨time, (hturned.others (g, time) hne).mp hmem, hle⟩, hne⟩
  · rintro ⟨⟨time, hmem, hle⟩, hne⟩
    exact ⟨time, (hturned.others (g, time) hne).mpr hmem, hle⟩

theorem Timed.top_cases (htimed : h.Timed) :
    h.connQueue.timerlistTop = none ∧ h.schedule = [] ∨
    ∃ time flow conn, h.connQueue.timerlistTop = some (time, flow) ∧ AtTop flow h ∧
      (flow, time) ∈ h.schedule ∧ (∀ entry ∈ h.schedule, time ≤ entry.2) ∧
      h.findConnection flow = some conn := by
  by_cases hcount : h.connQueue.nodeCount = 0
  · refine .inl ⟨if_pos hcount, ?_⟩
    rw [schedule, htimed.sorted.linked.nodeCount_eq_zero.mp hcount]
    rfl
  · have hpos := Nat.pos_of_ne_zero hcount
    obtain ⟨n, hn, hid, htimer⟩ := htimed.sorted.linked.mem_timers hpos
    have hfirst : h.connQueue.nodes.find? (fun m => m.id = (h.connQueue.heap 0).node) = some n := by
      cases hfound : h.connQueue.nodes.find? (fun m => m.id = (h.connQueue.heap 0).node) with
      | none => exact absurd hid (by simpa using List.find?_eq_none.mp hfound n hn)
      | some m =>
          have hm : m.id = (h.connQueue.heap 0).node := by simpa using List.find?_some hfound
          rw [List.inj_on_of_nodup_map h.connQueue.linked.nodup (List.mem_of_find?_eq_some hfound) hn
            (hm.trans hid.symm)]
    have hfound : h.findConnection n.key ≠ none :=
      mem_flows.mp (List.mem_map_of_mem hn)
    obtain ⟨conn, hfind⟩ := Option.ne_none_iff_exists'.mp hfound
    refine .inr ⟨h.connQueue.times 0, n.key, conn, ?_, ⟨htimed, hpos, ?_⟩, ?_, fun entry hmem => ?_, hfind⟩
    · rw [Timerlist.timerlistTop, if_neg hcount, hfirst]
      rfl
    · exact List.mem_map.mpr ⟨n, hn, by rw [hid]⟩
    · exact List.mem_map.mpr ⟨_, htimer, rfl⟩
    · obtain ⟨timer, htimer, rfl⟩ := List.mem_map.mp hmem
      exact htimed.sorted.top_le htimer

/-- A sweep: the turns of `flows`, one after another, each of a connection that is due then, until no
timer is due. -/
inductive Sweeps (env : Env) : Host → List U32 → Host → Prop where
  | done {h : Host} (hnone : h.due = []) : Sweeps env h [] h
  | turn {h h' : Host} {flow : U32} {conn : Conn} {flows : List U32}
      (hdue : flow ∈ h.due) (hfind : h.findConnection flow = some conn)
      (hturned : Turned flow h (h.checkConnection env flow conn))
      (hrest : Sweeps env (h.checkConnection env flow conn) flows h') :
      Sweeps env h (flow :: flows) h'

theorem Sweeps.curTime {flows : List U32} (hsweeps : Sweeps env h flows h') : h'.curTime = h.curTime := by
  induction hsweeps with
  | done hnone => rfl
  | turn hdue hfind hturned hrest ih => exact ih.trans hturned.curTime

theorem Turned.due_perm (htimed : h.Timed) (hdue : flow ∈ h.due) (hturned : Turned flow h h') :
    (flow :: h'.due).Perm h.due := by
  have hnodup : (flow :: h'.due).Nodup :=
    List.nodup_cons.mpr ⟨fun hmem => (hturned.mem_due.mp hmem).2 rfl, hturned.timed.due_nodup⟩
  refine (List.perm_ext_iff_of_nodup hnodup htimed.due_nodup).mpr fun g => ?_
  rw [List.mem_cons, hturned.mem_due]
  constructor
  · rintro (rfl | ⟨hmem, -⟩)
    · exact hdue
    · exact hmem
  · intro hmem
    by_cases heq : g = flow
    · exact .inl heq
    · exact .inr ⟨hmem, heq⟩

theorem Timed.loop_cases (env : Env) (htimed : h.Timed) :
    (h.due = [] ∧ ∀ fuel, checkConnectionLoop env fuel h = h) ∨
    ∃ flow conn, flow ∈ h.due ∧ AtTop flow h ∧ h.findConnection flow = some conn ∧
      ∀ fuel, checkConnectionLoop env (fuel + 1) h =
        checkConnectionLoop env fuel (h.checkConnection env flow conn) := by
  rcases htimed.top_cases with ⟨htop, hnil⟩ | ⟨time, flow, conn, htop, hat, hmem, hleast, hfind⟩
  · refine .inl ⟨?_, fun fuel => ?_⟩
    · rw [due, hnil]
      rfl
    · cases fuel with
      | zero => rfl
      | succ fuel => rw [checkConnectionLoop, htop]
  · by_cases hlater : h.curTime < time
    · refine .inl ⟨List.eq_nil_iff_forall_not_mem.mpr fun g hg => ?_, fun fuel => ?_⟩
      · obtain ⟨other, hother, hle⟩ := mem_due.mp hg
        exact absurd (hle.trans_lt hlater) (not_lt.mpr (hleast _ hother))
      · cases fuel with
        | zero => rfl
        | succ fuel =>
            rw [checkConnectionLoop, htop]
            exact if_pos hlater
    · refine .inr ⟨flow, conn, mem_due.mpr ⟨time, hmem, not_lt.mp hlater⟩, hat, hfind, fun fuel => ?_⟩
      rw [checkConnectionLoop, htop]
      dsimp only
      rw [if_neg hlater, hfind]

theorem sweeps_loop (env : Env) (htimed : h.Timed) :
    ∃ flows swept, Sweeps env h flows swept ∧ flows.Perm h.due ∧ swept.due = [] ∧
      ∀ fuel, h.due.length ≤ fuel → checkConnectionLoop env fuel h = swept := by
  -- the induction is on the number of connections that are due: every turn makes it smaller
  induction hcount : h.due.length using Nat.strong_induction_on generalizing h with
  | _ count ih =>
      rcases htimed.loop_cases env with ⟨hnone, hloop⟩ | ⟨flow, conn, hdue, hat, hfind, hloop⟩
      · exact ⟨[], h, .done hnone, hnone ▸ .refl _, hnone, fun fuel _ => hloop fuel⟩
      · have hturned := turned_checkConnection env hat hfind
        have hperm := hturned.due_perm htimed hdue
        have hlength : _ + 1 = h.due.length := hperm.length_eq
        obtain ⟨flows, swept, hsweeps, hrest, hnone, hswept⟩ :=
          ih _ (hcount ▸ hlength ▸ Nat.lt_succ_self _) hturned.timed rfl
        refine ⟨flow :: flows, swept, .turn hdue hfind hturned hsweeps, (hrest.cons flow).trans hperm,
          hnone, fun fuel hfuel => ?_⟩
        obtain ⟨fuel, rfl⟩ : ∃ rest, fuel = rest + 1 := ⟨fuel - 1, by omega⟩
        rw [hloop]
        exact hswept fuel (by omega)

end Host

/-- **The connection sweep ends and handles each due connection once.** From every state with timers
in order, which all reachable ones are, `check_connection_state` takes exactly the connections that
are due, in some order and each once, leaves the others as they are, and ends when no timer is due.
-/
theorem checkConnectionState_sweeps :
    (∀ (cfg : Config) (nodeId : U16) (now : Time) (events : List (Env × HostEvent)),
      ((Host.litedtInit cfg nodeId now).run events).Timed) ∧
    ∀ (env : Env) (h : Host), h.Timed → ∃ flows swept,
      h.Sweeps env flows swept ∧ flows.Nodup ∧
      (∀ flow, flow ∈ flows ↔ ∃ time, (flow, time) ∈ h.schedule ∧ time ≤ h.curTime) ∧
      swept.curTime = h.curTime ∧ (∀ entry ∈ swept.schedule, swept.curTime < entry.2) ∧
      ∀ fuel nextTime, flows.length ≤ fuel →
        (Host.checkConnectionState env fuel h nextTime).1 = swept := by
  refine ⟨Host.timed_run, fun env h htimed => ?_⟩
  obtain ⟨flows, swept, hsweeps, hperm, hnone, hloop⟩ := Host.sweeps_loop env htimed
  refine ⟨flows, swept, hsweeps, hperm.nodup_iff.mpr htimed.due_nodup,
    fun flow => hperm.mem_iff.trans Host.mem_due, hsweeps.curTime, fun entry hmem => ?_,
    fun fuel nextTime hfuel => ?_⟩
  · by_contra hlate
    have hdue : entry.1 ∈ swept.due := Host.mem_due.mpr ⟨entry.2, hmem, not_lt.mp hlate⟩
    rw [hnone] at hdue
    exact List.not_mem_nil hdue
  · unfold Host.checkConnectionState
    dsimp only
    rw [hloop fuel (hperm.length_eq ▸ hfuel)]
    split <;> rfl

/-- Two connections that have just been opened are both due. -/
theorem checkConnectionState_sweeps_opened :
    let h := (Host.litedtInit (.globalConfigInit Config.plainToken) 1 0).run [
      (.plain 0, .time 1),
      (.plain 1, .io (.pingRsp .plain)),
      (.plain 2, .call (.connect 7 0)),
      (.plain 3, .call (.connect 8 0)),
      (.plain 4, .io (.closeRsp 9))]
    h.due = [7, 8] ∧ ∃ flows swept,
      h.Sweeps (.plain 4) flows swept ∧ flows.Nodup ∧
      (∀ flow, flow ∈ flows ↔ ∃ time, (flow, time) ∈ h.schedule ∧ time ≤ h.curTime) ∧
      swept.curTime = h.curTime ∧ (∀ entry ∈ swept.schedule, swept.curTime < entry.2) ∧
      ∀ fuel nextTime, flows.length ≤ fuel →
        (Host.checkConnectionState (.plain 4) fuel h nextTime).1 = swept :=
  ⟨by decide +kernel,
    checkConnectionState_sweeps.2 (.plain 4) _ (checkConnectionState_sweeps.1 _ 1 0 _)⟩

end Liteflow

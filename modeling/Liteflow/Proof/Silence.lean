import Liteflow.Proof.Release

/-!
# When a connection times out

`check_connection_state` releases a connection when `last_sync_time` is older than
`CONNECTION_TIMEOUT`. The time is set when the connection is created and when an acknowledgement
inside the window arrives, and by no other datagram: a flow that is only sending data to the host is
heard of and times out.
-/

namespace Liteflow

def heard (flow : U32) (events : List (Env × HostEvent)) : List Time :=
  events.filterMap fun e =>
    match e.2 with
    | .io packet => if packet.flow? = some flow then some e.1.now else none
    | _ => none

def Event.isTimeout (flow : U32) : Event → Bool
  | released g .timeout _ => g = flow
  | _ => false

namespace Host

/-- An acknowledgement that `litedt_on_data_ack` takes, or the creation of the connection. -/
def refreshes (flow : U32) (h : Host) (env : Env) (event : HostEvent) : Bool :=
  (match event, h.findConnection flow with
    | .io (.dataAck g ack), some conn =>
        g = flow && conn.inWindow ack && (conn.moveSwin env.alloc.node env.now ack).isSome
    | _, _ => false) ||
  h.incarnations flow < (h.step env event).incarnations flow

def refreshed (flow : U32) : Host → List (Env × HostEvent) → List Time
  | _, [] => []
  | h, e :: rest =>
      (if h.refreshes flow e.1 e.2 then [e.1.now] else []) ++
        refreshed flow (h.step e.1 e.2) rest

def timeouts (h : Host) (flow : U32) : Nat :=
  h.log.countP (Event.isTimeout flow)

/-- Whenever a connection is released by its timer, nothing of the flow has arrived for
`CONNECTION_TIMEOUT`. -/
def TimesOutOnSilence (flow : U32) (h : Host) (events : List (Env × HostEvent)) : Prop :=
  ∀ i, (hi : i < events.length) →
    (h.run (events.take i)).timeouts flow < (h.run (events.take (i + 1))).timeouts flow →
      ∀ t ∈ heard flow (events.take i), connectionTimeout < events[i].1.now - t

/-- A flow that has been heard of during `CONNECTION_TIMEOUT` was created, or had an acknowledgement
inside its window, during that time. -/
def HearsAcks (flow : U32) (h : Host) (events : List (Env × HostEvent)) : Prop :=
  ∀ i, (hi : i < events.length) → events[i].2.isTime →
    (∃ t ∈ heard flow (events.take i), events[i].1.now - t ≤ connectionTimeout) →
      ∃ r ∈ h.refreshed flow (events.take i), events[i].1.now - r ≤ connectionTimeout

instance (flow : U32) (h : Host) (events : List (Env × HostEvent)) :
    Decidable (h.HearsAcks flow events) :=
  inferInstanceAs (Decidable (∀ i, (hi : i < events.length) → events[i].2.isTime →
    (∃ t ∈ heard flow (events.take i), events[i].1.now - t ≤ connectionTimeout) →
      ∃ r ∈ h.refreshed flow (events.take i), events[i].1.now - r ≤ connectionTimeout))

instance (flow : U32) (h : Host) (events : List (Env × HostEvent)) :
    Decidable (h.TimesOutOnSilence flow events) :=
  inferInstanceAs (Decidable (∀ i, (hi : i < events.length) →
    (h.run (events.take i)).timeouts flow < (h.run (events.take (i + 1))).timeouts flow →
      ∀ t ∈ heard flow (events.take i), connectionTimeout < events[i].1.now - t))

end Host

section Moves

variable {flow : U32} {env : Env} {event : HostEvent} {start v v' : FlowState} {rs : List Time}

structure SyncMoves (flow : U32) (env : Env) (event : HostEvent) (rs : List Time)
    (start v : FlowState) : Prop where
  clock : (∃ packet, event = .io packet) ∨ event.isTime = true → v.curTime = env.now
  synced : ∀ c, v.stream = some c → ∀ r ∈ rs, r ≤ c.lastSyncTime
  created : v.log.countP (Event.isCreated flow) = start.log.countP (Event.isCreated flow) ∨
    ∀ c, v.stream = some c → env.now ≤ c.lastSyncTime
  timeouts : v.log.countP (Event.isTimeout flow) = start.log.countP (Event.isTimeout flow) ∨
    event.isTime = true ∧ ∀ r ∈ rs, connectionTimeout < env.now - r

theorem SyncMoves.of_same (hrs : ∀ r ∈ rs, r ≤ env.now) (hinv : SyncMoves flow env event rs start v)
    (htime : v'.curTime = v.curTime)
    (hlog : ∃ es, v'.log = v.log ++ es ∧
      ∀ e ∈ es, Event.isCreated flow e = false ∧ Event.isTimeout flow e = false)
    (hstream : ∀ c', v'.stream = some c' →
      (∃ c, v.stream = some c ∧ c'.lastSyncTime = c.lastSyncTime) ∨ c'.lastSyncTime = env.now) :
    SyncMoves flow env event rs start v' := by
  obtain ⟨es, hes, hevents⟩ := hlog
  have hcount : ∀ p : Event → Bool, (∀ e ∈ es, p e = false) → v'.log.countP p = v.log.countP p := by
    intro p hp
    have hzero : es.countP p = 0 := List.countP_eq_zero.mpr (by simpa using hp)
    rw [hes, List.countP_append, hzero, Nat.add_zero]
  refine ⟨fun h => htime.trans (hinv.clock h), fun c' hc' r hr => ?_, ?_, ?_⟩
  · rcases hstream c' hc' with ⟨c, hc, hsync⟩ | hsync
    · rw [hsync]
      exact hinv.synced c hc r hr
    · rw [hsync]
      exact hrs r hr
  · rw [hcount _ fun e he => (hevents e he).1]
    refine hinv.created.imp id fun hcreated c' hc' => ?_
    rcases hstream c' hc' with ⟨c, hc, hsync⟩ | hsync
    · exact hsync ▸ hcreated c hc
    · exact hsync.ge
  · rw [hcount _ fun e he => (hevents e he).2]
    exact hinv.timeouts

theorem SyncMoves.of_senderFrame (hrs : ∀ r ∈ rs, r ≤ env.now)
    (hinv : SyncMoves flow env event rs start v) (hframe : SenderFrame flow event v v') :
    SyncMoves flow env event rs start v' := by
  refine hinv.of_same hrs hframe.curTime_eq ?_ fun c' hc' => ?_
  · obtain ⟨es, hes, hevents⟩ := hframe.log
    refine ⟨es, hes, fun e he => ?_⟩
    have := hevents e he
    cases e <;> simp_all [Event.OfSender, Event.isCreated, Event.isTimeout]
  · have hrel := hframe.stream
    rw [hc'] at hrel
    obtain ⟨c, hc, hsame⟩ := exists_of_rel_some hrel
    rcases hsame.sync with hsync | ⟨ack, hevent, hsync⟩
    · exact .inl ⟨c, hc, hsync⟩
    · exact .inr (hsync.trans (hinv.clock (.inl ⟨_, hevent⟩)))

theorem SyncMoves.of_receiverFrame (hrs : ∀ r ∈ rs, r ≤ env.now)
    (hinv : SyncMoves flow env event rs start v) (hframe : ReceiverFrame flow v v') :
    SyncMoves flow env event rs start v' := by
  refine hinv.of_same hrs hframe.curTime_eq ?_ fun c' hc' => ?_
  · obtain ⟨es, hes, hevents⟩ := hframe.log
    refine ⟨es, hes, fun e he => ?_⟩
    have := hevents e he
    cases e <;> simp_all [Event.OfReceiver, Event.isCreated, Event.isTimeout]
  · have hrel := hframe.stream
    rw [hc'] at hrel
    obtain ⟨c, hc, hsame⟩ := exists_of_rel_some hrel
    exact .inl ⟨c, hc, hsame.lastSyncTime_eq⟩

theorem SyncMoves.of_log_eq (hrs : ∀ r ∈ rs, r ≤ env.now)
    (hinv : SyncMoves flow env event rs start v) (htime : v'.curTime = v.curTime)
    (hlog : v'.log = v.log)
    (hstream : ∀ c', v'.stream = some c' → ∃ c, v.stream = some c ∧
      c'.lastSyncTime = c.lastSyncTime) : SyncMoves flow env event rs start v' :=
  hinv.of_same hrs htime ⟨[], by simp [hlog], by simp⟩ fun c' hc' => .inl (hstream c' hc')

theorem SyncMoves.of_controlMove (hrs : ∀ r ∈ rs, r ≤ env.now)
    (hinv : SyncMoves flow env event rs start v) (hmove : ControlMove flow env event v v') :
    SyncMoves flow env event rs start v' := by
  cases hmove.shape with
  | @create state tunnelId hstream =>
      have hsync : ∀ c', some (Host.newConn v.cfg env.now tunnelId state).toStream = some c' →
          c'.lastSyncTime = env.now := by
        intro c' hc'
        obtain rfl := Option.some.inj hc'
        rfl
      refine ⟨hinv.clock, fun c' hc' r hr => ?_, .inr fun c' hc' => (hsync c' hc').ge, ?_⟩
      · rw [hsync c' hc']
        exact hrs r hr
      · simpa [FlowState.note, FlowState.withStream, Event.isTimeout] using hinv.timeouts
  | @release c cause hstream hreleases =>
      refine ⟨hinv.clock, by simp, .inr (by simp), ?_⟩
      cases hreleases with
      | timeout hevent hlate =>
          have htime : event.isTime = true := by rw [hevent]; rfl
          refine .inr ⟨htime, fun r hr => hlate.trans_le ?_⟩
          rw [hinv.clock (.inr htime)]
          exact sub_le_sub_left (hinv.synced c hstream r hr) _
      | _ => simpa [FlowState.note, Event.isTimeout] using hinv.timeouts
  | @turn c out state confirmed hstream hout =>
      refine hinv.of_log_eq hrs rfl rfl fun c' hc' => ⟨c, hstream, ?_⟩
      exact Option.some.inj hc' ▸ rfl
  | send hout => exact hinv.of_log_eq hrs rfl rfl fun c' hc' => ⟨c', hc', rfl⟩

theorem SyncMoves.of_move (hrs : ∀ r ∈ rs, r ≤ env.now)
    (hmove : Move flow env event start v v') (hinv : SyncMoves flow env event rs start v) :
    SyncMoves flow env event rs start v' := by
  cases hmove with
  | sender hmove => exact hinv.of_senderFrame hrs hmove.frame
  | ack hmove => exact hinv.of_senderFrame hrs hmove.frame
  | receiver hmove => exact hinv.of_receiverFrame hrs hmove.frame
  | control hmove => exact hinv.of_controlMove hrs hmove
  | session hmove =>
      cases hmove with
      | pingReq => exact hinv.of_log_eq hrs rfl rfl fun c' hc' => ⟨c', hc', rfl⟩
      | pingRsp hevent htoken => exact hinv.of_log_eq hrs rfl rfl fun c' hc' => ⟨c', hc', rfl⟩
      | accept hevent hid htime hnode htoken =>
          exact hinv.of_same hrs rfl ⟨[_], rfl, by simp [Event.isCreated, Event.isTimeout]⟩
            fun c' hc' => .inl ⟨c', hc', rfl⟩
      | offline => exact hinv.of_log_eq hrs rfl rfl fun c' hc' => ⟨c', hc', rfl⟩
      | finalise hevent => exact hinv.of_log_eq hrs rfl rfl fun c' hc' => ⟨c', hc', rfl⟩
  | foreignSend flight hflow hping =>
      exact hinv.of_log_eq hrs rfl rfl fun c' hc' => ⟨c', hc', rfl⟩
  | foreignNote note hflow hping =>
      refine hinv.of_same hrs rfl ⟨[note], rfl, ?_⟩ fun c' hc' => .inl ⟨c', hc', rfl⟩
      simp only [List.mem_singleton, forall_eq]
      constructor
      · unfold Event.isCreated
        split
        · simpa [Event.flow?] using hflow
        · rfl
      · unfold Event.isTimeout
        split
        · simpa [Event.flow?] using hflow
        · rfl

end Moves

/-! ### An acknowledgement inside the window -/

namespace Host

variable {flow : U32} {env : Env} {event : HostEvent} {h : Host} {events : List (Env × HostEvent)}

theorem releaseRanges_relisted (env : Env) {c : Stream} (hstream : (h.view flow).stream = some c)
    (ranges : List (U32 × U32)) (rs : RateSample) :
    ∃ c', Relisted c c' ∧ (releaseRanges env flow ranges h rs).1.view flow =
      { h.view flow with
        stream := some c'
        ready := ((releaseRanges env flow ranges h rs).1.view flow).ready } := by
  unfold releaseRanges
  induction ranges generalizing h rs c with
  | nil =>
      refine ⟨c, Stream.relisted_refl c, ?_⟩
      rw [← hstream]
      rfl
  | cons range rest ih =>
      obtain ⟨conn, hfind, rfl⟩ := (h.view_stream_eq_some flow).mp hstream
      have hview : (h.releasePacketRange env flow range.1 range.2 rs).1.view flow =
          { h.view flow with
            stream := some (conn.releaseRange range.1 range.2).1
            ready := unready (h.view flow).ready (conn.releaseRange range.1 range.2).2 } := by
        unfold releasePacketRange
        rw [hfind]
        exact view_releasePackets_self hfind _ rs
      rw [List.foldl_cons]
      obtain ⟨c', hrelisted, hrest⟩ := ih (congrArg FlowState.stream hview)
        (h.releasePacketRange env flow range.1 range.2 rs).2
      refine ⟨c', Stream.Relisted.trans (conn.relisted_releaseRange range.1 range.2) hrelisted, ?_⟩
      refine hrest.trans ?_
      rw [hview]

theorem moveWindow_sync (env : Env) {c moved : Stream} {ack : DataAck}
    (hstream : (h.view flow).stream = some c)
    (hwindow : c.inWindow ack = true)
    (hmoved : c.moveSwin env.alloc.node h.curTime ack = some moved) (rs : RateSample) :
    ∃ c', ((h.moveWindow env flow ack rs).1.view flow).stream = some c' ∧
      c'.lastSyncTime = h.curTime := by
  obtain ⟨conn, hfind, rfl⟩ := (h.view_stream_eq_some flow).mp hstream
  have hsync : (moved.checkpoint ack.winStart).1.lastSyncTime = h.curTime := by
    obtain ⟨list, queue, heq⟩ := moved.relisted_checkpoint ack.winStart
    obtain ⟨sendBuf, acked, rfl⟩ := Stream.moveSwin_eq hmoved
    rw [heq]
  refine ⟨_, ?_, hsync⟩
  unfold moveWindow
  rw [hfind]
  dsimp only
  rw [if_pos hwindow, hmoved]
  dsimp only
  obtain ⟨conn', hfind', hstream'⟩ : ∃ conn', (h.modifyConn flow (fun c =>
      { c with toStream := moved, probesSent := 0 })).findConnection flow = some conn' ∧
      conn'.toStream = moved := by
    rw [findConnection_modifyConn, if_pos rfl, hfind]
    exact ⟨_, rfl, rfl⟩
  unfold retransCheckpoint
  rw [hfind']
  dsimp only
  rw [view_releasePackets_self hfind', hstream']

theorem taken_relisted {c c' : Stream} (hrelisted : Relisted c.establish c') (nodeAlloc : Bool)
    (now : Time) (ack : DataAck) :
    c'.inWindow ack = c.inWindow ack ∧
      (c'.moveSwin nodeAlloc now ack).isSome = (c.moveSwin nodeAlloc now ack).isSome := by
  obtain ⟨list, queue, rfl⟩ := hrelisted
  have hframe := c.sendFrame_establish
  constructor
  · simp [Stream.inWindow, hframe.swinStart_eq, hframe.sendSeq_eq]
  · unfold Stream.moveSwin
    dsimp only
    rw [hframe.sendBuf_eq]
    split <;> simp

theorem onDataAck_sync {conn : Conn} {ack : DataAck} (hclock : h.curTime = env.now)
    (hfind : h.findConnection flow = some conn) (hwindow : conn.inWindow ack = true)
    (hmoved : (conn.moveSwin env.alloc.node env.now ack).isSome = true) :
    (h.litedtOnDataAck env flow ack).1 = 0 ∧
      ∀ c, ((h.litedtOnDataAck env flow ack).2.view flow).stream = some c →
        env.now ≤ c.lastSyncTime := by
  have hview := view_modifyStream_self hfind Stream.establish
  obtain ⟨c, hrelisted, hranged⟩ :=
    releaseRanges_relisted env (congrArg FlowState.stream hview) ack.acks {}
  unfold litedtOnDataAck
  rw [hfind]
  dsimp only
  generalize releaseRanges env flow ack.acks (h.modifyStream flow Stream.establish) {} = ranged
    at hranged ⊢
  obtain ⟨hwin, hsome⟩ := taken_relisted hrelisted env.alloc.node env.now ack
  have hcur : ranged.1.curTime = env.now :=
    (congrArg FlowState.curTime hranged).trans ((congrArg FlowState.curTime hview).trans hclock)
  obtain ⟨moved, hmoved⟩ := Option.isSome_iff_exists.mp (hsome.trans hmoved)
  obtain ⟨c', hstream', hsync⟩ := moveWindow_sync env (congrArg FlowState.stream hranged)
    (hwin.trans hwindow) (hcur ▸ hmoved) ranged.2
  generalize ranged.1.moveWindow env flow ack ranged.2 = window at hstream' ⊢
  have hcontrolled : ∀ delivered, (((window.1.generateBandwidth window.2 delivered).ctrlIoEvent
      window.2).view flow).stream = some c' := fun delivered => by simpa using hstream'
  specialize hcontrolled (window.1.delivered - h.delivered)
  generalize (window.1.generateBandwidth window.2 (window.1.delivered - h.delivered)).ctrlIoEvent
    window.2 = controlled at hcontrolled ⊢
  have hfresh : ∀ c, (controlled.view flow).stream = some c → env.now ≤ c.lastSyncTime := by
    intro c hc
    obtain rfl := Option.some.inj (hcontrolled.symm.trans hc)
    exact (hsync.trans hcur).ge
  split
  · exact ⟨rfl, hfresh⟩
  · rename_i conn' hfind'
    split
    · refine ⟨rfl, ?_⟩
      -- The callback keeps what the acknowledgement has set.
      have hreaches : Reaches flow env .fini (controlled.view flow) controlled
          (controlled.notifySend env flow conn'.sendBuf.rbufWritableBytes) := reaches_notifySend _
      have hkept := moves_preserves (fun _ _ => SyncMoves.of_move (by simp)) hreaches
        (⟨by simp [HostEvent.isTime], by simpa using hfresh, .inl rfl, .inl rfl⟩ :
          SyncMoves flow env .fini [env.now] (controlled.view flow) (controlled.view flow))
      exact fun c hc => hkept.synced c hc env.now (by simp)
    · exact ⟨rfl, hfresh⟩

/-! ### Runs -/

theorem syncMoves_step {rs : List Time} (hrs : ∀ r ∈ rs, r ≤ env.now)
    (hsynced : ∀ c, (h.view flow).stream = some c → ∀ r ∈ rs, r ≤ c.lastSyncTime) :
    SyncMoves flow env event rs ((h.began env event).view flow) ((h.step env event).view flow) := by
  refine step_preserves (fun _ _ => SyncMoves.of_move hrs) ⟨?_, ?_, .inl rfl, .inl rfl⟩
  · rintro (⟨packet, rfl⟩ | htime)
    · rfl
    · cases event with
      | time fuel => rfl
      | call call => simp [HostEvent.isTime] at htime
      | io packet => rfl
      | fini => simp [HostEvent.isTime] at htime
  · cases event <;> exact hsynced

theorem refreshes_sync (hrefreshes : h.refreshes flow env event = true) :
    ∀ c, ((h.step env event).view flow).stream = some c → env.now ≤ c.lastSyncTime := by
  unfold refreshes at hrefreshes
  rw [Bool.or_eq_true] at hrefreshes
  rcases hrefreshes with hack | hcreated
  · split at hack
    · rename_i g ack conn hfind
      simp only [Bool.and_eq_true, decide_eq_true_eq] at hack
      obtain ⟨⟨rfl, hwindow⟩, hmoved⟩ := hack
      have hsync := onDataAck_sync (h := h.updateTime env) rfl hfind hwindow hmoved
      intro c hc
      refine hsync.2 c ?_
      rw [← hc]
      show _ = ((resetOnError g ((h.updateTime env).litedtOnDataAck env g ack)).view g).stream
      rw [resetOnError, if_pos hsync.1]
    · exact absurd hack (by simp)
  · have hstep : SyncMoves flow env event [] ((h.began env event).view flow)
        ((h.step env event).view flow) := syncMoves_step (by simp) (by simp)
    rcases hstep.created with hsame | hsync
    · have hbegan : (h.began env event).incarnations flow = h.incarnations flow := by
        cases event <;> rfl
      have hlt := of_decide_eq_true hcreated
      rw [← hbegan] at hlt
      exact absurd hsame hlt.ne'
    · exact hsync

theorem run_concat (h : Host) (events : List (Env × HostEvent)) (e : Env × HostEvent) :
    h.run (events ++ [e]) = (h.run events).step e.1 e.2 :=
  List.foldl_concat ..

theorem refreshed_concat (flow : U32) (h : Host) (events : List (Env × HostEvent))
    (e : Env × HostEvent) :
    h.refreshed flow (events ++ [e]) = h.refreshed flow events ++
      if (h.run events).refreshes flow e.1 e.2 then [e.1.now] else [] := by
  induction events generalizing h with
  | nil => exact List.append_nil _
  | cons first rest ih =>
      rw [List.cons_append, refreshed, ih, refreshed, List.append_assoc]
      rfl

theorem mem_of_refreshed {r : Time} (hr : r ∈ h.refreshed flow events) :
    ∃ e ∈ events, e.1.now = r := by
  induction events generalizing h with
  | nil => exact absurd hr (by simp [refreshed])
  | cons e rest ih =>
      rw [refreshed] at hr
      rcases List.mem_append.mp hr with hr | hr
      · refine ⟨e, by simp, ?_⟩
        split at hr
        · exact (List.mem_singleton.mp hr).symm
        · exact absurd hr (by simp)
      · obtain ⟨e', he', heq⟩ := ih hr
        exact ⟨e', by simp [he'], heq⟩

theorem syncMoves_last {e : Env × HostEvent}
    (hclock : (events ++ [e]).Pairwise (fun e e' => e.1.now ≤ e'.1.now))
    (hsynced : ∀ c, ((h.run events).view flow).stream = some c →
      ∀ r ∈ h.refreshed flow events, r ≤ c.lastSyncTime) :
    SyncMoves flow e.1 e.2 (h.refreshed flow events)
      (((h.run events).began e.1 e.2).view flow) (((h.run events).step e.1 e.2).view flow) := by
  refine syncMoves_step (fun r hr => ?_) hsynced
  obtain ⟨e', he', rfl⟩ := mem_of_refreshed hr
  exact (List.pairwise_append.mp hclock).2.2 e' he' e (by simp)

theorem run_synced (flow : U32) (h : Host)
    (hclock : events.Pairwise (fun e e' => e.1.now ≤ e'.1.now)) :
    ∀ c, ((h.run events).view flow).stream = some c →
      ∀ r ∈ h.refreshed flow events, r ≤ c.lastSyncTime := by
  induction events using List.reverseRecOn with
  | nil => simp [refreshed]
  | append_singleton events e ih =>
      have hstep := syncMoves_last hclock (ih (List.pairwise_append.mp hclock).1)
      intro c hc r hr
      rw [run_concat] at hc
      rw [refreshed_concat] at hr
      rcases List.mem_append.mp hr with hr | hr
      · exact hstep.synced c hc r hr
      · split at hr
        · rename_i hrefreshes
          rw [List.mem_singleton.mp hr]
          exact refreshes_sync hrefreshes c hc
        · exact absurd hr (by simp)

theorem timeouts_step {e : Env × HostEvent}
    (hclock : (events ++ [e]).Pairwise (fun e e' => e.1.now ≤ e'.1.now))
    (htimeout : (h.run events).timeouts flow < (h.run (events ++ [e])).timeouts flow) :
    e.2.isTime = true ∧ ∀ r ∈ h.refreshed flow events, connectionTimeout < e.1.now - r := by
  have hstep := syncMoves_last hclock (run_synced flow h (List.pairwise_append.mp hclock).1)
  rw [run_concat] at htimeout
  refine hstep.timeouts.resolve_left fun hsame => htimeout.ne ?_
  have hbegan : ((h.run events).began e.1 e.2).timeouts flow = (h.run events).timeouts flow := by
    cases e.2 <;> rfl
  exact hbegan.symm.trans hsame.symm

end Host

/-- **Silence.** While acknowledgements inside the window are among the datagrams that arrive, a
connection times out only when nothing of its flow arrives. -/
theorem timesOutOnSilence_run {flow : U32} {h : Host} {events : List (Env × HostEvent)}
    (hclock : events.Pairwise (fun e e' => e.1.now ≤ e'.1.now)) (hacks : h.HearsAcks flow events) :
    h.TimesOutOnSilence flow events := by
  intro i hi htimeout t ht
  have htake : events.take (i + 1) = events.take i ++ [events[i]] :=
    (List.take_append_getElem hi).symm
  have hbegins := hclock.sublist (List.take_sublist (i + 1) events)
  rw [htake] at hbegins htimeout
  obtain ⟨htime, hstale⟩ := Host.timeouts_step hbegins htimeout
  by_contra hheard
  obtain ⟨r, hr, hfresh⟩ := hacks i hi htime ⟨t, ht, not_lt.mp hheard⟩
  exact absurd (hstale r hr) (not_lt.mpr hfresh)

theorem timesOutOnSilence_run_confirming :
    Sys.sample.b.TimesOutOnSilence 7
      (Sys.events .b (confirming ++ [(.b, .plain 125000000, .time 5)]) Sys.sample) :=
  timesOutOnSilence_run (by decide +kernel) (by decide +kernel)

/-- The first host has closed the flow and still sends the data that was lost. -/
def draining : List (Side × Env × Action) :=
  opening ++
    [(.b, .plain 1000000, .deliver 2),
      (.a, .plain 1000000, .deliver 2),
      (.a, .plain 1000000, .call (.send 7 .three)),
      (.a, .plain 1000000, .call (.close 7)),
      (.b, .plain 1000000, .deliver 4),
      (.a, .plain 2000000, .time 5),
      (.b, .plain 60000000, .time 5),
      (.a, .plain 60000000, .deliver 4),
      (.b, .plain 60000000, .deliver 7),
      (.a, .plain 100000000, .time 5),
      (.b, .plain 100000000, .deliver 10),
      (.b, .plain 122000000, .time 5)]

/-- Data arrives 22 seconds before the timer releases the connection. -/
theorem timesOutOnSilence_draining :
    ¬ Sys.sample.b.TimesOutOnSilence 7 (Sys.events .b draining Sys.sample) := by
  decide +kernel

end Liteflow

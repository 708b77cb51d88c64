import Liteflow.Flow

/-!
# The view of a flow under the functions of the model

What the small functions do to `Host.view`: an update of a connection shows in the view of its own
flow only, a datagram and an event show in every view, and pacing, timers and congestion control show
in none.
-/

namespace Liteflow

namespace Host

variable (h : Host) (flow g : U32)

@[simp]
theorem findConnection_modifyConn (update : Conn → Conn) :
    (h.modifyConn g update).findConnection flow =
      if g = flow then (h.findConnection flow).map update else h.findConnection flow :=
  Timerlist.timerlistGet_modify h.connQueue g flow update

theorem view_stream_eq_some {c : Stream} :
    (h.view flow).stream = some c ↔ ∃ conn, h.findConnection flow = some conn ∧ conn.toStream = c :=
  Option.map_eq_some_iff

theorem view_stream_eq_none :
    (h.view flow).stream = none ↔ h.findConnection flow = none :=
  Option.map_eq_none_iff

variable {h g flow}

theorem view_stream_of_find {conn : Conn} (hfind : h.findConnection flow = some conn) :
    (h.view flow).stream = some conn.toStream := by
  rw [view_stream_eq_some]
  exact ⟨conn, hfind, rfl⟩

/-! ### Updates of a connection -/

theorem view_modifyConn_of_ne (hne : g ≠ flow) (update : Conn → Conn) :
    (h.modifyConn g update).view flow = h.view flow := by
  have hfind := findConnection_modifyConn h flow g update
  rw [if_neg hne] at hfind
  simp only [view, hfind]
  rfl

theorem view_modifyConn_self {conn : Conn} (hfind : h.findConnection flow = some conn)
    (update : Conn → Conn) :
    (h.modifyConn flow update).view flow = (h.view flow).withStream (update conn).toStream := by
  have hfind' := findConnection_modifyConn h flow flow update
  rw [if_pos rfl, hfind] at hfind'
  simp only [view, hfind']
  rfl

theorem view_modifyStream_none (hfind : h.findConnection g = none) (update : Stream → Stream) :
    (h.modifyStream g update).view flow = h.view flow := by
  have hfind' := findConnection_modifyConn h flow g
    (fun c => { c with toStream := update c.toStream })
  have hsame : (if g = flow then (h.findConnection flow).map
      (fun c => { c with toStream := update c.toStream }) else h.findConnection flow) =
      h.findConnection flow := by
    split
    · subst_vars
      rw [hfind]
      rfl
    · rfl
  rw [hsame] at hfind'
  simp only [view, modifyStream, hfind']
  rfl

theorem view_modifyConn_flags {update : Conn → Conn}
    (hupdate : ∀ conn, (update conn).toStream = conn.toStream) :
    (h.modifyConn g update).view flow = h.view flow := by
  by_cases heq : g = flow
  · subst heq
    have hfind' := findConnection_modifyConn h g g update
    rw [if_pos rfl] at hfind'
    simp only [view, hfind', Option.map_map]
    congr 1
    exact congrArg (fun f => (h.findConnection g).map f) (funext hupdate)
  · exact view_modifyConn_of_ne heq update

theorem view_modifyStream_of_ne (hne : g ≠ flow) (update : Stream → Stream) :
    (h.modifyStream g update).view flow = h.view flow :=
  view_modifyConn_of_ne hne _

theorem view_modifyStream_self {conn : Conn} (hfind : h.findConnection flow = some conn)
    (update : Stream → Stream) :
    (h.modifyStream flow update).view flow = (h.view flow).withStream (update conn.toStream) :=
  view_modifyConn_self hfind _

theorem find_modifyStream {conn : Conn} (hfind : h.findConnection flow = some conn)
    (update : Stream → Stream) :
    ∃ conn', (h.modifyStream flow update).findConnection flow = some conn' ∧
      conn'.toStream = update conn.toStream := by
  rw [modifyStream, findConnection_modifyConn, if_pos rfl, hfind]
  exact ⟨_, rfl, rfl⟩

/-! ### Datagrams and events -/

@[simp]
theorem view_emit (flight : Flight) (len : Nat) :
    (h.emit flight len).view flow = (h.view flow).send flight := by
  simp [emit, socketSend, view, FlowState.send, findConnection]

@[simp]
theorem find_emit (flight : Flight) (len : Nat) :
    (h.emit flight len).findConnection flow = h.findConnection flow := by
  simp [emit, socketSend, findConnection]

@[simp]
theorem view_record (event : Event) :
    (h.record event).view flow = (h.view flow).note event := rfl

@[simp]
theorem view_count (act : GaugeAct) : (h.count act).view flow = h.view flow := rfl

@[simp]
theorem find_record (event : Event) :
    (h.record event).findConnection flow = h.findConnection flow := rfl

/-! ### Timers -/

/-- `litedt_mod_evtime` keeps what does not depend on the order of the queue and on the time of the next
event. -/
theorem litedtModEvtime_keeps {P : Host → Prop} {target : Option U32} {time : Time} (hself : P h)
    (hsync : ∀ g, target = some g → ∀ moved,
      moved = h.modifyConn g (fun c => { c with nextSyncTime := time }) →
      P { moved with connQueue := moved.connQueue.timerlistMoveup time g })
    (hwake : ∀ h' : Host, P h' → ∀ next wakes, P { h' with nextEventTime := next, wakes := wakes }) :
    P (h.litedtModEvtime target time) := by
  have hwoken (synced : Host) (hsynced : P synced) : P (if time < synced.nextEventTime then
      { synced with nextEventTime := time, wakes := synced.wakes ++ [(time, true)] }
      else { synced with wakes := synced.wakes ++ [(time, false)] }) := by
    split <;> exact hwake synced hsynced _ _
  cases target with
  | none => exact hwoken h hself
  | some g =>
      refine hwoken (h.advanceSync g time) ?_
      unfold advanceSync
      split
      · exact hself
      · split
        · exact hsync g rfl _ rfl
        · exact hself

@[simp]
theorem view_litedtModEvtime (target : Option U32) (time : Time) :
    (h.litedtModEvtime target time).view flow = h.view flow := by
  refine litedtModEvtime_keeps (P := fun h' => h'.view flow = h.view flow) rfl ?_
    fun _ hsame _ _ => hsame
  rintro g - moved rfl
  have hflags : (h.modifyConn g (fun c => { c with nextSyncTime := time })).view flow = h.view flow :=
    view_modifyConn_flags (fun _ => rfl)
  refine Eq.trans ?_ hflags
  simp [view, findConnection]

/-! ### The retransmission queue -/

theorem entries_del_of_ne (hne : g ≠ flow) (seq seq' : U32) :
    (h.retransQueue.timerlistDel (g, seq)).entries (flow, seq') =
      h.retransQueue.entries (flow, seq') := by
  rw [Timerlist.entries_del, if_neg (fun heq => hne (Prod.mk.inj heq).1)]

theorem entries_del_self (seq : U32) :
    (fun seq' => (h.retransQueue.timerlistDel (flow, seq)).entries (flow, seq')) =
      Function.update (h.view flow).ready seq 0 := by
  funext seq'
  rw [Timerlist.entries_del, Function.update_apply]
  simp only [Prod.mk.injEq, true_and]
  by_cases heq : seq = seq'
  · rw [if_pos heq, if_pos heq.symm]
  · rw [if_neg heq, if_neg (Ne.symm heq)]
    rfl

theorem view_abandonPacket_of_ne (hne : g ≠ flow) (packet : PacketEntry) :
    (h.abandonPacket g packet).view flow = h.view flow := by
  unfold abandonPacket
  dsimp only
  split
  · simp only [view, entries_del_of_ne hne]
    rfl
  · rfl

theorem view_abandonPacket_self (packet : PacketEntry) :
    (h.abandonPacket flow packet).view flow =
      { h.view flow with ready := unready (h.view flow).ready [packet] } := by
  unfold abandonPacket
  dsimp only [unready, List.foldl]
  split
  · rw [← entries_del_self]
    rfl
  · rfl

theorem view_retransModFini_of_ne (hne : g ≠ flow) (packets : List PacketEntry) :
    (h.retransModFini g packets).view flow = h.view flow := by
  unfold retransModFini
  induction packets generalizing h with
  | nil => rfl
  | cons packet rest ih => rw [List.foldl_cons, ih, view_abandonPacket_of_ne hne]

theorem view_retransModFini_self (packets : List PacketEntry) :
    (h.retransModFini flow packets).view flow =
      { h.view flow with ready := unready (h.view flow).ready packets } := by
  unfold retransModFini
  induction packets generalizing h with
  | nil => rfl
  | cons packet rest ih =>
      rw [List.foldl_cons, ih, view_abandonPacket_self]
      rfl

/-! ### Congestion control and pacing -/

/-- What congestion control and pacing leave alone. -/
def core (h : Host) : Session × Config × Time × Timerlist U32 Conn × Timerlist (U32 × U32) Unit ×
    List Flight × List Event × U32 × U32 :=
  (h.toSession, h.cfg, h.curTime, h.connQueue, h.retransQueue, h.out, h.log, h.inflight,
    h.inflightBytes)

theorem view_of_core {h' : Host} (hcore : h'.core = h.core) : h'.view flow = h.view flow := by
  simp only [core, Prod.mk.injEq] at hcore
  obtain ⟨hsession, hcfg, htime, hconns, hqueue, hout, hlog, -⟩ := hcore
  simp only [view, findConnection, hsession, hcfg, htime, hconns, hqueue, hout, hlog]

def kept (h : Host) :=
  (h.core, h.timewaitQueue, h.activeQueue, h.nextEventTime, h.wakes)

theorem core_of_kept {h' : Host} (hkept : h'.kept = h.kept) : h'.core = h.core :=
  congrArg Prod.fst hkept

theorem connQueue_of_kept {h' : Host} (hkept : h'.kept = h.kept) : h'.connQueue = h.connQueue :=
  congrArg (fun core => core.2.2.2.1) (core_of_kept hkept)

theorem curTime_of_kept {h' : Host} (hkept : h'.kept = h.kept) : h'.curTime = h.curTime :=
  congrArg (fun core => core.2.2.1) (core_of_kept hkept)

theorem kept_addPacingRateFec : h.addPacingRateFec.kept = h.kept := rfl

theorem kept_pacingRatePostcheck : h.pacingRatePostcheck.kept = h.kept := rfl

theorem kept_updatePacingRate : h.updatePacingRate.kept = h.kept := by
  unfold updatePacingRate
  dsimp only
  rw [kept_addPacingRateFec]
  split <;> rfl

theorem kept_limit : h.limit.kept = h.kept := rfl

theorem kept_leaveDrain : h.leaveDrain.kept = h.kept := rfl

theorem kept_checkDrain : h.checkDrain.kept = h.kept := by
  have henter : h.enterDrain.kept = h.kept := by
    unfold enterDrain
    split <;> rfl
  rw [checkDrain, ← henter, drain]
  split
  · split
    · rw [kept_leaveDrain, kept_limit]
    · exact kept_limit
  · rfl

theorem kept_ctrl (ctrl : CtrlMod) : { h with ctrl := ctrl }.kept = h.kept := rfl

theorem kept_ctrlTimeEvent : h.ctrlTimeEvent.kept = h.kept := by
  unfold ctrlTimeEvent
  split
  · rfl
  · dsimp only
    rw [kept_ctrl, kept_pacingRatePostcheck, kept_updatePacingRate, kept_checkDrain, kept_ctrl]

theorem kept_checkProbeRttDone : h.checkProbeRttDone.kept = h.kept := by
  unfold checkProbeRttDone
  split <;> rfl

theorem kept_probeRtt : h.probeRtt.kept = h.kept := by
  unfold probeRtt
  dsimp only
  split
  · split
    · rfl
    · split
      · split
        · rw [kept_checkProbeRttDone]
          rfl
        · rfl
      · rfl
  · rfl

theorem kept_enterProbeRtt (expired : Bool) :
    (h.enterProbeRtt expired).kept = h.kept := by
  unfold enterProbeRtt
  split <;> rfl

theorem kept_checkFullBwReached (rs : RateSample) :
    (h.checkFullBwReached rs).kept = h.kept := by
  unfold checkFullBwReached
  split
  · rfl
  · split <;> rfl

theorem kept_ctrlIoEvent (rs : RateSample) : (h.ctrlIoEvent rs).kept = h.kept := by
  unfold ctrlIoEvent
  dsimp only
  rw [kept_ctrl, updateMinRtt, kept_probeRtt, kept_enterProbeRtt]
  exact kept_checkFullBwReached rs

theorem kept_clearAppLimited : h.clearAppLimited.kept = h.kept := by
  unfold clearAppLimited
  split <;> rfl

theorem kept_countRound : h.countRound.kept = h.kept := by
  unfold countRound
  split <;> rfl

theorem kept_sampleBandwidth (rs : RateSample) (interval : Time) :
    (h.sampleBandwidth rs interval).kept = h.kept := by
  unfold sampleBandwidth
  dsimp only
  split <;> rfl

theorem kept_smoothRtt (rs : RateSample) : (h.smoothRtt rs).kept = h.kept := by
  unfold smoothRtt
  split
  · rfl
  · split <;> rfl

theorem kept_generateBandwidth (rs : RateSample) (delivered : U32) :
    (h.generateBandwidth rs delivered).kept = h.kept := by
  have hround (h : Host) :
      ({ h.clearAppLimited with deliveredTime := h.curTime }.countRound).kept = h.kept := by
    rw [kept_countRound]
    exact kept_clearAppLimited
  unfold generateBandwidth
  dsimp only
  split
  · exact kept_clearAppLimited
  · split
    · exact hround _
    · rw [kept_smoothRtt, kept_sampleBandwidth, hround]
      rfl

theorem kept_addCredit : h.addCredit.kept = h.kept := by
  unfold addCredit
  dsimp only
  split <;> rfl

theorem core_ctrlTimeEvent : h.ctrlTimeEvent.core = h.core :=
  core_of_kept kept_ctrlTimeEvent

theorem core_ctrlIoEvent (rs : RateSample) : (h.ctrlIoEvent rs).core = h.core :=
  core_of_kept (kept_ctrlIoEvent rs)

theorem core_generateBandwidth (rs : RateSample) (delivered : U32) :
    (h.generateBandwidth rs delivered).core = h.core :=
  core_of_kept (kept_generateBandwidth rs delivered)

theorem core_addCredit : h.addCredit.core = h.core :=
  core_of_kept kept_addCredit

@[simp]
theorem view_ctrlIoEvent (rs : RateSample) : (h.ctrlIoEvent rs).view flow = h.view flow :=
  view_of_core (core_ctrlIoEvent rs)

@[simp]
theorem view_generateBandwidth (rs : RateSample) (delivered : U32) :
    (h.generateBandwidth rs delivered).view flow = h.view flow :=
  view_of_core (core_generateBandwidth rs delivered)

end Host

end Liteflow

import Liteflow.Proof.Frames

/-!
# Why connections are released

`release_connection` is called from timers, from the handlers of closing datagrams and by the
application, and each caller has looked at different fields. Two questions about a connection that is
released by its timer: whether the application has read everything that was confirmed to the peer, and
whether the peer had been silent.
-/

namespace Liteflow

/-- A release that loses no confirmed data, or that the application or the host asked for. -/
def ReleaseCause.Accepts (cause : ReleaseCause) (c : Stream) : Prop :=
  c.confirmed = true → c.recvBuf.rbufReadableBytes = 0 ∨ cause = .application ∨ cause = .refused ∨
    cause = .offline ∨ cause = .finalised

/-- Every connection that was released after its end had been confirmed had been read to the end. -/
def ReadsConfirmed (flow : U32) (log : List Event) : Prop :=
  ∀ cause c, .released flow cause c ∈ log → cause.Accepts c

/-- No connection with unread confirmed data has been silent for `CONNECTION_TIMEOUT` when the timers
are checked. -/
def KeepsReading (flow : U32) (h : Host) (env : Env) : HostEvent → Prop
  | .time _ => ∀ conn ∈ h.findConnection flow, conn.confirmed = true →
      conn.recvBuf.rbufReadableBytes ≠ 0 → env.now - conn.lastSyncTime ≤ connectionTimeout
  | _ => True

instance (flow : U32) (h : Host) (env : Env) (event : HostEvent) :
    Decidable (KeepsReading flow h env event) := by
  cases event <;> unfold KeepsReading <;> infer_instance

def Host.Meets (cond : Host → Env → HostEvent → Prop) : Host → List (Env × HostEvent) → Prop
  | _, [] => True
  | h, e :: rest => cond h e.1 e.2 ∧ Host.Meets cond (h.step e.1 e.2) rest

instance Host.decidableMeets (cond : Host → Env → HostEvent → Prop)
    [∀ h env event, Decidable (cond h env event)] :
    ∀ (events : List (Env × HostEvent)) (h : Host), Decidable (h.Meets cond events)
  | [], _ => .isTrue trivial
  | e :: rest, h =>
      have := Host.decidableMeets cond rest (h.step e.1 e.2)
      inferInstanceAs (Decidable (cond h e.1 e.2 ∧ (h.step e.1 e.2).Meets cond rest))

theorem Host.run_of_meets {cond : Host → Env → HostEvent → Prop} {P : Host → Prop}
    (hstep : ∀ h env event, cond h env event → P h → P (h.step env event)) :
    ∀ {events : List (Env × HostEvent)} {h : Host}, h.Meets cond events → P h → P (h.run events) := by
  intro events
  induction events with
  | nil => exact fun _ hP => hP
  | cons e rest ih => exact fun hmeets hP => ih hmeets.2 (hstep _ e.1 e.2 hmeets.1 hP)

section Confirmed

variable {flow : U32} {env : Env} {event : HostEvent} {start v v' : FlowState} {c c' : Stream}

/-- A confirmed connection is closed, and no confirmed data has been lost. -/
structure Confirmed (flow : U32) (v : FlowState) : Prop where
  closed : ∀ c, v.stream = some c → c.confirmed = true → c.state = .closed
  log : ReadsConfirmed flow v.log

structure Waiting (env : Env) (start v : FlowState) : Prop where
  curTime_eq : v.curTime = env.now
  unread : ∀ c, v.stream = some c → c.confirmed = true → c.recvBuf.rbufReadableBytes ≠ 0 →
    ∃ c', start.stream = some c' ∧ c'.confirmed = true ∧ c'.recvBuf.rbufReadableBytes ≠ 0 ∧
      c'.lastSyncTime = c.lastSyncTime

structure ConfirmedMoves (flow : U32) (env : Env) (event : HostEvent) (start v : FlowState) :
    Prop extends Confirmed flow v where
  waiting : ∀ fuel, event = .time fuel → Waiting env start v

theorem ReadsConfirmed.append {log : List Event} (hlog : ReadsConfirmed flow log)
    {events : List Event} (hevents : ∀ e ∈ events, ∀ cause c, e ≠ .released flow cause c) :
    ReadsConfirmed flow (log ++ events) := by
  intro cause c hmem
  rcases List.mem_append.mp hmem with hmem | hmem
  · exact hlog cause c hmem
  · exact absurd rfl (hevents _ hmem cause c)

theorem ConfirmedMoves.of_same (hinv : ConfirmedMoves flow env event start v)
    (htime : v'.curTime = v.curTime) (hlog : ReadsConfirmed flow v'.log)
    (hstream : ∀ c', v'.stream = some c' → ∃ c, v.stream = some c ∧ c'.state = c.state ∧
      c'.confirmed = c.confirmed ∧ ((∃ fuel, event = .time fuel) →
        c'.lastSyncTime = c.lastSyncTime ∧
        (c'.recvBuf.rbufReadableBytes ≠ 0 → c.recvBuf.rbufReadableBytes ≠ 0))) :
    ConfirmedMoves flow env event start v' where
  closed := by
    intro c' hc' hconfirmed
    obtain ⟨c, hc, hstate, hconf, -⟩ := hstream c' hc'
    rw [hstate]
    exact hinv.closed c hc (hconf ▸ hconfirmed)
  log := hlog
  waiting := by
    intro fuel hevent
    obtain ⟨hcur, hunread⟩ := hinv.waiting fuel hevent
    refine ⟨htime.trans hcur, fun c' hc' hconfirmed hreadable => ?_⟩
    obtain ⟨c, hc, -, hconf, hsync⟩ := hstream c' hc'
    obtain ⟨hsync, hread⟩ := hsync ⟨fuel, hevent⟩
    obtain ⟨c0, hc0, h0, h0', h0''⟩ := hunread c hc (hconf ▸ hconfirmed) (hread hreadable)
    exact ⟨c0, hc0, h0, h0', h0''.trans hsync.symm⟩

theorem ConfirmedMoves.of_senderFrame (hinv : ConfirmedMoves flow env event start v)
    (hframe : SenderFrame flow event v v') : ConfirmedMoves flow env event start v' := by
  refine hinv.of_same hframe.curTime_eq ?_ fun c' hc' => ?_
  · obtain ⟨es, hes, hevents⟩ := hframe.log
    rw [hes]
    exact hinv.log.append fun e he cause c heq => by simpa [heq, Event.OfSender] using hevents e he
  · have hrel := hframe.stream
    rw [hc'] at hrel
    obtain ⟨c, hc, hsame⟩ := exists_of_rel_some hrel
    refine ⟨c, hc, hsame.state.state_eq, hsame.state.confirmed_eq, fun htime => ⟨?_, ?_⟩⟩
    · obtain ⟨fuel, hevent⟩ := htime
      rcases hsame.sync with hsync | ⟨ack, hack, -⟩
      · exact hsync
      · rw [hevent] at hack
        exact absurd hack (by simp)
    · rw [hsame.recv.recvBuf_eq]
      exact fun h => h

theorem ReceiverMove.readable_of_time (hmove : ReceiverMove flow env event start v v') {fuel : Nat}
    (hevent : event = .time fuel) (hstream : v.stream = some c) (hstream' : v'.stream = some c')
    (hreadable : c'.recvBuf.rbufReadableBytes ≠ 0) : c.recvBuf.rbufReadableBytes ≠ 0 := by
  cases hmove with
  | store _ hbrings _ _ =>
      obtain ⟨sent, -, hio | ⟨tunnelId, hio⟩⟩ := hbrings <;> exact absurd (hevent.symm.trans hio) (by simp)
  | insert _ hinserted _ _ _ =>
      cases hinserted with
      | data hbrings =>
          obtain ⟨sent, -, hio | ⟨tunnelId, hio⟩⟩ := hbrings <;>
            exact absurd (hevent.symm.trans hio) (by simp)
      | sum hio => exact absurd (hevent.symm.trans hio) (by simp)
  | checkpoint hc =>
      obtain rfl := Option.some.inj (hc.symm.trans hstream)
      obtain rfl := Option.some.inj hstream'
      exact hreadable
  | read hc hsize hreleased =>
      obtain rfl := Option.some.inj (hc.symm.trans hstream)
      have hle := (Stream.releaseRecv_eq hreleased).1
      rintro hzero
      rw [hzero] at hle
      exact hsize (BitVec.le_zero_iff.mp hle)
  | failed hc hreleased =>
      obtain rfl := Option.some.inj (hstream.symm.trans hstream')
      exact hreadable
  | ack acks sackMap hc hacks =>
      obtain rfl := Option.some.inj (hc.symm.trans hstream)
      obtain rfl := Option.some.inj hstream'
      exact hreadable

theorem ConfirmedMoves.of_receiverMove (hinv : ConfirmedMoves flow env event start v)
    (hmove : ReceiverMove flow env event start v v') : ConfirmedMoves flow env event start v' := by
  have hframe := hmove.frame
  refine hinv.of_same hframe.curTime_eq ?_ fun c' hc' => ?_
  · obtain ⟨es, hes, hevents⟩ := hframe.log
    rw [hes]
    exact hinv.log.append fun e he cause c heq => by
      simpa [heq, Event.OfReceiver] using hevents e he
  · have hrel := hframe.stream
    rw [hc'] at hrel
    obtain ⟨c, hc, hsame⟩ := exists_of_rel_some hrel
    refine ⟨c, hc, hsame.state.state_eq, hsame.state.confirmed_eq, fun htime => ?_⟩
    obtain ⟨fuel, hevent⟩ := htime
    exact ⟨hsame.lastSyncTime_eq, hmove.readable_of_time hevent hc hc'⟩

theorem ConfirmedMoves.of_unconfirmed (hinv : ConfirmedMoves flow env event start v)
    (htime : v'.curTime = v.curTime) (hlog : ReadsConfirmed flow v'.log)
    (hstream : ∀ c', v'.stream = some c' → c'.confirmed = false ∨
      (c'.state = .closed ∧ ∀ fuel, event ≠ .time fuel)) :
    ConfirmedMoves flow env event start v' where
  closed := by
    intro c' hc' hconfirmed
    rcases hstream c' hc' with hconf | hclosed
    · exact absurd hconfirmed (by simp [hconf])
    · exact hclosed.1
  log := hlog
  waiting := by
    intro fuel hevent
    refine ⟨htime.trans (hinv.waiting fuel hevent).curTime_eq, fun c' hc' hconfirmed _ => ?_⟩
    rcases hstream c' hc' with hconf | hclosed
    · exact absurd hconfirmed (by simp [hconf])
    · exact absurd hevent (hclosed.2 fuel)

theorem ConfirmedMoves.not_confirmed (hinv : ConfirmedMoves flow env event start v)
    (hstream : v.stream = some c) (hstate : c.state ≠ .closed) : c.confirmed = false := by
  by_contra hconfirmed
  exact hstate (hinv.closed c hstream (by simpa using hconfirmed))

def StartOk (env : Env) (event : HostEvent) (start : FlowState) : Prop :=
  ∀ fuel, event = .time fuel → ∀ c, start.stream = some c → c.confirmed = true →
    c.recvBuf.rbufReadableBytes ≠ 0 → env.now - c.lastSyncTime ≤ connectionTimeout

theorem ConfirmedMoves.accepts (hinv : ConfirmedMoves flow env event start v)
    (hstart : StartOk env event start) (hstream : v.stream = some c) {cause : ReleaseCause}
    (hreleases : Releases flow env event v.curTime c cause) : cause.Accepts c := by
  have hopen : c.state = .finWait → c.confirmed = false := fun hstate =>
    hinv.not_confirmed hstream (by simp [hstate])
  intro hconfirmed
  cases hreleases with
  | timeout hevent hlate =>
      by_contra hlost
      obtain ⟨hcur, hwaiting⟩ := hinv.waiting _ hevent
      obtain ⟨c', hc', hconf, hread, hsync⟩ :=
        hwaiting c hstream hconfirmed fun hzero => hlost (.inl hzero)
      have hfresh := hstart _ hevent c' hc' hconf hread
      rw [hsync, ← hcur] at hfresh
      exact absurd hlate (not_lt.mpr hfresh)
  | drained hstate hread => exact .inl hread
  | offline => simp
  | finalised hevent => simp
  | application hcloses hstate => simp
  | refused hevent hstatus => simp
  | closeReq hevent hstate => simp [hopen hstate] at hconfirmed
  | closeRsp hevent hstate => simp [hopen hstate] at hconfirmed
  | reset hevent hstate => simp [hopen hstate] at hconfirmed

theorem ConfirmedMoves.of_controlMove (hinv : ConfirmedMoves flow env event start v)
    (hstart : StartOk env event start) (hmove : ControlMove flow env event v v') :
    ConfirmedMoves flow env event start v' := by
  have hkeep : ∀ {v' : FlowState}, v'.curTime = v.curTime → v'.log = v.log →
      v'.stream = v.stream → ConfirmedMoves flow env event start v' := by
    intro v' htime hlog hstream
    refine hinv.of_same htime (hlog ▸ hinv.log) fun c' hc' => ⟨c', hstream ▸ hc', rfl, rfl, ?_⟩
    exact fun _ => ⟨rfl, fun h => h⟩
  cases hmove with
  | @establish c hstream =>
      by_cases hstate : c.state = .request
      · have hconfirmed := hinv.not_confirmed hstream (by simp [hstate])
        refine hinv.of_unconfirmed rfl hinv.log fun c' hc' => .inl ?_
        rw [Stream.establish, if_pos hstate] at hc'
        exact Option.some.inj hc' ▸ hconfirmed
      · refine hkeep rfl rfl ?_
        rw [Stream.establish, if_neg hstate, hstream]
        rfl
  | @create state tunnelId hstream hopens =>
      refine hinv.of_unconfirmed rfl ?_ fun c' hc' => ?_
      · exact hinv.log.append (by simp)
      · obtain rfl := Option.some.inj hc'
        exact .inl rfl
  | @release c cause hstream hreleases =>
      refine hinv.of_unconfirmed rfl ?_ (by simp)
      intro cause' c' hmem
      rcases List.mem_append.mp hmem with hmem | hmem
      · exact hinv.log cause' c' hmem
      · simp only [List.mem_singleton, Event.released.injEq, true_and] at hmem
        rw [hmem.1, hmem.2]
        exact hinv.accepts hstart hstream hreleases
  | @close c hstream hcloses hstate =>
      refine hinv.of_unconfirmed rfl hinv.log fun c' hc' => ?_
      have hconfirmed := hinv.not_confirmed hstream fun hclosed => by
        rw [hclosed] at hstate
        exact absurd hstate (by decide)
      exact Option.some.inj hc' ▸ .inl hconfirmed
  | @confirm c lastSeq hstream hevent hfin hclosed hend =>
      refine hinv.of_unconfirmed rfl hinv.log fun c' hc' => .inr ⟨?_, by simp [hevent]⟩
      obtain rfl := Option.some.inj hc'
      rw [Stream.closeWait, if_pos hend]
  | @closeWait c lastSeq hstream hevent hfin hclosed hend =>
      refine hinv.of_unconfirmed rfl hinv.log fun c' hc' => .inl ?_
      have hconfirmed := hinv.not_confirmed hstream hclosed
      rw [Stream.closeWait, if_neg hend] at hc'
      exact Option.some.inj hc' ▸ hconfirmed
  | @reset c hstream hevent hfin =>
      refine hinv.of_unconfirmed rfl hinv.log fun c' hc' => .inr ⟨?_, by simp [hevent]⟩
      obtain rfl := Option.some.inj hc'
      rfl
  | closeReq hstream hstate => exact hkeep rfl rfl rfl
  | closeRsp hanswers => exact hkeep rfl rfl rfl
  | connectReq tunnelId => exact hkeep rfl rfl rfl
  | connectRsp status => exact hkeep rfl rfl rfl
  | connectRst => exact hkeep rfl rfl rfl

theorem ConfirmedMoves.of_move (hstart : StartOk env event start)
    (hmove : Move flow env event start v v') (hinv : ConfirmedMoves flow env event start v) :
    ConfirmedMoves flow env event start v' := by
  have hkeep : ∀ {v' : FlowState}, v'.curTime = v.curTime → ReadsConfirmed flow v'.log →
      v'.stream = v.stream → ConfirmedMoves flow env event start v' := by
    intro v' htime hlog hstream
    refine hinv.of_same htime hlog fun c' hc' => ⟨c', hstream ▸ hc', rfl, rfl, ?_⟩
    exact fun _ => ⟨rfl, fun h => h⟩
  cases hmove with
  | sender hmove => exact hinv.of_senderFrame hmove.frame
  | ack hmove => exact hinv.of_senderFrame hmove.frame
  | receiver hmove => exact hinv.of_receiverMove hmove
  | control hmove => exact hinv.of_controlMove hstart hmove
  | session hmove =>
      cases hmove with
      | pingReq => exact hkeep rfl hinv.log rfl
      | pingRsp hevent htoken => exact hkeep rfl hinv.log rfl
      | accept hevent hid htime hnode htoken => exact hkeep rfl (hinv.log.append (by simp)) rfl
      | offline => exact hkeep rfl hinv.log rfl
      | finalise hevent => exact hkeep rfl hinv.log rfl
  | foreignSend flight hflow hping => exact hkeep rfl hinv.log rfl
  | foreignNote note hflow hping =>
      refine hkeep rfl (hinv.log.append fun e he cause c heq => hflow ?_) rfl
      rw [List.mem_singleton.mp he] at heq
      rw [heq]
      rfl

theorem confirmed_step {h : Host} (hkeeps : KeepsReading flow h env event)
    (hconfirmed : Confirmed flow (h.view flow)) : Confirmed flow ((h.step env event).view flow) := by
  have hstart : StartOk env event ((h.began env event).view flow) := by
    rintro fuel rfl c hc
    obtain ⟨conn, hfind, rfl⟩ := (Host.view_stream_eq_some _ flow).mp hc
    exact hkeeps conn hfind
  have hbegan : Confirmed flow ((h.began env event).view flow) :=
    Host.began_preserves (fun _ _ hinv => ⟨hinv.closed, hinv.log⟩) env event hconfirmed
  have hfirst : ConfirmedMoves flow env event ((h.began env event).view flow)
      ((h.began env event).view flow) :=
    ⟨hbegan, fun fuel htime =>
      ⟨by subst htime; rfl, fun c hc hconf hread => ⟨c, hc, hconf, hread, rfl⟩⟩⟩
  exact (Host.step_preserves (fun v v' => ConfirmedMoves.of_move hstart) hfirst).toConfirmed

/-- **Confirmed data is read before the connection is released**, in every run in which no connection
with unread confirmed data is still there `CONNECTION_TIMEOUT` after its last acknowledgement. -/
theorem readsConfirmed_run {cfg : Config} {nodeId : U16} {now : Time}
    {events : List (Env × HostEvent)}
    (hkeeps : (Host.litedtInit cfg nodeId now).Meets (KeepsReading flow) events) :
    ReadsConfirmed flow ((Host.litedtInit cfg nodeId now).run events).log := by
  have hinit : Confirmed flow ((Host.litedtInit cfg nodeId now).view flow) :=
    ⟨by simp [Host.view, Host.litedtInit, Host.findConnection, Timerlist.timerlistInit,
      Timerlist.timerlistGet], by simp [ReadsConfirmed, Host.view, Host.litedtInit]⟩
  exact (Host.run_of_meets (P := fun h => Confirmed flow (h.view flow))
    (fun h env event => confirmed_step) hkeeps hinit).log

end Confirmed

def Sys.sample : Sys :=
  .init (.globalConfigInit Config.plainToken) (.globalConfigInit Config.plainToken) 1 2 0 0

def opening : List (Side × Env × Action) :=
  [(.a, .plain 10000, .time 0),
    (.b, .plain 10000, .deliver 0),
    (.a, .plain 10000, .deliver 0),
    (.b, .plain 10000, .time 0),
    (.a, .plain 10000, .deliver 1),
    (.b, .plain 10000, .deliver 1),
    (.a, .plain 10000, .call (.connect 7 0))]

/-- Three bytes are sent, received and confirmed; then the second host pings the first one. -/
def confirming : List (Side × Env × Action) :=
  opening ++
    [(.a, .plain 10000, .call (.send 7 .three)),
      (.a, .plain 1000000, .time 5),
      (.b, .plain 1000000, .deliver 2),
      (.b, .plain 1000000, .deliver 4),
      (.a, .plain 1000000, .call (.close 7)),
      (.b, .plain 1000000, .deliver 5),
      (.b, .plain 60000000, .time 5),
      (.a, .plain 60000000, .deliver 6),
      (.b, .plain 60000000, .deliver 6)]

def Event.losesConfirmed (flow : U32) : Event → Bool
  | released g .timeout c => g = flow && c.confirmed && c.recvBuf.rbufReadableBytes != 0
  | _ => false

/-- The application has not read the bytes within two minutes, and the timer releases them. -/
theorem readsConfirmed_slowReader :
    ¬ ReadsConfirmed 7
      ((Sys.sample.run (confirming ++ [(.b, .plain 125000000, .time 5)])).b.log) := by
  have hlost : ((Sys.sample.run (confirming ++ [(.b, .plain 125000000, .time 5)])).b.log.any
      (Event.losesConfirmed 7)) = true := by
    decide +kernel
  obtain ⟨event, hmem, hloses⟩ := List.any_eq_true.mp hlost
  intro hreads
  unfold Event.losesConfirmed at hloses
  split at hloses
  · simp only [Bool.and_eq_true, decide_eq_true_eq, bne_iff_ne] at hloses
    obtain ⟨⟨rfl, hconfirmed⟩, hreadable⟩ := hloses
    rcases hreads _ _ hmem hconfirmed with hzero | hcause
    · exact hreadable hzero
    · simp at hcause
  · exact absurd hloses (by simp)

/-- The same run in which the application reads: the timer releases the drained connection. -/
theorem readsConfirmed_run_reading :
    ReadsConfirmed 7 ((Host.litedtInit (.globalConfigInit Config.plainToken) 2 0).run
      (Sys.events .b (confirming ++
        [(.b, .plain 61000000, .call (.recv 7 9)), (.b, .plain 125000000, .time 5)])
        Sys.sample)).log :=
  readsConfirmed_run (by decide +kernel)

end Liteflow

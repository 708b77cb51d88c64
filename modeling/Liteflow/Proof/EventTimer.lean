import Liteflow.EventTimer
import Liteflow.Proof.RefineTables

/-!
# No lost wake-up

As long as the timer is set to `next_event_time` or an earlier time, `litedt_mod_evtime` may compare
with `next_event_time`. A time event that serves the connections leaves it so. One that finds the
peer not online sets the timer and leaves `next_event_time` as it was.
-/

namespace Liteflow

/-- The timer does not expire after `next_event_time`, unless that has passed. -/
def Armed (now : Time) (armed : Option Time) (t : Tables) : Prop :=
  expiresBy (max t.nextEvent now) armed = true

section Wakes

variable {now time time' : Time} {armed : Option Time}

theorem expiresBy_mono (hle : time ≤ time') (harmed : expiresBy time armed = true) :
    expiresBy time' armed = true := by
  cases armed with
  | none => cases harmed
  | some armed => exact decide_eq_true ((of_decide_eq_true harmed).trans hle)

theorem Armed.later {t : Tables} {future : Time} (harmed : Armed now armed t)
    (hle : now ≤ future) : Armed future armed t :=
  expiresBy_mono (max_le_max_left _ hle) harmed

theorem leavesArmed_append (before after : List (Time × Bool)) (armed : Option Time) :
    leavesArmed now armed (before ++ after) =
      (leavesArmed now armed before && leavesArmed now (before.foldl (setTimer now) armed) after) := by
  induction before generalizing armed with
  | nil => simp [leavesArmed]
  | cons wake rest ih => simp [leavesArmed, ih, Bool.and_assoc]

theorem Armed.wake {t : Tables} (harmed : Armed now armed t) (time : Time) :
    expiresBy (max time now) (setTimer now armed (time, decide (time < t.nextEvent))) = true ∧
      Armed now (setTimer now armed (time, decide (time < t.nextEvent)))
        { t with
          nextEvent := if time < t.nextEvent then time else t.nextEvent
          wakes := t.wakes ++ [(time, decide (time < t.nextEvent))] } := by
  by_cases hlt : time < t.nextEvent
  · simp [setTimer, Armed, expiresBy, hlt]
  · have hle : max t.nextEvent now ≤ max time now := max_le_max_right _ (not_lt.mp hlt)
    simp only [setTimer, Armed, hlt, decide_false, Bool.false_eq_true, if_false]
    exact ⟨expiresBy_mono hle harmed, harmed⟩

def Woken (now : Time) (armed : Option Time) (wakes : List (Time × Bool)) (t : Tables) : Prop :=
  ∃ new, t.wakes = wakes ++ new ∧ leavesArmed now armed new = true ∧
    Armed now (new.foldl (setTimer now) armed) t

theorem TableMove.woken {may : Packet → Prop} {wakes : List (Time × Bool)} {t t' : Tables}
    (hmove : TableMove now may t t') (hwoken : Woken now armed wakes t) :
    Woken now armed wakes t' := by
  obtain ⟨new, hwakes, hleaves, harmed⟩ := hwoken
  cases hmove with
  | wake time =>
      obtain ⟨hexpires, harmed'⟩ := harmed.wake time
      refine ⟨new ++ [(time, decide (time < t.nextEvent))], by simp [hwakes], ?_, ?_⟩
      · simp [leavesArmed_append, leavesArmed, hleaves, hexpires]
      · rw [List.foldl_append]
        exact harmed'
  | _ => exact ⟨new, hwakes, hleaves, harmed⟩

end Wakes

/-! ### Events -/

namespace Host

variable {h : Host} {env : Env} {armed : Option Time}

theorem woken_acts {event : HostEvent} {h' : Host} (hs : Acts env event (fun _ => True) h h')
    (harmed : Armed env.now armed h.tables) : Woken env.now armed h.wakes h'.tables :=
  (Steps.of_acts hs).preserves (fun _ _ hmove => hmove.woken) ⟨[], by simp [tables], rfl, harmed⟩

theorem wakesIn_of_woken {event : HostEvent}
    (hwoken : Woken env.now armed h.wakes (h.step env event).tables) :
    leavesArmed env.now armed (h.wakesIn env event) = true ∧
      Armed env.now ((h.wakesIn env event).foldl (setTimer env.now) armed)
        (h.step env event).tables := by
  obtain ⟨new, hwakes, hleaves, harmed⟩ := hwoken
  have hnew : h.wakesIn env event = new := by
    rw [wakesIn, show (h.step env event).wakes = h.wakes ++ new from hwakes, List.drop_left]
  rw [hnew]
  exact ⟨hleaves, harmed⟩

theorem leavesArmed_timeEvent (harmed : Armed env.now armed h.tables) (fuel : Nat) :
    leavesArmed env.now armed (h.wakesIn env (.time fuel)) = true := by
  rcases Acts.timeEvent (.refl h) fun _ => trivial with hs | ⟨h', next, hs, heq⟩
  · exact (wakesIn_of_woken (woken_acts hs harmed)).1
  · obtain ⟨new, hwakes, hleaves, -⟩ := woken_acts hs harmed
    have hnew : h.wakesIn env (.time fuel) = new := by
      rw [wakesIn, step, heq, show (h'.stampEvent next).wakes = h.wakes ++ new from hwakes,
        List.drop_left]
    rw [hnew]
    exact hleaves

theorem offlineTime_sendPing (h : Host) (env : Env) :
    (h.sendPing env).offlineTime = h.offlineTime := by
  unfold sendPing
  split <;> rfl

theorem remoteOnline_sendPing (h : Host) (env : Env) :
    (h.sendPing env).remoteOnline = h.remoteOnline := by
  unfold sendPing
  split <;> rfl

theorem armed_timeEvent (hserved : h.Served env) (fuel : Nat) :
    Armed env.now ((h.eventAfter env fuel).map (fun after => env.now + after))
      (h.litedtTimeEvent env fuel).tables := by
  unfold eventAfter litedtTimeEvent
  dsimp only
  by_cases hclosed : (h.updateTime env).closed = true
  · rw [if_pos hclosed, if_pos hclosed]
    simp [Armed, expiresBy]
  · rw [if_neg hclosed, if_neg hclosed]
    obtain ⟨hoffline, honline⟩ := hserved.resolve_left hclosed
    have hearly : ¬ ((h.updateTime env).sendPing env).offlineTime ≤ env.now := by
      rw [offlineTime_sendPing]
      exact not_le.mpr hoffline
    have hserve : ((h.updateTime env).sendPing env).remoteOnline = true := by
      rw [remoteOnline_sendPing]
      exact honline
    rw [if_neg hearly, if_neg hearly, if_pos hserve, if_pos hserve]
    generalize Host.serve env fuel _ _ = served
    have hafter (now next : Int) : now + max 0 (next - now) ≤ max next now := by omega
    exact decide_eq_true (hafter env.now served.nextEventTime)

theorem armed_step (harmed : Armed env.now armed h.tables) (event : HostEvent)
    (hserved : ∀ fuel, event = .time fuel → h.Served env) :
    leavesArmed env.now armed (h.wakesIn env event) = true ∧
      Armed env.now ((⟨h, armed⟩ : TimedHost).step env event).armed (h.step env event).tables := by
  have hsteps (hs : Acts env event (fun _ => True) h (h.step env event)) :=
    wakesIn_of_woken (woken_acts hs harmed)
  cases event with
  | call call => exact hsteps ((Acts.refl h).call (fun _ => trivial) call)
  | io packet => exact hsteps ((Acts.refl h).ioEvent (fun _ _ => trivial) fun _ _ => trivial)
  | fini => exact hsteps (Acts.refl h).fini
  | time fuel =>
      exact ⟨leavesArmed_timeEvent harmed fuel, armed_timeEvent (hserved fuel rfl) fuel⟩

theorem armed_run {events : List (Env × HostEvent)} {now : Time}
    (hclock : (now :: events.map (fun e => e.1.now)).Pairwise (· ≤ ·))
    (harmed : Armed now armed h.tables) (hserved : h.AllServed events) :
    (⟨h, armed⟩ : TimedHost).noLostWakeup events = true := by
  induction events generalizing h armed now with
  | nil => rfl
  | cons e rest ih =>
      rw [List.map_cons, List.pairwise_cons] at hclock
      obtain ⟨hleaves, harmed'⟩ := armed_step
        (harmed.later (hclock.1 e.1.now List.mem_cons_self)) e.2 hserved.1
      rw [TimedHost.noLostWakeup, hleaves, Bool.true_and]
      exact ih hclock.2 harmed' hserved.2

/-- After a time event that is served, and as long as every further one is, each call of
`litedt_mod_evtime` leaves the timer set to the time it asks for, or to an earlier one. -/
theorem noLostWakeup_of_served {h : Host} {armed : Option Time} {env : Env} {fuel : Nat}
    {events : List (Env × HostEvent)} (hserved : h.AllServed ((env, .time fuel) :: events))
    (hclock : (env.now :: events.map (fun e => e.1.now)).Pairwise (· ≤ ·)) :
    ((⟨h, armed⟩ : TimedHost).step env (.time fuel)).noLostWakeup events = true :=
  armed_run hclock (armed_timeEvent (hserved.1 fuel rfl) fuel) hserved.2

def pinged : Env × HostEvent :=
  (.plain 50000, .io (.pingRsp .plain))

/-- The peer has answered and opens a flow, on which the host then sends. -/
def openedOnline : List (Env × HostEvent) :=
  [(.plain 1010000, .io (.connectReq 7 0)), (.plain 1020000, .call (.send 7 .three)),
    (.plain 1020000, .time 9)]

theorem noLostWakeup_openedOnline :
    ((litedtInit (.globalConfigInit Config.plainToken) 1 0).run
        ([(.plain 0, .time 1), pinged, (.plain 1000000, .time 9)] ++ openedOnline)).wakes =
          [(1010000, true), (1001000, true)] ∧
      ((⟨(litedtInit (.globalConfigInit Config.plainToken) 1 0).run [(.plain 0, .time 1), pinged],
        some 1000000⟩ : TimedHost).step (.plain 1000000) (.time 9)).noLostWakeup openedOnline =
          true := by
  refine ⟨by decide +kernel, noLostWakeup_of_served ?_ (by decide)⟩
  refine ⟨fun _ _ => by decide +kernel, fun _ hevent => absurd hevent (by simp),
    fun _ hevent => absurd hevent (by simp), fun _ _ => by decide +kernel, trivial⟩

/-- The first time event leaves `next_event_time` at the start. When the host is online, the flow
that the peer opens asks for a time event at once and does not get it. -/
theorem noLostWakeup_idle :
    ((⟨litedtInit (.globalConfigInit Config.plainToken) 1 0, none⟩ : TimedHost).step (.plain 0)
        (.time 1)).armed = some 1000000 ∧
      ((litedtInit (.globalConfigInit Config.plainToken) 1 0).run
        [(.plain 0, .time 1), pinged]).remoteOnline = true ∧
      ((litedtInit (.globalConfigInit Config.plainToken) 1 0).run
        [(.plain 0, .time 1), pinged, (.plain 60000, .io (.connectReq 7 0))]).wakes =
          [(60000, false)] ∧
      ((⟨litedtInit (.globalConfigInit Config.plainToken) 1 0, none⟩ : TimedHost).step (.plain 0)
        (.time 1)).noLostWakeup [pinged, (.plain 60000, .io (.connectReq 7 0))] = false := by
  decide +kernel

end Host

end Liteflow

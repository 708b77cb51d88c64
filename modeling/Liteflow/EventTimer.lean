import Liteflow.System

/-!
# The event timer of a host

The application calls `litedt_time_event` when a timer expires, and sets the timer to the time that
`litedt_time_event` returns. In between `litedt_mod_evtime` asks for an earlier call, through
`event_time_cb`, if it takes the timer to be set to a later time: it knows that time only from
`next_event_time`.
-/

namespace Liteflow

namespace Host

/-- What `litedt_time_event` returns; `none` for -1. -/
def eventAfter (env : Env) (fuel : Nat) (h : Host) : Option Time :=
  let h := h.updateTime env
  if h.closed then
    some 0
  else
    let pinged := h.sendPing env
    let (timewaitQueue, expireTime) := expireTimeWait env.now pinged.timewaitQueue
    let expired := { pinged with timewaitQueue := timewaitQueue }
    let nextTime := earlier (env.now + idleInterval) expireTime
    if expired.offlineTime ≤ env.now then
      none
    else if expired.remoteOnline then
      let served := expired.serve env fuel (min nextTime expired.offlineTime)
      some (max 0 (served.nextEventTime - env.now))
    else
      some (max 0 (min nextTime expired.offlineTime - env.now))

/-- The calls of `litedt_mod_evtime` during an event. -/
def wakesIn (h : Host) (env : Env) (event : HostEvent) : List (Time × Bool) :=
  (h.step env event).wakes.drop h.wakes.length

/-- `litedt_time_event` gets to the end of its work, where it assigns `next_event_time`, or returns
at once. -/
def Served (h : Host) (env : Env) : Prop :=
  h.closed = true ∨ env.now < h.offlineTime ∧ h.remoteOnline = true

instance (h : Host) (env : Env) : Decidable (h.Served env) :=
  inferInstanceAs (Decidable (_ ∨ _ ∧ _))

def AllServed : Host → List (Env × HostEvent) → Prop
  | _, [] => True
  | h, (env, event) :: rest =>
      (∀ fuel, event = .time fuel → h.Served env) ∧ AllServed (h.step env event) rest

end Host

/-- `liteflow_set_eventtime`: a call of `litedt_mod_evtime` sets the timer, or leaves it. -/
def setTimer (now : Time) (armed : Option Time) (wake : Time × Bool) : Option Time :=
  if wake.2 then some (max wake.1 now) else armed

/-- A host with its timer; `none` when the timer does not run. -/
structure TimedHost where
  host : Host
  armed : Option Time

/-- `litedt_timeout_cb` for a time event. -/
def TimedHost.step (s : TimedHost) (env : Env) (event : HostEvent) : TimedHost where
  host := s.host.step env event
  armed :=
    match event with
    | .time fuel => (s.host.eventAfter env fuel).map (fun after => env.now + after)
    | _ => (s.host.wakesIn env event).foldl (setTimer env.now) s.armed

/-- The timer runs, and expires no later than at `time`. -/
def expiresBy (time : Time) : Option Time → Bool
  | none => false
  | some armed => armed ≤ time

/-- Every one of the calls at `now` leaves the timer set to the time it asks for, or to an earlier
one. -/
def leavesArmed (now : Time) : Option Time → List (Time × Bool) → Bool
  | _, [] => true
  | armed, wake :: rest =>
      expiresBy (max wake.1 now) (setTimer now armed wake) && leavesArmed now (setTimer now armed wake) rest

/-- No call of the run is lost. -/
def TimedHost.noLostWakeup : TimedHost → List (Env × HostEvent) → Bool
  | _, [] => true
  | s, (env, event) :: rest =>
      leavesArmed env.now s.armed (s.host.wakesIn env event) && (s.step env event).noLostWakeup rest

end Liteflow

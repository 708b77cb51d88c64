import Liteflow.TimeEvent

/-!
# The counters of the congestion control

`Host.gauges h` are the counters that decide how fast a host sends: the packets in flight and
delivered, the mark up to which the application has limited the rate, the rounds and the pacing rate.
A `GaugeAct` is one thing that the code does to them, and a run is a list of acts. The host records
its acts, so the counters of a host are the run of its own record.
-/

namespace Liteflow

structure Gauges where
  cfg : Config
  pacingRate : U32
  inflight : U32
  delivered : U32
  appLimited : U32
  rttRound : U32
  nextRttDelivered : U32
  counts : List GaugeAct

def Host.gauges (h : Host) : Gauges where
  cfg := h.cfg
  pacingRate := h.pacingRate
  inflight := h.inflight
  delivered := h.delivered
  appLimited := h.appLimited
  rttRound := h.rttRound
  nextRttDelivered := h.nextRttDelivered
  counts := h.counts

namespace Gauges

/-- `(host->delivered + 1) ? : 1`. -/
def advance (delivered : U32) : U32 :=
  orElse (delivered + 1) 1

def packetDelivered (g : Gauges) : Gauges :=
  { g with inflight := g.inflight - 1, delivered := advance g.delivered }

def packetAbandon (g : Gauges) : Gauges :=
  { g with inflight := g.inflight - 1, appLimited := g.appLimited - 1 }

def clearAppLimited (g : Gauges) : Gauges :=
  if g.appLimited ≠ 0 ∧ lessEqual g.delivered g.appLimited = false then { g with appLimited := 0 }
  else g

def countRound (g : Gauges) : Gauges :=
  if lessEqual g.nextRttDelivered g.delivered then
    { g with nextRttDelivered := g.delivered, rttRound := g.rttRound + 1 }
  else
    g

def generateBandwidth (g : Gauges) (newlyDelivered : U32) : Gauges :=
  if newlyDelivered = 0 then g.clearAppLimited else g.clearAppLimited.countRound

def limitedUntil (g : Gauges) : U32 :=
  orElse (g.delivered + g.inflight) 1

def change (g : Gauges) : GaugeAct → Gauges
  | .post => { g with inflight := g.inflight + 1 }
  | .deliver => g.packetDelivered
  | .sample newlyDelivered => g.generateBandwidth newlyDelivered
  | .release n => packetAbandon^[n] g
  | .limit => { g with appLimited := g.limitedUntil }
  | .probe => { g with nextRttDelivered := g.delivered }
  | .pace rate =>
      { g with pacingRate := umin (umax rate g.cfg.transmitRateMin) g.cfg.transmitRateMax }

def apply (g : Gauges) (act : GaugeAct) : Gauges :=
  { g with counts := g.counts ++ [act] }.change act

def run (g : Gauges) (acts : List GaugeAct) : Gauges :=
  acts.foldl apply g

/-- An acknowledgement that releases `n` packets. -/
def ack (n : Nat) (g : Gauges) : Gauges :=
  let released := (fun g => g.apply .deliver)^[n] g
  released.apply (.sample (released.delivered - g.delivered))

end Gauges

end Liteflow

import Liteflow.Proof.ConfigFile
import Liteflow.Proof.RefineGauges

/-!
# The pacing rate as a divisor

`litedt_time_event` divides by `pacing_rate` for the interval in which it gives credit, and again in
`check_retrans_queue` and `check_transmit_queue`. The rate is `transmit_rate_init` at first, and
whatever `ctrl.c` computes later goes through `pacing_rate_postcheck`, so it is not zero as long as
none of the three settings is. No check of the configuration file sees to that.
-/

namespace Liteflow

namespace Host

variable {env : Env} {h h' : Host}

/-- The host with which `litedt_time_event` serves the peer, if the peer is online. -/
def serving (env : Env) (h : Host) : Option Host :=
  let h := h.updateTime env
  if h.closed then
    none
  else
    let pinged := h.sendPing env
    let expired :=
      { pinged with timewaitQueue := (expireTimeWait env.now pinged.timewaitQueue).1 }
    if expired.offlineTime ≤ env.now then none
    else if expired.remoteOnline then some expired
    else none

/-- The states in which `litedt_time_event` divides by `pacing_rate`; the loops of
`check_transmit_queue` pass some of them. -/
inductive Divides (env : Env) (fuel : Nat) (nextTime : Time) (h : Host) : Host → Prop where
  /-- `pacing_interval`. -/
  | credit : Divides env fuel nextTime h h
  | retrans {checked queued : Host × Time}
      (hchecked : checkConnectionState env fuel h.addCredit.ctrlTimeEvent nextTime = checked)
      (hqueued : retransActive checked.1.curTime checked.1.activeQueue.flows checked.1 checked.2 = queued) :
      Divides env fuel nextTime h (queued.1.retransQueueSend env)
  | transmit {checked : Host × Time}
      (hchecked : checkConnectionState env fuel h.addCredit.ctrlTimeEvent nextTime = checked)
      (flows : List U32) (limited : Bool) (time : Time) (flow : U32) (turns : Nat) :
      Divides env fuel nextTime h
        (((checked.1.checkRetransQueue env checked.2).1.transmitActive env flows limited time).1.transmitLoop
          env flow turns).2

theorem acts_of_serving (fuel : Nat) (hserving : h.serving env = some h') :
    Acts env (.time fuel) (fun _ => True) h h' := by
  have hexpired : Acts env (.time fuel) (fun _ => True) h _ := (Acts.refl h).expired fun _ => trivial
  unfold serving at hserving
  dsimp only at hserving
  split at hserving
  · cases hserving
  · split at hserving
    · cases hserving
    · split at hserving
      · obtain rfl := Option.some.inj hserving
        exact hexpired
      · cases hserving

theorem Divides.leads {fuel : Nat} {nextTime : Time} (hdivides : Divides env fuel nextTime h h') :
    h.gauges.Leads (fun _ => True) h'.gauges := by
  have hleads {h h' : Host} (hs : Acts env (.time fuel) (fun _ => True) h h') :
      h.gauges.Leads (fun _ => True) h'.gauges := hs.leads.mono fun _ _ => trivial
  have hcontrolled : Acts env (.time fuel) (fun _ => True) h h.addCredit.ctrlTimeEvent :=
    (Acts.refl h).addCredit.act .control
  have hall : ∀ _ : Packet, True := fun _ => trivial
  have hchecked := hcontrolled.checkConnectionState hall fuel nextTime
  cases hdivides with
  | credit => exact .of_eq rfl
  | retrans heq hqueued =>
      subst heq hqueued
      exact hleads ((hchecked.retransActive _ _ _).retransQueueLoop hall rfl _)
  | transmit heq flows limited time flow turns =>
      subst heq
      refine Gauges.Leads.trans ?_ (hleads ((Acts.refl _).transmitLoop hall rfl flow turns))
      exact transmitActive_preserves
        (P := fun _ h' => h.gauges.Leads (fun _ => True) h'.gauges) id id
        (fun g fuel' hled => hled.trans (hleads ((Acts.refl _).transmitLoop hall rfl g fuel'))) id
        (fun _ _ hled => hled) limited time (hleads (hchecked.checkRetransQueue hall rfl _))

end Host

/-! ### The rate along a run -/

structure Gauges.Paced (g : Gauges) : Prop where
  rate : g.pacingRate ≠ 0
  min : g.cfg.transmitRateMin ≠ 0
  max : g.cfg.transmitRateMax ≠ 0

namespace Gauges

variable {g g' : Gauges}

theorem Paced.of_eq (hpaced : g.Paced) (hrate : g'.pacingRate = g.pacingRate) (hcfg : g'.cfg = g.cfg) :
    g'.Paced := by
  refine ⟨?_, ?_, ?_⟩
  · rw [hrate]
    exact hpaced.rate
  · rw [hcfg]
    exact hpaced.min
  · rw [hcfg]
    exact hpaced.max

theorem clamped_ne_zero {rate low high : U32} (hlow : low ≠ 0) (hhigh : high ≠ 0) :
    umin (umax rate low) high ≠ 0 := by
  intro hzero
  have hvalue := congrArg BitVec.toNat hzero
  rw [umin_toNat, umax_toNat] at hvalue
  have hlow' : low.toNat ≠ 0 := fun h => hlow (BitVec.eq_of_toNat_eq h)
  have hhigh' : high.toNat ≠ 0 := fun h => hhigh (BitVec.eq_of_toNat_eq h)
  have hvalue' : min (max rate.toNat low.toNat) high.toNat = 0 := hvalue
  omega

theorem paced_packetAbandon (g : Gauges) (hpaced : g.Paced) : g.packetAbandon.Paced :=
  hpaced.of_eq rfl rfl

theorem Paced.change (hpaced : g.Paced) (act : GaugeAct) : (g.change act).Paced := by
  cases act with
  | post => exact hpaced.of_eq rfl rfl
  | deliver => exact hpaced.of_eq rfl rfl
  | sample newlyDelivered =>
      have hcleared : g.clearAppLimited.Paced := by
        unfold clearAppLimited
        split
        · exact hpaced.of_eq rfl rfl
        · exact hpaced
      rw [Gauges.change, generateBandwidth]
      split
      · exact hcleared
      · unfold countRound
        split
        · exact hcleared.of_eq rfl rfl
        · exact hcleared
  | release n => exact Function.Iterate.rec Paced hpaced paced_packetAbandon n
  | limit => exact hpaced.of_eq rfl rfl
  | probe => exact hpaced.of_eq rfl rfl
  | pace rate => exact ⟨clamped_ne_zero hpaced.min hpaced.max, hpaced.min, hpaced.max⟩

theorem Paced.leads {allowed : GaugeAct → Prop} (hpaced : g.Paced) (hleads : g.Leads allowed g') :
    g'.Paced := by
  obtain ⟨acts, -, rfl⟩ := hleads
  unfold run
  induction acts generalizing g with
  | nil => exact hpaced
  | cons act rest ih =>
      have hcounted : { g with counts := g.counts ++ [act] }.Paced := hpaced.of_eq rfl rfl
      exact ih (hcounted.change act)

end Gauges

/-- With settings from an accepted file in which none of the three rates is zero, `pacing_rate` is not
zero in any state in which a time event divides by it. -/
theorem pacingRate_ne_zero (nodeId : U32) (file : FileContent) (rto : U32 → Int)
    (generateToken : U16 → List Byte → Token) :
    ∀ transport ∈ loadTransport nodeId file, transport.transmitRateInit ≠ 0 →
      transport.transmitRateMin ≠ 0 → transport.transmitRateMax ≠ 0 →
      ∀ (node : U16) (now : Time) (events : List (Env × HostEvent)) (env : Env) (fuel : Nat)
        (nextTime : Time) (h h' : Host),
        ((Host.litedtInit (transport.config rto generateToken) node now).run events).serving env =
          some h →
        Host.Divides env fuel nextTime h h' → h'.pacingRate ≠ 0 := by
  intro transport _ hinit hmin hmax node now events env fuel nextTime h h' hserving hdivides
  have hstart : (Host.litedtInit (transport.config rto generateToken) node now).gauges.Paced :=
    ⟨hinit, hmin, hmax⟩
  have hrun := hstart.leads (Host.leads_run _ events)
  have hserved := hrun.leads (Host.acts_of_serving fuel hserving).leads
  exact (hserved.leads hdivides.leads).rate

def rateFile (rate : Nat) : FileContent :=
  .json (.object [("transport".toList, .object [("transmit_rate_init".toList, .integer rate)])])

def rateSettings (rate : Nat) : TransportSettings :=
  (loadTransport 1 (rateFile rate)).getD (globalConfigDefaults 1).transport

def Host.rated (rate : Nat) : Host :=
  (litedtInit ((rateSettings rate).config (fun rtt => rtt.toNat) Config.plainToken) 1 0).run
    [(.plain 0, .time 1),
      (.plain 1, .io (.pingRsp .plain))]

theorem rateSettings_mem {rate : Nat} (hload : (loadTransport 1 (rateFile rate)).isSome = true) :
    rateSettings rate ∈ loadTransport 1 (rateFile rate) := by
  obtain ⟨transport, htransport⟩ := Option.isSome_iff_exists.mp hload
  rw [rateSettings, htransport]
  rfl

theorem pacingRate_ne_zero_rated :
    ∃ h, (Host.rated 5000).serving (.plain 2) = some h ∧ h.pacingRate ≠ 0 := by
  have hsome : ((Host.rated 5000).serving (.plain 2)).isSome = true := by decide +kernel
  obtain ⟨h, hserving⟩ := Option.isSome_iff_exists.mp hsome
  exact ⟨h, hserving, pacingRate_ne_zero 1 (rateFile 5000) (fun rtt => rtt.toNat) Config.plainToken
    (rateSettings 5000) (rateSettings_mem (by decide +kernel)) (by decide +kernel) (by decide +kernel)
    (by decide +kernel) 1 0 _ (.plain 2) 0 0 h h hserving .credit⟩

/-- A file with `transmit_rate_init` 0 is accepted, and the first time event that serves the peer
divides by zero. -/
theorem pacingRate_zero_rated :
    rateSettings 0 ∈ loadTransport 1 (rateFile 0) ∧
      ∃ h, (Host.rated 0).serving (.plain 2) = some h ∧ Host.Divides (.plain 2) 0 0 h h ∧
        h.pacingRate = 0 := by
  refine ⟨rateSettings_mem (by decide +kernel), ?_⟩
  have hzero : ((Host.rated 0).serving (.plain 2)).map Host.pacingRate = some 0 := by decide +kernel
  obtain ⟨h, hserving, hrate⟩ := Option.map_eq_some_iff.mp hzero
  exact ⟨h, hserving, .credit, hrate⟩

end Liteflow

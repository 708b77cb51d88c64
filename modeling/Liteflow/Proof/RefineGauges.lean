import Liteflow.Proof.RefineActs
import Liteflow.Proof.Touches

/-!
# The host refines its counters

What an act of the host does to the counters is a list of their acts. Only an acknowledgement counts
packets as delivered or begins a round.
-/

namespace Liteflow

/-- Acts that leave `delivered` and the rounds alone. -/
def GaugeAct.steady : GaugeAct → Bool
  | deliver => false
  | sample _ => false
  | probe => false
  | _ => true

/-- Acts of `ctrl_io_event`. -/
def GaugeAct.control : GaugeAct → Bool
  | limit => true
  | probe => true
  | pace _ => true
  | _ => false

def HostEvent.isAck : HostEvent → Bool
  | io (.dataAck _ _) => true
  | _ => false

def Gauges.Leads (allowed : GaugeAct → Prop) (g g' : Gauges) : Prop :=
  ∃ acts, (∀ act ∈ acts, allowed act) ∧ g' = g.run acts

namespace Gauges

variable {allowed : GaugeAct → Prop} {g g' g'' : Gauges}

theorem Leads.of_eq (heq : g' = g) : Leads allowed g g' :=
  ⟨[], by simp, heq⟩

theorem Leads.trans (h : Leads allowed g g') (h' : Leads allowed g' g'') :
    Leads allowed g g'' := by
  obtain ⟨acts, hacts, rfl⟩ := h
  obtain ⟨acts', hacts', rfl⟩ := h'
  refine ⟨acts ++ acts', fun act hact => ?_, (List.foldl_append ..).symm⟩
  exact (List.mem_append.mp hact).elim (hacts act) (hacts' act)

theorem Leads.single (act : GaugeAct) (hact : allowed act) (heq : g' = g.apply act) :
    Leads allowed g g' :=
  ⟨[act], by simpa using hact, heq⟩

theorem Leads.mono {allowed' : GaugeAct → Prop} (h : Leads allowed g g')
    (hmono : ∀ act, allowed act → allowed' act) : Leads allowed' g g' := by
  obtain ⟨acts, hacts, heq⟩ := h
  exact ⟨acts, fun act hact => hmono act (hacts act hact), heq⟩

/-! ### Packets counted one by one -/

theorem toNat_advance (delivered : U32) :
    (advance delivered).toNat =
      if delivered.toNat + 1 = 2 ^ 32 then 1 else delivered.toNat + 1 := by
  have hlt := delivered.isLt
  have hsum : (delivered + 1).toNat = (delivered.toNat + 1) % 2 ^ 32 := BitVec.toNat_add ..
  unfold advance orElse
  split
  · rename_i hzero
    have hvalue : (0 : U32).toNat = (delivered.toNat + 1) % 2 ^ 32 := hzero ▸ hsum
    change 0 = (delivered.toNat + 1) % 2 ^ 32 at hvalue
    rw [if_pos (by omega)]
    rfl
  · rename_i hzero
    have hne : (delivered + 1).toNat ≠ 0 := fun heq => hzero (BitVec.eq_of_toNat_eq heq)
    rw [if_neg (by omega)]
    omega

theorem advance_iterate (delivered : U32) {k : Nat} (hk : k < 2 ^ 31) :
    advance^[k] delivered = delivered + BitVec.ofNat 32 k ∨
      advance^[k] delivered = delivered + BitVec.ofNat 32 k + 1 := by
  have hlt := delivered.isLt
  have hvalue : (advance^[k] delivered).toNat =
      if delivered.toNat + k < 2 ^ 32 then delivered.toNat + k
      else delivered.toNat + k + 1 - 2 ^ 32 := by
    induction k with
    | zero => exact (if_pos hlt).symm
    | succ k ih =>
        rw [Function.iterate_succ_apply', toNat_advance, ih (by omega)]
        split_ifs <;> omega
  by_cases hwrap : delivered.toNat + k < 2 ^ 32
  · left
    apply BitVec.eq_of_toNat_eq
    rw [hvalue, if_pos hwrap, BitVec.toNat_add, BitVec.toNat_ofNat]
    omega
  · right
    apply BitVec.eq_of_toNat_eq
    rw [hvalue, if_neg hwrap, BitVec.toNat_add, BitVec.toNat_add, BitVec.toNat_ofNat]
    change _ = ((delivered.toNat + k % 2 ^ 32) % 2 ^ 32 + 1) % 2 ^ 32
    omega

theorem sub_ofNat_succ (x : U32) (k : Nat) :
    x - BitVec.ofNat 32 (k + 1) = x - BitVec.ofNat 32 k - 1 := by
  rw [BitVec.ofNat_add]
  exact sub_add_eq_sub_sub x (BitVec.ofNat 32 k) 1

theorem deliver_iterate (g : Gauges) (k : Nat) :
    ∃ counts, (fun g => g.apply .deliver)^[k] g =
      { g with
        inflight := g.inflight - BitVec.ofNat 32 k
        delivered := advance^[k] g.delivered
        counts := counts } := by
  induction k with
  | zero => exact ⟨g.counts, by simp⟩
  | succ k ih =>
      obtain ⟨counts, heq⟩ := ih
      rw [Function.iterate_succ_apply', heq, Function.iterate_succ_apply', sub_ofNat_succ]
      exact ⟨_, rfl⟩

theorem packetAbandon_iterate (g : Gauges) (k : Nat) :
    packetAbandon^[k] g =
      { g with
        inflight := g.inflight - BitVec.ofNat 32 k
        appLimited := g.appLimited - BitVec.ofNat 32 k } := by
  induction k with
  | zero => simp
  | succ k ih =>
      rw [Function.iterate_succ_apply', ih, sub_ofNat_succ, sub_ofNat_succ]
      rfl

theorem clearAppLimited_eq (g : Gauges) :
    ∃ mark, g.clearAppLimited = { g with appLimited := mark } := by
  unfold clearAppLimited
  split
  · exact ⟨0, rfl⟩
  · exact ⟨g.appLimited, rfl⟩

theorem apply_sample (g : Gauges) (newlyDelivered : U32) :
    ∃ mark, g.apply (.sample newlyDelivered) =
      if newlyDelivered = 0 then
        { g with appLimited := mark, counts := g.counts ++ [GaugeAct.sample newlyDelivered] }
      else
        { g with
          appLimited := mark
          counts := g.counts ++ [GaugeAct.sample newlyDelivered] }.countRound := by
  obtain ⟨mark, hcleared⟩ := clearAppLimited_eq
    { g with counts := g.counts ++ [.sample newlyDelivered] }
  refine ⟨mark, ?_⟩
  rw [apply, change, generateBandwidth, hcleared]

theorem counts_apply (g : Gauges) (act : GaugeAct) : (g.apply act).counts = g.counts ++ [act] := by
  cases act with
  | release n => rw [apply, change, packetAbandon_iterate]
  | sample newlyDelivered =>
      obtain ⟨mark, heq⟩ := g.apply_sample newlyDelivered
      rw [heq, countRound]
      split
      · rfl
      · split <;> rfl
  | _ => rfl

theorem counts_run (g : Gauges) (acts : List GaugeAct) : (g.run acts).counts = g.counts ++ acts := by
  induction acts generalizing g with
  | nil => exact (List.append_nil _).symm
  | cons act rest ih =>
      refine (ih (g.apply act)).trans ?_
      rw [counts_apply, List.append_assoc]
      rfl

theorem leads_deliver (hdeliver : allowed .deliver) (g : Gauges) (n : Nat) :
    Leads allowed g ((fun g => g.apply .deliver)^[n] g) := by
  induction n with
  | zero => exact .of_eq rfl
  | succ n ih =>
      rw [Function.iterate_succ_apply']
      exact ih.trans (.single .deliver hdeliver rfl)

end Gauges

namespace Host

open Gauges

variable {env : Env} {h h' : Host} {flow : U32} {conn : Conn} {allowed : GaugeAct → Prop}

/-! ### Small functions -/

theorem gauges_litedtModEvtime (target : Option U32) (time : Time) :
    (h.litedtModEvtime target time).gauges = h.gauges := by
  refine litedtModEvtime_keeps (P := fun h' => h'.gauges = h.gauges) rfl ?_ fun _ hsame _ _ => hsame
  rintro g - moved rfl
  rfl

theorem gauges_activate (flow : U32) : (h.activate flow).gauges = h.gauges := by
  unfold activate
  split
  · rfl
  · split <;> rfl

theorem leads_createPacketEntry (hpost : allowed .post) (flow seq length fecSeq : U32)
    (fecIndex : U8) :
    h.gauges.Leads allowed (h.createPacketEntry env flow seq length fecSeq fecIndex).gauges := by
  unfold createPacketEntry
  split
  · exact .of_eq rfl
  · split
    · exact .of_eq rfl
    · exact .single .post hpost rfl

theorem gauges_retransModFini (flow : U32) (packets : List PacketEntry) :
    (h.retransModFini flow packets).gauges = packetAbandon^[packets.length] h.gauges := by
  unfold retransModFini
  induction packets generalizing h with
  | nil => rfl
  | cons packet rest ih =>
      have habandoned : (h.abandonPacket flow packet).gauges = h.gauges.packetAbandon := by
        unfold abandonPacket
        dsimp only
        split <;> rfl
      rw [List.foldl_cons, ih, habandoned]
      rfl

theorem gauges_releaseConnection (hfind : h.findConnection flow = some conn) (cause : ReleaseCause) :
    (h.releaseConnection env cause flow).gauges =
      h.gauges.apply (.release conn.packetList.treemapSize) := by
  have hinactive (inactive : Host) (heq : inactive.gauges = h.gauges) :
      ((inactive.count (.release conn.packetList.treemapSize)).retransModFini flow
        (conn.packetList.toList.map Prod.snd)).gauges =
          h.gauges.apply (.release conn.packetList.treemapSize) := by
    rw [gauges_retransModFini, List.length_map, Gauges.apply, ← heq]
    rfl
  unfold releaseConnection
  rw [hfind]
  dsimp only
  split
  · exact hinactive _ rfl
  · exact hinactive _ rfl

/-! ### Acknowledged packets -/

/-- The entries of a flow have been released, `n` in all, and `c` is left of the connection. -/
structure Released (flow : U32) (h h' : Host) (c : Stream) (n : Nat) : Prop where
  find : ∃ conn, h'.findConnection flow = some conn ∧ conn.toStream = c
  touches : Touches flow h h'
  gauges : h'.gauges = (fun g => g.apply .deliver)^[n] h.gauges

theorem Released.trans {h'' : Host} {c c' : Stream} {n m : Nat} (hr : Released flow h h' c n)
    (hr' : Released flow h' h'' c' m) : Released flow h h'' c' (n + m) where
  find := hr'.find
  touches := hr.touches.trans hr'.touches
  gauges := by rw [hr'.gauges, hr.gauges, ← Function.iterate_add_apply, Nat.add_comm]

theorem released_modifyConn (hfind : h.findConnection flow = some conn) (update : Conn → Conn) :
    Released flow h (h.modifyConn flow update) (update conn).toStream 0 where
  find := by
    rw [findConnection_modifyConn, if_pos rfl, hfind]
    exact ⟨_, rfl, rfl⟩
  touches := (Touches.refl h).modifyConn update
  gauges := rfl

variable (env) in
theorem released_releasePackets (hfind : h.findConnection flow = some conn)
    (released : Stream × List PacketEntry) (rs : RateSample) :
    Released flow h (h.releasePackets env flow released rs).1 released.1 released.2.length := by
  have hentry (state : Host × RateSample) (packet : PacketEntry) :
      (releasePacketEntry env flow state packet).1.gauges = state.1.gauges.apply .deliver ∧
        (releasePacketEntry env flow state packet).1.connQueue = state.1.connQueue ∧
        (releasePacketEntry env flow state packet).1.curTime = state.1.curTime := by
    unfold releasePacketEntry Host.packetDelivered
    dsimp only
    split <;> split <;> exact ⟨rfl, rfl, rfl⟩
  have hloop (packets : List PacketEntry) (state : Host × RateSample) :
      (packets.foldl (releasePacketEntry env flow) state).1.gauges =
          (fun g => g.apply .deliver)^[packets.length] state.1.gauges ∧
        (packets.foldl (releasePacketEntry env flow) state).1.connQueue = state.1.connQueue ∧
        (packets.foldl (releasePacketEntry env flow) state).1.curTime = state.1.curTime := by
    induction packets generalizing state with
    | nil => exact ⟨rfl, rfl, rfl⟩
    | cons packet rest ih =>
        obtain ⟨hgauges, hconns, htime⟩ := hentry state packet
        obtain ⟨hgauges', hconns', htime'⟩ := ih (releasePacketEntry env flow state packet)
        rw [List.foldl_cons, hgauges', hgauges]
        exact ⟨rfl, hconns'.trans hconns, htime'.trans htime⟩
  obtain ⟨hgauges, hconns, htime⟩ := hloop released.2 (h.modifyStream flow (fun _ => released.1), rs)
  have hmodified := released_modifyConn hfind (fun c => { c with toStream := released.1 })
  have hsame : (h.releasePackets env flow released rs).1.findConnection flow =
      (h.modifyStream flow (fun _ => released.1)).findConnection flow :=
    congrArg (fun queue => Timerlist.timerlistGet queue flow) hconns
  refine ⟨?_, hmodified.touches.aside hconns htime, hgauges⟩
  rw [hsame]
  exact hmodified.find

variable (env) in
theorem released_releaseRanges (acks : List (U32 × U32)) (hfind : h.findConnection flow = some conn)
    (rs : RateSample) :
    Released flow h (releaseRanges env flow acks h rs).1 (conn.toStream.releaseRanges acks).1
      (conn.toStream.releaseRanges acks).2.length := by
  unfold releaseRanges
  induction acks generalizing h conn rs with
  | nil => exact ⟨⟨conn, hfind, rfl⟩, .refl h, rfl⟩
  | cons range rest ih =>
      rw [List.foldl_cons, Stream.releaseRanges]
      have hrange : Released flow h (h.releasePacketRange env flow range.1 range.2 rs).1
          (conn.toStream.releaseRange range.1 range.2).1
          (conn.toStream.releaseRange range.1 range.2).2.length := by
        unfold releasePacketRange
        rw [hfind]
        exact released_releasePackets env hfind _ rs
      obtain ⟨conn', hfind', hstream⟩ := hrange.find
      have hrest := ih hfind' (h.releasePacketRange env flow range.1 range.2 rs).2
      rw [hstream] at hrest
      dsimp only
      rw [List.length_append]
      exact hrange.trans hrest

variable (env) in
theorem released_moveWindow (hfind : h.findConnection flow = some conn) (ack : DataAck)
    (rs : RateSample) :
    Released flow h (h.moveWindow env flow ack rs).1
      (conn.toStream.releaseWindow env.alloc.node h.curTime ack).1
      (conn.toStream.releaseWindow env.alloc.node h.curTime ack).2.length := by
  have hsame : Released flow h h conn.toStream 0 := ⟨⟨conn, hfind, rfl⟩, .refl h, rfl⟩
  unfold moveWindow Stream.releaseWindow
  rw [hfind]
  dsimp only
  split
  · cases hmoved : conn.moveSwin env.alloc.node h.curTime ack with
    | none => exact ⟨hsame.find, (Touches.refl h).record _, rfl⟩
    | some moved =>
        have hmodified := released_modifyConn hfind
          (fun c => { c with toStream := moved, probesSent := 0 })
        obtain ⟨conn', hfind', hstream⟩ := hmodified.find
        have hreleased := released_releasePackets env hfind'
          (conn'.toStream.checkpoint ack.winStart) rs
        have hboth := hmodified.trans hreleased
        rw [Nat.zero_add, hstream] at hboth
        dsimp only
        unfold retransCheckpoint
        rw [hfind']
        dsimp only
        rw [hstream]
        exact hboth
  · exact hsame

/-! ### Congestion control -/

theorem gauges_generateBandwidth (rs : RateSample) (newlyDelivered : U32) :
    (h.generateBandwidth rs newlyDelivered).gauges = h.gauges.apply (.sample newlyDelivered) := by
  have hcleared (h : Host) : h.clearAppLimited.gauges = h.gauges.clearAppLimited := by
    by_cases hpassed : h.appLimited ≠ 0 ∧ lessEqual h.delivered h.appLimited = false
    · rw [Host.clearAppLimited, if_pos hpassed]
      exact (if_pos hpassed).symm
    · rw [Host.clearAppLimited, if_neg hpassed]
      exact (if_neg hpassed).symm
  have hcounted (h : Host) : h.countRound.gauges = h.gauges.countRound := by
    by_cases hround : lessEqual h.nextRttDelivered h.delivered = true
    · rw [Host.countRound, if_pos hround]
      exact (if_pos hround).symm
    · rw [Host.countRound, if_neg hround]
      exact (if_neg hround).symm
  have hsampled (h : Host) (interval : Time) : (h.sampleBandwidth rs interval).gauges = h.gauges := by
    unfold sampleBandwidth
    dsimp only
    split <;> rfl
  have hsmoothed (h : Host) : (h.smoothRtt rs).gauges = h.gauges := by
    unfold smoothRtt
    split
    · rfl
    · split <;> rfl
  have hrounded (h : Host) : ({ h.clearAppLimited with deliveredTime := h.curTime }.countRound).gauges =
      h.gauges.clearAppLimited.countRound := by
    rw [hcounted, ← hcleared]
    rfl
  unfold Host.generateBandwidth Gauges.apply Gauges.change Gauges.generateBandwidth
  dsimp only
  split
  · exact hcleared _
  · split
    · exact hrounded _
    · rw [hsmoothed, hsampled, hrounded]
      rfl

theorem leads_checkProbeRttDone (hpace : ∀ rate, allowed (.pace rate)) :
    h.gauges.Leads allowed h.checkProbeRttDone.gauges := by
  unfold checkProbeRttDone
  split
  · exact .single (.pace _) (hpace _) rfl
  · exact .of_eq rfl

theorem leads_probeRtt : h.gauges.Leads (fun act => act.control = true) h.probeRtt.gauges := by
  have hlimited : h.gauges.Leads (fun act => act.control = true)
      h.limit.gauges :=
    .single .limit rfl rfl
  unfold probeRtt
  dsimp only
  split
  · split
    · exact hlimited.trans (.single .probe rfl rfl)
    · split
      · split
        · refine hlimited.trans (.trans (.of_eq ?_) (leads_checkProbeRttDone fun _ => rfl))
          rfl
        · exact hlimited
      · exact hlimited
  · exact .of_eq rfl

theorem leads_ctrlIoEvent (rs : RateSample) :
    h.gauges.Leads (fun act => act.control = true) (h.ctrlIoEvent rs).gauges := by
  have hchecked : (h.checkFullBwReached rs).gauges = h.gauges := by
    unfold checkFullBwReached
    split
    · rfl
    · split <;> rfl
  have hentered (h : Host) (expired : Bool) :
      ((h.sampleMinRtt rs).enterProbeRtt expired).gauges = h.gauges := by
    unfold enterProbeRtt
    split <;> rfl
  unfold ctrlIoEvent updateMinRtt
  exact (Gauges.Leads.of_eq ((hentered _ _).trans hchecked)).trans leads_probeRtt

theorem gauges_checkDrain (rate : U32) :
    h.checkDrain.gauges.apply (.pace rate) = h.gauges.apply (.pace rate) ∨
      h.checkDrain.gauges.apply (.pace rate) = (h.gauges.apply .limit).apply (.pace rate) := by
  have hentered : h.enterDrain.gauges = h.gauges := by
    unfold enterDrain
    split <;> rfl
  rw [checkDrain, ← hentered]
  generalize h.enterDrain = h
  unfold drain
  split
  · split
    · exact .inr rfl
    · exact .inr rfl
  · exact .inl rfl

theorem gauges_pacingRatePostcheck :
    ∃ rate, h.updatePacingRate.pacingRatePostcheck.gauges = h.gauges.apply (.pace rate) := by
  unfold updatePacingRate
  dsimp only
  cases h.ctrl.bbrMode with
  | startup => exact ⟨_, rfl⟩
  | drain => exact ⟨_, rfl⟩
  | probeBw => exact ⟨_, rfl⟩
  | probeRtt => exact ⟨_, rfl⟩

theorem leads_ctrlTimeEvent (hlimit : allowed .limit) (hpace : ∀ rate, allowed (.pace rate)) :
    h.gauges.Leads allowed h.ctrlTimeEvent.gauges := by
  unfold ctrlTimeEvent
  split
  · exact .of_eq rfl
  · set started : Host := { h with ctrl := { h.ctrl with roundStart := true } }
    obtain ⟨rate, hpaced⟩ := gauges_pacingRatePostcheck (h := started.checkDrain)
    change Gauges.Leads allowed started.gauges
      started.checkDrain.updatePacingRate.pacingRatePostcheck.gauges
    rw [hpaced]
    rcases gauges_checkDrain (h := started) rate with heq | heq
    · exact .single (.pace rate) (hpace rate) heq
    · exact (Leads.single .limit hlimit rfl).trans (.single (.pace rate) (hpace rate) heq)

/-! ### Acts -/

variable (env) in
theorem released_moved (hfind : h.findConnection flow = some conn) (ack : DataAck) :
    Released flow h
      (((releaseRanges env flow ack.acks (h.modifyStream flow Stream.establish) {}).1.moveWindow env
        flow ack (releaseRanges env flow ack.acks (h.modifyStream flow Stream.establish) {}).2).1)
      (conn.toStream.releaseAcked env.alloc.node h.curTime ack).1
      (conn.toStream.releaseAcked env.alloc.node h.curTime ack).2.length := by
  have hestablished := released_modifyConn hfind
    (fun c => { c with toStream := c.toStream.establish })
  obtain ⟨conn', hfind', hstream'⟩ := hestablished.find
  have hranged := hestablished.trans (released_releaseRanges env ack.acks hfind' {})
  rw [Nat.zero_add, hstream'] at hranged
  change Released flow h (releaseRanges env flow ack.acks (h.modifyStream flow Stream.establish) {}).1
    (conn.establish.releaseRanges ack.acks).1 (conn.establish.releaseRanges ack.acks).2.length at hranged
  generalize releaseRanges env flow ack.acks (h.modifyStream flow Stream.establish) {} = ranged
    at hranged ⊢
  obtain ⟨conn'', hfind'', hstream''⟩ := hranged.find
  have hmoved := hranged.trans (released_moveWindow env hfind'' ack ranged.2)
  rw [hstream'', hranged.touches.curTime, ← List.length_append] at hmoved
  exact hmoved

variable (env) in
theorem leads_releaseAcked (hfind : h.findConnection flow = some conn) (ack : DataAck) :
    (h.gauges.ack (conn.toStream.releaseAcked env.alloc.node h.curTime ack).2.length).Leads
      (fun act => act.control = true) (h.releaseAcked env flow ack).gauges := by
  have hmoved := (released_moved env hfind ack).gauges
  unfold Host.releaseAcked
  dsimp only
  generalize conn.toStream.releaseAcked env.alloc.node h.curTime ack = released at hmoved ⊢
  generalize releaseRanges env flow ack.acks (h.modifyStream flow Stream.establish) {} = ranged
    at hmoved ⊢
  generalize ranged.1.moveWindow env flow ack ranged.2 = moved at hmoved ⊢
  have hgenerated : (moved.1.generateBandwidth moved.2 (moved.1.delivered - h.delivered)).gauges =
      h.gauges.ack released.2.length := by
    rw [gauges_generateBandwidth, Gauges.ack, ← hmoved]
    rfl
  rw [← hgenerated]
  exact leads_ctrlIoEvent moved.2

end Host

open Host in
theorem Act.leads {env : Env} {event : HostEvent} {may : Packet → Prop} {h h' : Host}
    (hact : Act env event may h h') :
    h.gauges.Leads (fun act => act.steady = true ∨ event.isAck = true) h'.gauges := by
  cases hact with
  | aside htables hgauges hqueue hbytes => exact .of_eq hgauges
  | send flight credit hmay => exact .of_eq rfl
  | note entry hentry => exact .of_eq rfl
  | wake flow time => exact .of_eq (gauges_litedtModEvtime flow time)
  | update flow update hactive hquiet => exact .of_eq rfl
  | write flow update hfind hpackets => exact .of_eq (gauges_activate flow)
  | post flow seq length fecSeq fecIndex hevent hpending =>
      exact leads_createPacketEntry (.inl rfl) flow seq length fecSeq fecIndex
  | rest flow hmember hfind howes => exact .of_eq rfl
  | rotate flow hmember => exact .of_eq rfl
  | create flow tunnelId state hnew hfree => exact .of_eq rfl
  | release flow cause hfind =>
      exact .single (.release _) (.inl rfl) (gauges_releaseConnection hfind cause)
  | expire => exact .of_eq rfl
  | ack flow ack hevent hfind =>
      subst hevent
      have hacked (n : Nat) : h.gauges.Leads (fun act => act.steady = true ∨
          (HostEvent.io (.dataAck flow ack)).isAck = true) (h.gauges.ack n) :=
        (Gauges.leads_deliver (.inr rfl) h.gauges n).trans (.single (.sample _) (.inr rfl) rfl)
      exact (hacked _).trans ((leads_releaseAcked env hfind ack).mono fun _ _ => .inr rfl)
  | resched time => exact .of_eq rfl
  | control => exact leads_ctrlTimeEvent (.inl rfl) fun _ => .inl rfl
  | limit => exact .single .limit (.inl rfl) rfl

theorem Acts.leads {env : Env} {event : HostEvent} {may : Packet → Prop} {h h' : Host}
    (hs : Acts env event may h h') :
    h.gauges.Leads (fun act => act.steady = true ∨ event.isAck = true) h'.gauges := by
  refine hs.preserves (P := fun h' => h.gauges.Leads _ h'.gauges) (fun _ _ hact hled => ?_) (.of_eq rfl)
  exact hled.trans hact.leads

namespace Host

theorem leads_step (h : Host) (env : Env) (event : HostEvent) :
    h.gauges.Leads (fun act => act.steady = true ∨ event.isAck = true) (h.step env event).gauges := by
  obtain ⟨h', hs, hend⟩ := h.acts_step env event
  rcases hend with heq | ⟨next, heq⟩
  · rw [heq]
    exact hs.leads
  · rw [heq]
    exact hs.leads

theorem leads_run (h : Host) (events : List (Env × HostEvent)) :
    h.gauges.Leads (fun _ => True) (h.run events).gauges := by
  induction events generalizing h with
  | nil => exact .of_eq rfl
  | cons e rest ih =>
      exact ((h.leads_step e.1 e.2).mono fun _ _ => trivial).trans (ih (h.step e.1 e.2))

/-- The counters of a host are the run of its own record. -/
theorem gauges_run (h : Host) (events : List (Env × HostEvent)) (hnone : h.counts = []) :
    (h.run events).gauges = h.gauges.run (h.run events).counts := by
  obtain ⟨acts, -, heq⟩ := h.leads_run events
  have hcounts : (h.run events).counts = h.counts ++ acts :=
    (congrArg Gauges.counts heq).trans (Gauges.counts_run h.gauges acts)
  rw [hcounts, hnone, List.nil_append, heq]

end Host

end Liteflow

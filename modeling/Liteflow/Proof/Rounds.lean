import Liteflow.Proof.RefineGauges
import Liteflow.Proof.Release
import Liteflow.Proof.Retransmission
import Mathlib.Tactic.Abel

/-!
# Round trips

`rtt_round` is to count round trips: a round ends when a packet is acknowledged that was sent after
the round began, and every entry carries what `delivered` was when it was sent. `generate_bandwidth`
compares `next_rtt_delivered` with `host->delivered` instead of that snapshot, so every
acknowledgement of a packet ends a round.
-/

namespace Liteflow

/-! ### Released entries and their snapshots -/

namespace Stream

variable {c c' : Stream}

theorem Quiet.subset (hquiet : Quiet c c') : c'.snapshots ⊆ c.snapshots := by
  rw [hquiet.snapshots]
  exact List.Subset.refl _

theorem rangeLoop_released {snapshots : List U32} (seqEnd : U32) (fuel : Nat)
    (entry : Option (U32 × PacketEntry)) (hsub : c.snapshots ⊆ snapshots)
    (hentry : ∀ e, entry = some e → e.2.delivered ∈ snapshots) :
    ∀ packet ∈ (rangeLoop seqEnd fuel entry c).2, packet.delivered ∈ snapshots := by
  induction fuel generalizing entry c with
  | zero => simp [rangeLoop]
  | succ fuel ih =>
      cases entry with
      | none => simp [rangeLoop]
      | some e =>
          obtain ⟨key, packet⟩ := e
          unfold rangeLoop
          split
          · simp
          · have hrest := ih (c := c.removePacket key packet) (c.packetList.treemapNext key)
              (List.Subset.trans (snapshots_removePacket c key packet) hsub)
              fun e hnext => hsub (mem_snapshots.mpr ⟨e, Treemap.mem_of_treemapNext hnext, rfl⟩)
            exact List.forall_mem_cons.mpr ⟨hentry _ rfl, hrest⟩

theorem releaseRange_released (c : Stream) (seqStart seqEnd : U32) :
    ∀ packet ∈ (c.releaseRange seqStart seqEnd).2, packet.delivered ∈ c.snapshots :=
  rangeLoop_released seqEnd _ _ (List.Subset.refl _) fun e hfirst =>
    mem_snapshots.mpr ⟨e, Treemap.treemapLowerBound_mem hfirst, rfl⟩

theorem checkpoint_released (c : Stream) (swndStart : U32) :
    ∀ packet ∈ (c.checkpoint swndStart).2, packet.delivered ∈ c.snapshots := by
  unfold checkpoint
  generalize c.packetList.treemapSize = fuel
  induction fuel generalizing c with
  | zero => simp [checkpointLoop]
  | succ fuel ih =>
      unfold checkpointLoop
      split
      · simp
      · rename_i key packet hfirst
        split
        · simp
        · have hhead : packet.delivered ∈ c.snapshots :=
            mem_snapshots.mpr ⟨(key, packet), List.mem_of_mem_head? hfirst, rfl⟩
          refine List.forall_mem_cons.mpr ⟨hhead, fun other hother => ?_⟩
          exact snapshots_removePacket c key packet (ih _ other hother)

theorem releaseRanges_snapshots (acks : List (U32 × U32)) (c : Stream) :
    (c.releaseRanges acks).1.snapshots ⊆ c.snapshots ∧
      ∀ packet ∈ (c.releaseRanges acks).2, packet.delivered ∈ c.snapshots := by
  induction acks generalizing c with
  | nil => exact ⟨List.Subset.refl _, by simp [releaseRanges]⟩
  | cons range rest ih =>
      have hranged := snapshots_releaseRange c range.1 range.2
      obtain ⟨hkept, hreleased⟩ := ih (c.releaseRange range.1 range.2).1
      refine ⟨List.Subset.trans hkept hranged, fun packet hpacket => ?_⟩
      rcases List.mem_append.mp hpacket with hfirst | hlater
      · exact releaseRange_released c range.1 range.2 packet hfirst
      · exact hranged (hreleased packet hlater)

theorem releaseWindow_snapshots (nodeAlloc : Bool) (now : Time) (c : Stream) (ack : DataAck) :
    (c.releaseWindow nodeAlloc now ack).1.snapshots ⊆ c.snapshots ∧
      ∀ packet ∈ (c.releaseWindow nodeAlloc now ack).2, packet.delivered ∈ c.snapshots := by
  have hsame : c.snapshots ⊆ c.snapshots ∧ ∀ packet ∈ ([] : List PacketEntry),
      packet.delivered ∈ c.snapshots := ⟨List.Subset.refl _, by simp⟩
  unfold releaseWindow
  split
  · split
    · exact hsame
    · rename_i moved hmoved
      have hlist : moved.snapshots ⊆ c.snapshots := by
        rw [snapshots, (moveSwin_lists hmoved).1, snapshots]
        exact List.Subset.refl _
      refine ⟨List.Subset.trans (snapshots_checkpoint moved ack.winStart) hlist, fun packet hpacket => ?_⟩
      exact hlist (checkpoint_released moved ack.winStart packet hpacket)
  · exact hsame

theorem releaseAcked_snapshots (nodeAlloc : Bool) (now : Time) (c : Stream) (ack : DataAck) :
    (c.releaseAcked nodeAlloc now ack).1.snapshots ⊆ c.snapshots ∧
      ∀ packet ∈ (c.releaseAcked nodeAlloc now ack).2, packet.delivered ∈ c.snapshots := by
  have hestablished := (quiet_establish c).subset
  obtain ⟨hranged, hfirst⟩ := releaseRanges_snapshots ack.acks c.establish
  obtain ⟨hmoved, hsecond⟩ :=
    releaseWindow_snapshots nodeAlloc now (c.establish.releaseRanges ack.acks).1 ack
  have hbefore := List.Subset.trans hranged hestablished
  refine ⟨List.Subset.trans hmoved hbefore, fun packet hpacket => ?_⟩
  rcases List.mem_append.mp hpacket with hpacket | hpacket
  · exact hestablished (hfirst packet hpacket)
  · exact hbefore (hsecond packet hpacket)

end Stream

namespace Host

variable {env : Env} {event : HostEvent} {may : Packet → Prop} {h h' h'' : Host} {flow : U32}
  {conn : Conn}

/-! ### The packets in flight -/

def acked (h : Host) (env : Env) : HostEvent → List PacketEntry
  | .io (.dataAck flow ack) =>
      match h.findConnection flow with
      | none => []
      | some conn => (conn.toStream.releaseAcked env.alloc.node env.now ack).2
  | _ => []

def Carries (h : Host) (delivered : U32) : Prop :=
  ∃ flow conn, h.findConnection flow = some conn ∧ delivered ∈ conn.toStream.snapshots

theorem Carries.mem_packets {delivered : U32} (hcarries : h.Carries delivered) :
    ∃ packet ∈ h.packets, packet.delivered = delivered := by
  obtain ⟨flow, conn, hfind, hmem⟩ := hcarries
  obtain ⟨entry, hentry, heq⟩ := Stream.mem_snapshots.mp hmem
  obtain ⟨node, hnode, rfl⟩ := Option.map_eq_some_iff.mp hfind
  refine ⟨entry.2, List.mem_flatMap.mpr ⟨node, List.mem_of_find?_eq_some hnode, ?_⟩, heq⟩
  exact List.mem_map_of_mem hentry

theorem carries_of_acked {packet : PacketEntry} (hpacket : packet ∈ h.acked env event) :
    h.Carries packet.delivered := by
  unfold acked at hpacket
  split at hpacket
  · rename_i flow ack
    split at hpacket
    · simp at hpacket
    · rename_i conn hfind
      exact ⟨flow, conn, hfind, (Stream.releaseAcked_snapshots _ _ _ ack).2 packet hpacket⟩
  · simp at hpacket

theorem isTime_of_acked (hacked : h.acked env event ≠ []) : event.isTime = false := by
  cases event with
  | time fuel => exact absurd rfl hacked
  | _ => rfl

def Thins (h h' : Host) : Prop :=
  ∀ delivered, h'.Carries delivered → h.Carries delivered

theorem Thins.trans (hthins : Thins h h') (hthins' : Thins h' h'') : Thins h h'' :=
  fun delivered hcarries => hthins delivered (hthins' delivered hcarries)

theorem Thins.of_find (hfind : ∀ flow conn', h'.findConnection flow = some conn' →
    ∃ conn, h.findConnection flow = some conn ∧
      conn'.toStream.snapshots ⊆ conn.toStream.snapshots) : Thins h h' := by
  rintro delivered ⟨flow, conn', hfind', hmem⟩
  obtain ⟨conn, hconn, hsub⟩ := hfind flow conn' hfind'
  exact ⟨flow, conn, hconn, hsub hmem⟩

theorem Thins.of_connQueue (heq : h'.connQueue = h.connQueue) : Thins h h' := by
  refine .of_find fun flow conn hfind => ⟨conn, ?_, List.Subset.refl _⟩
  rwa [findConnection, heq] at hfind

theorem thins_modifyConn (flow : U32) {update : Conn → Conn}
    (hupdate : ∀ conn, h.findConnection flow = some conn →
      (update conn).toStream.snapshots ⊆ conn.toStream.snapshots) :
    Thins h (h.modifyConn flow update) := by
  refine .of_find fun g conn' hfind' => ?_
  rw [findConnection_modifyConn] at hfind'
  split at hfind'
  · rename_i heq
    subst heq
    obtain ⟨conn, hfind, rfl⟩ := Option.map_eq_some_iff.mp hfind'
    exact ⟨conn, hfind, hupdate conn hfind⟩
  · exact ⟨conn', hfind', List.Subset.refl _⟩

theorem thins_setActive (flow : U32) (active : Bool) (queue : ActiveQueue) :
    Thins h
      { h.modifyConn flow (fun c => { c with active := active }) with activeQueue := queue } := by
  have hmodified : Thins h (h.modifyConn flow (fun c => { c with active := active })) :=
    thins_modifyConn flow fun _ _ => List.Subset.refl _
  exact hmodified.trans (.of_connQueue rfl)

theorem thins_litedtModEvtime (target : Option U32) (time : Time) :
    Thins h (h.litedtModEvtime target time) := by
  refine litedtModEvtime_keeps (P := Thins h) (.of_connQueue rfl) ?_
    fun _ hthins _ _ => hthins.trans (.of_connQueue rfl)
  rintro flow - moved rfl
  have hmodified : Thins h (h.modifyConn flow (fun c => { c with nextSyncTime := time })) :=
    thins_modifyConn flow fun _ _ => List.Subset.refl _
  refine hmodified.trans (.of_find fun g conn hfind => ⟨conn, ?_, List.Subset.refl _⟩)
  simpa [findConnection, Timerlist.nodes_moveup] using hfind

variable (env) in
theorem thins_releaseConnection (hfind : h.findConnection flow = some conn) (cause : ReleaseCause) :
    Thins h (h.releaseConnection env cause flow) := by
  refine .of_find fun g conn' hfind' => ?_
  rw [findConnection, connQueue_releaseConnection env hfind, Timerlist.timerlistGet_del] at hfind'
  split at hfind'
  · cases hfind'
  · exact ⟨conn', hfind', List.Subset.refl _⟩

theorem thins_releaseAcked (hfind : h.findConnection flow = some conn) (ack : DataAck) :
    Thins h (h.releaseAcked env flow ack) := by
  have hreleased := released_moved env hfind ack
  unfold Host.releaseAcked
  dsimp only
  generalize releaseRanges env flow ack.acks (h.modifyStream flow Stream.establish) {} = ranged
    at hreleased ⊢
  generalize ranged.1.moveWindow env flow ack ranged.2 = moved at hreleased ⊢
  have hmoved : Thins h moved.1 := by
    refine .of_find fun g conn' hfind' => ?_
    by_cases heq : g = flow
    · subst heq
      obtain ⟨conn'', hfind'', hstream⟩ := hreleased.find
      obtain rfl := Option.some.inj (hfind'.symm.trans hfind'')
      rw [hstream]
      exact ⟨conn, hfind, (Stream.releaseAcked_snapshots _ _ _ ack).1⟩
    · rw [hreleased.touches.others heq] at hfind'
      exact ⟨conn', hfind', List.Subset.refl _⟩
  have hkept := (kept_ctrlIoEvent (h := moved.1.generateBandwidth moved.2
    (moved.1.delivered - h.delivered)) moved.2).trans (kept_generateBandwidth moved.2 _)
  exact hmoved.trans (.of_connQueue (connQueue_of_kept hkept))

end Host

open Host in
theorem Act.thins {env : Env} {event : HostEvent} {may : Packet → Prop} {h h' : Host}
    (hact : Act env event may h h') (htime : event.isTime = false) : Thins h h' := by
  cases hact with
  | aside htables hgauges hqueue hbytes => exact .of_connQueue hqueue
  | send flight credit hmay => exact .of_connQueue rfl
  | note entry hentry => exact .of_connQueue rfl
  | wake flow time => exact thins_litedtModEvtime flow time
  | update flow update hactive hquiet =>
      exact thins_modifyConn flow fun conn hfind => (hquiet conn hfind).subset
  | write flow update hfind hpackets =>
      have hwritten : Thins h (h.modifyStream flow update) :=
        thins_modifyConn flow fun conn' hfind' => by
          obtain rfl := Option.some.inj (hfind.symm.trans hfind')
          rw [Stream.snapshots, hpackets]
          exact List.Subset.refl _
      refine hwritten.trans ?_
      unfold activate
      split
      · exact .of_connQueue rfl
      · split
        · exact .of_connQueue rfl
        · exact thins_setActive flow true _
  | post flow seq length fecSeq fecIndex hevent hpending =>
      rw [hevent] at htime
      cases htime
  | rest flow hmember hfind howes => exact thins_setActive flow false _
  | rotate flow hmember => exact .of_connQueue rfl
  | create flow tunnelId state hnew hfree =>
      rintro delivered ⟨g, conn', hfind', hmem⟩
      change (h.connQueue.timerlistPush _ _ _).timerlistGet g = some conn' at hfind'
      rw [Timerlist.timerlistGet_push, Option.or_eq_some_iff] at hfind'
      rcases hfind' with hfind | ⟨-, hpushed⟩
      · exact ⟨g, conn', hfind, hmem⟩
      · split at hpushed
        · obtain rfl := Option.some.inj hpushed
          cases hmem
        · cases hpushed
  | release flow cause hfind => exact thins_releaseConnection env hfind cause
  | expire => exact .of_connQueue rfl
  | ack flow ack hevent hfind => exact thins_releaseAcked hfind ack
  | resched time =>
      refine .of_find fun g conn hfind => ⟨conn, ?_, List.Subset.refl _⟩
      simpa [findConnection] using hfind
  | control => exact .of_connQueue (connQueue_of_kept kept_ctrlTimeEvent)
  | limit => exact .of_connQueue rfl

theorem Host.thins_step (h : Host) (env : Env) {event : HostEvent} (htime : event.isTime = false) :
    Thins h (h.step env event) := by
  obtain ⟨h', hs, hend⟩ := h.acts_step env event
  have hthins : Thins h h' :=
    hs.preserves (P := Thins h) (fun _ _ hact hthins => hthins.trans (hact.thins htime))
      (.of_connQueue rfl)
  rcases hend with heq | ⟨next, heq⟩
  · rw [heq]
    exact hthins
  · rw [heq]
    exact hthins.trans (.of_connQueue rfl)

/-! ### The counters of an acknowledgement -/

def GaugeAct.isAck : GaugeAct → Bool
  | deliver => true
  | sample _ => true
  | _ => false

namespace Gauges

variable {g g' g'' : Gauges} {n : Nat}

structure Still (g g' : Gauges) : Prop where
  delivered : g'.delivered = g.delivered
  rttRound : g'.rttRound = g.rttRound
  next : g'.nextRttDelivered = g.nextRttDelivered ∨ g'.nextRttDelivered = g.delivered

structure EndsRound (n : Nat) (g g' : Gauges) : Prop where
  delivered : g'.delivered = advance^[n] g.delivered
  rttRound : g'.rttRound = g.rttRound + 1
  next : g'.nextRttDelivered = g'.delivered

theorem Still.trans (hstill : Still g g') (hstill' : Still g' g'') : Still g g'' where
  delivered := hstill'.delivered.trans hstill.delivered
  rttRound := hstill'.rttRound.trans hstill.rttRound
  next := by
    rcases hstill'.next with heq | heq
    · rw [heq]
      exact hstill.next
    · rw [heq, hstill.delivered]
      exact .inr rfl

theorem EndsRound.still (hends : EndsRound n g g') (hstill : Still g' g'') : EndsRound n g g'' where
  delivered := hstill.delivered.trans hends.delivered
  rttRound := hstill.rttRound.trans hends.rttRound
  next := by
    rw [hstill.delivered, ← hends.next]
    exact hstill.next.elim id fun heq => heq.trans hends.next.symm

theorem still_apply {act : GaugeAct} (hact : act.isAck = false) : Still g (g.apply act) := by
  cases act with
  | deliver => cases hact
  | sample newlyDelivered => cases hact
  | release n =>
      rw [apply, change, packetAbandon_iterate]
      exact ⟨rfl, rfl, .inl rfl⟩
  | probe => exact ⟨rfl, rfl, .inr rfl⟩
  | post => exact ⟨rfl, rfl, .inl rfl⟩
  | limit => exact ⟨rfl, rfl, .inl rfl⟩
  | pace rate => exact ⟨rfl, rfl, .inl rfl⟩

theorem Leads.still (hleads : g.Leads (fun act => act.isAck = false) g') : Still g g' := by
  obtain ⟨acts, hacts, rfl⟩ := hleads
  induction acts generalizing g with
  | nil => exact ⟨rfl, rfl, .inl rfl⟩
  | cons act rest ih =>
      obtain ⟨hact, hrest⟩ := List.forall_mem_cons.mp hacts
      exact (still_apply hact).trans (ih hrest)

theorem toNat_advance_sub {delivered x : U32} (hroom : (delivered - x).toNat + n + 1 < 2 ^ 31) :
    (advance^[n] delivered - x).toNat = (delivered - x).toNat + n ∨
      (advance^[n] delivered - x).toNat = (delivered - x).toNat + n + 1 := by
  rcases advance_iterate delivered (show n < 2 ^ 31 by omega) with hadvance | hadvance
  · left
    have hshift : delivered + BitVec.ofNat 32 n - x = delivered - x + BitVec.ofNat 32 n := by abel
    rw [hadvance, hshift, BitVec.toNat_add, BitVec.toNat_ofNat]
    omega
  · right
    have hshift : delivered + BitVec.ofNat 32 n + 1 - x = delivered - x + BitVec.ofNat 32 n + 1 := by
      abel
    rw [hadvance, hshift, BitVec.toNat_add, BitVec.toNat_add, BitVec.toNat_ofNat]
    change ((_ + n % 2 ^ 32) % 2 ^ 32 + 1) % 2 ^ 32 = _
    omega

theorem still_ack_zero (g : Gauges) : Still g (g.ack 0) := by
  obtain ⟨mark, heq⟩ := g.apply_sample (g.delivered - g.delivered)
  change Still g (g.apply (.sample (g.delivered - g.delivered)))
  rw [heq, if_pos (sub_self _)]
  exact ⟨rfl, rfl, .inl rfl⟩

theorem endsRound_ack (hn : 0 < n)
    (hroom : (g.delivered - g.nextRttDelivered).toNat + n + 1 < 2 ^ 31) :
    EndsRound n g (g.ack n) := by
  have hnew : advance^[n] g.delivered - g.delivered ≠ 0 := by
    intro hzero
    have hself : (g.delivered - g.delivered).toNat = 0 := by
      rw [BitVec.sub_self]
      rfl
    have hvalue : (advance^[n] g.delivered - g.delivered).toNat = 0 := by
      rw [hzero]
      rfl
    have hroom' : (g.delivered - g.delivered).toNat + n + 1 < 2 ^ 31 := by omega
    rcases toNat_advance_sub hroom' with hsum | hsum
    · omega
    · omega
  have hpassed : lessEqual g.nextRttDelivered (advance^[n] g.delivered) = true := by
    unfold lessEqual Serial.le
    rw [decide_eq_true_iff]
    rcases toNat_advance_sub hroom with hsum | hsum
    · rw [hsum]
      omega
    · rw [hsum]
      omega
  obtain ⟨counts, heq⟩ := deliver_iterate g n
  unfold ack
  generalize (fun g => g.apply .deliver)^[n] g = released at heq ⊢
  obtain ⟨mark, hsample⟩ := released.apply_sample (released.delivered - g.delivered)
  dsimp only
  rw [hsample]
  subst heq
  rw [if_neg hnew, countRound, if_pos hpassed]
  exact ⟨rfl, rfl, rfl⟩

end Gauges

namespace Host

variable {env : Env} {event : HostEvent} {h : Host} {flow : U32} {conn : Conn}

theorem isAck_of_steady {act : GaugeAct} (hact : act.steady = true) : act.isAck = false := by
  cases act with
  | deliver => cases hact
  | sample newlyDelivered => cases hact
  | _ => rfl

theorem isAck_of_control {act : GaugeAct} (hact : act.control = true) : act.isAck = false := by
  cases act with
  | deliver => cases hact
  | sample newlyDelivered => cases hact
  | _ => rfl

theorem leads_of_acts {h' : Host} {may : Packet → Prop} (hs : Acts env event may h h')
    (hack : event.isAck = false) : h.gauges.Leads (fun act => act.isAck = false) h'.gauges := by
  refine hs.leads.mono fun act hact => isAck_of_steady (hact.resolve_right ?_)
  rw [hack]
  simp

theorem leads_acked (h : Host) (env : Env) (event : HostEvent) :
    (h.acked env event = [] ∧
      h.gauges.Leads (fun act => act.isAck = false) (h.step env event).gauges) ∨
    (h.gauges.ack (h.acked env event).length).Leads (fun act => act.isAck = false)
      (h.step env event).gauges := by
  by_cases hack : event.isAck = true
  · obtain ⟨flow, ack, rfl⟩ : ∃ flow ack, event = .io (.dataAck flow ack) := by
      unfold HostEvent.isAck at hack
      split at hack
      · exact ⟨_, _, rfl⟩
      · cases hack
    change _ ∨ Gauges.Leads _ _
      (resetOnError flow ((h.updateTime env).litedtOnDataAck env flow ack)).gauges
    cases hfind : h.findConnection flow with
    | none =>
        left
        have hacts : Acts env .fini (fun _ => True) h
            (resetOnError flow ((h.updateTime env).litedtOnDataAck env flow ack)) := by
          refine Acts.resetOnError ?_ trivial
          unfold litedtOnDataAck
          rw [show (h.updateTime env).findConnection flow = none from hfind]
          exact (Acts.refl h).updateTime
        refine ⟨?_, leads_of_acts hacts rfl⟩
        simp only [acked, hfind]
    | some conn =>
        right
        have hfind' : (h.updateTime env).findConnection flow = some conn := hfind
        have hacts : Acts env .fini (fun _ => True) ((h.updateTime env).releaseAcked env flow ack)
            (resetOnError flow ((h.updateTime env).litedtOnDataAck env flow ack)) :=
          ((Acts.refl _).notifyAcked (fun _ _ => trivial) hfind').resetOnError trivial
        have hacked : h.acked env (.io (.dataAck flow ack)) =
            (conn.toStream.releaseAcked env.alloc.node env.now ack).2 := by
          simp only [acked, hfind]
        rw [hacked]
        refine Gauges.Leads.trans ?_ (leads_of_acts hacts rfl)
        exact (leads_releaseAcked env hfind' ack).mono fun _ => isAck_of_control
  · left
    rw [Bool.not_eq_true] at hack
    refine ⟨?_, (h.leads_step env event).mono fun act hact => ?_⟩
    · unfold acked
      split
      · cases hack
      · rfl
    · refine isAck_of_steady (hact.resolve_right ?_)
      rw [hack]
      simp

/-- The packets in flight are less than half of the range behind `delivered`, and one of the
acknowledged ones was sent after `next_rtt_delivered`. -/
structure OneRound (h : Host) (env : Env) (event : HostEvent) : Prop where
  sent : ∃ packet ∈ h.acked env event, lessEqual h.nextRttDelivered packet.delivered = true
  flight : ∀ packet ∈ h.packets,
    (h.delivered - packet.delivered).toNat + (h.acked env event).length + 1 < 2 ^ 31
  next : (h.delivered - h.nextRttDelivered).toNat + (h.acked env event).length + 1 < 2 ^ 31

/-- The event acknowledges nothing, or a packet of the round that it ends. -/
def EndsOneRound (h : Host) (env : Env) (event : HostEvent) : Prop :=
  h.acked env event ≠ [] → h.OneRound env event

theorem still_or_endsRound (hround : h.EndsOneRound env event) :
    (h.acked env event = [] ∧ h.gauges.Still (h.step env event).gauges) ∨
      (h.acked env event ≠ [] ∧
        h.gauges.EndsRound (h.acked env event).length (h.step env event).gauges) := by
  rcases h.leads_acked env event with ⟨hnone, hleads⟩ | hleads
  · exact .inl ⟨hnone, hleads.still⟩
  · by_cases hnone : h.acked env event = []
    · rw [hnone] at hleads
      exact .inl ⟨hnone, h.gauges.still_ack_zero.trans hleads.still⟩
    · have hends := Gauges.endsRound_ack (g := h.gauges) (List.length_pos_iff.mpr hnone)
        (hround hnone).next
      exact .inr ⟨hnone, hends.still hleads.still⟩

theorem not_carries_of_endsRound (hround : h.OneRound env event)
    (hends : h.gauges.EndsRound (h.acked env event).length (h.step env event).gauges)
    (htime : event.isTime = false) : ¬(h.step env event).Carries (h.step env event).delivered := by
  intro hcarries
  obtain ⟨packet, hpacket, heq⟩ := (h.thins_step env htime _ hcarries).mem_packets
  have hroom := hround.flight packet hpacket
  have hpos : 0 < (h.acked env event).length := by
    obtain ⟨packet, hacked, -⟩ := hround.sent
    exact List.length_pos_of_mem hacked
  have hdelivered : (h.step env event).delivered =
      Gauges.advance^[(h.acked env event).length] h.delivered := hends.delivered
  have hself : (Gauges.advance^[(h.acked env event).length] h.delivered - packet.delivered).toNat = 0 := by
    rw [heq, hdelivered, BitVec.sub_self]
    rfl
  rcases Gauges.toNat_advance_sub hroom with hsum | hsum
  · omega
  · omega

theorem run_of_still {start : U32} :
    ∀ {events : List (Env × HostEvent)} {h : Host}, h.Meets EndsOneRound events →
      h.Meets (fun h env event => (h.step env event).rttRound = h.rttRound) events →
      h.delivered = start → h.nextRttDelivered = start →
      (h.run events).delivered = start ∧ (h.run events).nextRttDelivered = start := by
  intro events
  induction events with
  | nil => exact fun _ _ hdelivered hnext => ⟨hdelivered, hnext⟩
  | cons e rest ih =>
      intro h hmeets hsame hdelivered hnext
      rcases still_or_endsRound hmeets.1 with ⟨-, hstill⟩ | ⟨-, hends⟩
      · have hdelivered' : (h.step e.1 e.2).delivered = start := hstill.delivered.trans hdelivered
        refine ih hmeets.2 hsame.2 hdelivered' ?_
        rcases hstill.next with heq | heq
        · exact heq.trans hnext
        · exact heq.trans hdelivered
      · have hround : h.rttRound + 1 = h.rttRound := hends.rttRound.symm.trans hsame.1
        exact absurd hround (by simp)

theorem run_append (events events' : List (Env × HostEvent)) (h : Host) :
    h.run (events ++ events') = (h.run events).run events' :=
  List.foldl_append ..

theorem eq_of_lessEqual {a b : U32} (hle : lessEqual a b = true) (hlt : (a - b).toNat < 2 ^ 31) :
    b = a := by
  unfold lessEqual Serial.le at hle
  rw [decide_eq_true_iff] at hle
  have hneg : b - a = -(a - b) := by abel
  rw [hneg, BitVec.toNat_neg] at hle
  have hzero : (a - b).toNat = 0 := by omega
  exact (sub_eq_zero.mp (BitVec.eq_of_toNat_eq hzero)).symm

theorem meets_append {cond : Host → Env → HostEvent → Prop} (events events' : List (Env × HostEvent))
    (h : Host) : h.Meets cond (events ++ events') ↔
      h.Meets cond events ∧ (h.run events).Meets cond events' := by
  induction events generalizing h with
  | nil => exact ⟨fun hmeets => ⟨trivial, hmeets⟩, And.right⟩
  | cons e rest ih =>
      rw [List.cons_append, Meets, Meets, ih, and_assoc]
      rfl

theorem exists_event_of_not {P : Host → Prop} (events : List (Env × HostEvent)) (h : Host)
    (hbefore : ¬P h) (hafter : P (h.run events)) :
    ∃ before e after, events = before ++ e :: after ∧ ¬P (h.run before) ∧
      P ((h.run before).step e.1 e.2) := by
  induction events generalizing h with
  | nil => exact absurd hafter hbefore
  | cons e rest ih =>
      by_cases hstep : P (h.step e.1 e.2)
      · exact ⟨[], e, rest, rfl, hbefore, hstep⟩
      · obtain ⟨before, e', after, rfl, hnot, hstarts⟩ := ih _ hstep hafter
        exact ⟨e :: before, e', after, rfl, hnot, hstarts⟩

end Host

open Host in
/-- Of two events of a run at which `rtt_round` grows, with none between them, the second one
acknowledges a packet that was created in a time event between the two. -/
theorem rttRound_counts_rounds (cfg : Config) (nodeId : U16) (now : Time)
    (events between : List (Env × HostEvent)) (first second : Env × HostEvent)
    (hmeets : (litedtInit cfg nodeId now).Meets EndsOneRound
      (events ++ first :: between ++ [second])) :
    let before := (litedtInit cfg nodeId now).run events
    let began := before.step first.1 first.2
    let last := began.run between
    began.rttRound ≠ before.rttRound →
    began.Meets (fun h env event => (h.step env event).rttRound = h.rttRound) between →
    (last.step second.1 second.2).rttRound ≠ last.rttRound →
    ∃ packet ∈ last.acked second.1 second.2, ∃ earlier env fuel later,
      between = earlier ++ (env, .time fuel) :: later ∧
      ¬(began.run earlier).Carries packet.delivered ∧
      ((began.run earlier).step env (.time fuel)).Carries packet.delivered := by
  intro before began last hfirst hbetween hsecond
  rw [meets_append, meets_append] at hmeets
  obtain ⟨⟨-, hround, hmeets⟩, hlast, -⟩ := hmeets
  rw [run_append] at hlast
  change began.Meets EndsOneRound between at hmeets
  change last.EndsOneRound second.1 second.2 at hlast
  -- the first event leaves no packet in flight that was sent in the round it begins
  rcases still_or_endsRound hround with ⟨-, hstill⟩ | ⟨hacked, hends⟩
  · exact absurd hstill.rttRound hfirst
  have hnot : ¬began.Carries began.delivered :=
    not_carries_of_endsRound (hround hacked) hends (isTime_of_acked hacked)
  obtain ⟨hdelivered, hnext⟩ : last.delivered = began.delivered ∧
      last.nextRttDelivered = began.delivered :=
    run_of_still hmeets hbetween rfl hends.next
  -- the second event acknowledges one that was
  have hacked' : last.acked second.1 second.2 ≠ [] := by
    intro hnone
    rcases still_or_endsRound hlast with ⟨-, hstill⟩ | ⟨hacked', -⟩
    · exact hsecond hstill.rttRound
    · exact hacked' hnone
  have hlast' := hlast hacked'
  obtain ⟨packet, hpacket, hsent⟩ := hlast'.sent
  have hcarries := carries_of_acked hpacket
  obtain ⟨other, hother, heq⟩ := hcarries.mem_packets
  have hroom := hlast'.flight other hother
  rw [heq, hdelivered] at hroom
  rw [hnext] at hsent
  have hsnapshot : packet.delivered = began.delivered := eq_of_lessEqual hsent (by omega)
  obtain ⟨earlier, e, later, hsplit, hwithout, hwith⟩ :=
    exists_event_of_not (P := fun h => h.Carries packet.delivered) between began
      (by rwa [hsnapshot]) hcarries
  have htime : e.2.isTime = true := by
    by_contra hother
    exact hwithout ((began.run earlier).thins_step e.1 (Bool.not_eq_true _ ▸ hother) _ hwith)
  obtain ⟨env, event⟩ := e
  cases event with
  | time fuel => exact ⟨packet, hpacket, earlier, env, fuel, later, hsplit, hwithout, hwith⟩
  | call call => cases htime
  | io packet => cases htime
  | fini => cases htime

namespace Host

def flight : List (Env × HostEvent) :=
  [(.plain 0, .time 1),
    (.plain 1, .io (.pingRsp .plain)),
    (.plain 2, .call (.connect 7 0)),
    (.plain 2, .call (.send 7 Payload.three)),
    (.plain 1001, .time 9)]

def nextFlight : List (Env × HostEvent) :=
  [(.plain 1600, .call (.send 7 Payload.three)), (.plain 2600, .time 9)]

def ackUpTo (seq : U32) : HostEvent :=
  .io (.dataAck 7 { winStart := seq, winSize := 1000, acks := [] })

def flown : Host :=
  (litedtInit .singleByte 1 0).run flight

end Host

open Host in
theorem rttRound_counts_rounds_flights :
    ∃ packet ∈ ((flown.step (.plain 1500) (ackUpTo 3)).run nextFlight).acked (.plain 3500) (ackUpTo 6),
      ∃ earlier env fuel later, nextFlight = earlier ++ (env, .time fuel) :: later ∧
        ¬((flown.step (.plain 1500) (ackUpTo 3)).run earlier).Carries packet.delivered ∧
        (((flown.step (.plain 1500) (ackUpTo 3)).run earlier).step env (.time fuel)).Carries
          packet.delivered := by
  have hquiet {h : Host} {env : Env} {event : HostEvent} (hnone : h.acked env event = []) :
      h.EndsOneRound env event := fun hacked => absurd hnone hacked
  refine rttRound_counts_rounds .singleByte 1 0 flight nextFlight (.plain 1500, ackUpTo 3)
    (.plain 3500, ackUpTo 6) ?_ (by decide +kernel) ⟨by decide +kernel, by decide +kernel, trivial⟩
    (by decide +kernel)
  exact ⟨hquiet rfl, hquiet rfl, hquiet rfl, hquiet rfl, hquiet rfl,
    fun _ => ⟨by decide +kernel, by decide +kernel, by decide +kernel⟩, hquiet rfl, hquiet rfl,
    fun _ => ⟨by decide +kernel, by decide +kernel, by decide +kernel⟩, trivial⟩

open Host in
/-- The acknowledgements of the first two packets of one flight both end a round; the second of the
packets was in flight before the first round ended. -/
theorem rttRound_flown :
    (flown.step (.plain 1500) (ackUpTo 1)).rttRound = flown.rttRound + 1 ∧
      ((flown.step (.plain 1500) (ackUpTo 1)).step (.plain 1501) (ackUpTo 2)).rttRound =
        flown.rttRound + 2 ∧
      flown.packets.map (fun packet => packet.seq) = [0, 1, 2] ∧
      ((flown.step (.plain 1500) (ackUpTo 1)).acked (.plain 1501) (ackUpTo 2)).map
        (fun packet => packet.seq) = [1] := by
  decide +kernel

end Liteflow

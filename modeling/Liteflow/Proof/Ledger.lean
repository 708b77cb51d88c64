import Liteflow.Proof.RefineTables
import Liteflow.Proof.Schedule
import Mathlib.Algebra.BigOperators.Group.List.Basic

/-!
# The packets in flight

`inflight` and `inflight_bytes` belong to the host, and the packet entries to its connections. They
are changed together where an entry is created, acknowledged or abandoned, so the two counters agree
with the entries of all connections. Every other act leaves the counters and the lengths of the
entries alone; what enters or acknowledges packets needs the invariant of the schedule as well.

`inflight` itself never wraps: an entry is only created when `inflight` is below the congestion
window. `inflight_bytes` counts in 32 bits.
-/

namespace Liteflow

theorem Outstanding.lengths_eq {c : Stream} {ready : U32 → Nat} {lo snd : Nat}
    {packets : List (Nat × PacketEntry)} (hout : Outstanding c ready lo snd packets) :
    c.lengths = packets.map (fun e => e.2.length) := by
  rw [Stream.lengths, hout.keyed.toList_eq, wireEntries, List.map_map]
  rfl

namespace Host

def lengths (h : Host) : List U32 :=
  h.connQueue.nodes.flatMap (fun node => node.value.lengths)

/-- The two counters of the host are the number and the total length of all packet entries. -/
structure Balanced (h : Host) : Prop where
  nodup : h.flows.Nodup
  inflight_eq : h.inflight.toNat = h.lengths.length
  inflightBytes_eq : h.inflightBytes = h.lengths.sum

variable {h h' : Host} {flow : U32} {conn : Conn} {env : Env}

/-! ### Connections and counters -/

theorem lengths_split (hfind : h.findConnection flow = some conn) :
    ∃ before after, h.lengths = before ++ conn.lengths ++ after ∧
      ∀ update : Conn → Conn,
        (h.modifyConn flow update).lengths = before ++ (update conn).lengths ++ after := by
  obtain ⟨before, n, after, hnodes, hkey, rfl, hbefore⟩ := Timerlist.timerlistGet_split hfind
  refine ⟨before.flatMap (fun node => node.value.lengths),
    after.flatMap (fun node => node.value.lengths), ?_, fun update => ?_⟩
  · simp [lengths, hnodes]
  · have hmodified : (h.modifyConn flow update).connQueue.nodes =
        before ++ { n with value := update n.value } :: after := by
      rw [← Timerlist.modifyFirst_append flow hbefore hkey update, ← hnodes]
      rfl
    simp [lengths, hmodified]

theorem Balanced.of_nodes_eq (hbal : h.Balanced) (hnodes : h'.connQueue.nodes = h.connQueue.nodes)
    (hinflight : h'.inflight = h.inflight) (hbytes : h'.inflightBytes = h.inflightBytes) :
    h'.Balanced where
  nodup := by
    unfold flows
    rw [hnodes]
    exact hbal.nodup
  inflight_eq := by
    unfold lengths
    rw [hinflight, hnodes]
    exact hbal.inflight_eq
  inflightBytes_eq := by
    unfold lengths
    rw [hbytes, hnodes]
    exact hbal.inflightBytes_eq

theorem Balanced.of_core (hbal : h.Balanced) (hcore : h'.core = h.core) : h'.Balanced := by
  simp only [core, Prod.mk.injEq] at hcore
  obtain ⟨-, -, -, hconns, -, -, -, hinflight, hbytes⟩ := hcore
  exact hbal.of_nodes_eq (by rw [hconns]) hinflight hbytes

theorem Balanced.modifyConn (hbal : h.Balanced) (flow : U32) {update : Conn → Conn}
    (hupdate : ∀ conn, h.findConnection flow = some conn → (update conn).lengths = conn.lengths) :
    (h.modifyConn flow update).Balanced := by
  cases hfind : h.findConnection flow with
  | none => exact hbal.of_nodes_eq (Timerlist.modifyFirst_of_get_none hfind update) rfl rfl
  | some conn =>
      obtain ⟨before, after, hlengths, hmodified⟩ := lengths_split hfind
      have hsame : (h.modifyConn flow update).lengths = h.lengths := by
        rw [hmodified, hupdate conn hfind, hlengths]
      refine ⟨?_, ?_, ?_⟩
      · rw [flows_modifyConn]
        exact hbal.nodup
      · rw [hsame]
        exact hbal.inflight_eq
      · rw [hsame]
        exact hbal.inflightBytes_eq

theorem Balanced.added (hbal : h.Balanced) (len : U32) (hflows : h'.flows = h.flows)
    (hlengths : h'.lengths.Perm (len :: h.lengths)) (hinflight : h'.inflight = h.inflight + 1)
    (hroom : h.inflight.toNat + 1 < 2 ^ 32) (hbytes : h'.inflightBytes = h.inflightBytes + len) :
    h'.Balanced where
  nodup := hflows ▸ hbal.nodup
  inflight_eq := by
    rw [hinflight, BitVec.toNat_add, hlengths.length_eq, List.length_cons, ← hbal.inflight_eq]
    exact Nat.mod_eq_of_lt hroom
  inflightBytes_eq := by
    rw [hbytes, hlengths.sum_eq, List.sum_cons, hbal.inflightBytes_eq, add_comm]

theorem Balanced.removed (hbal : h.Balanced) (gone : List U32) (hflows : h'.flows.Nodup)
    (hlengths : h.lengths.Perm (gone ++ h'.lengths))
    (hinflight : h'.inflight = h.inflight - BitVec.ofNat 32 gone.length)
    (hbytes : h'.inflightBytes = h.inflightBytes - gone.sum) : h'.Balanced where
  nodup := hflows
  inflight_eq := by
    have hbefore := hbal.inflight_eq
    have hlt := h.inflight.isLt
    rw [hlengths.length_eq, List.length_append] at hbefore
    rw [hinflight, BitVec.toNat_sub_of_le, BitVec.toNat_ofNat, Nat.mod_eq_of_lt (by omega)]
    · omega
    · rw [BitVec.le_def, BitVec.toNat_ofNat, Nat.mod_eq_of_lt (by omega)]
      omega
  inflightBytes_eq := by
    rw [hbytes, hbal.inflightBytes_eq, hlengths.sum_eq, List.sum_append, add_sub_cancel_left]

/-! ### Acts that leave the packets alone -/

theorem Balanced.modEvtime (hbal : h.Balanced) (target : Option U32) (time : Time) :
    (h.litedtModEvtime target time).Balanced := by
  refine litedtModEvtime_keeps (P := Balanced) hbal ?_ fun _ hbal _ _ => hbal.of_nodes_eq rfl rfl rfl
  rintro flow - moved rfl
  have hmodified : (h.modifyConn flow (fun c => { c with nextSyncTime := time })).Balanced :=
    hbal.modifyConn flow fun _ _ => rfl
  exact hmodified.of_nodes_eq (Timerlist.nodes_moveup _ time flow) rfl rfl

theorem Balanced.setActive (hbal : h.Balanced) (flow : U32) (active : Bool)
    (hnodes : h'.connQueue =
      (h.modifyConn flow (fun c => { c with active := active })).connQueue)
    (hinflight : h'.inflight = h.inflight) (hbytes : h'.inflightBytes = h.inflightBytes) :
    h'.Balanced := by
  have hmodified : (h.modifyConn flow (fun c => { c with active := active })).Balanced :=
    hbal.modifyConn flow fun _ _ => rfl
  exact hmodified.of_nodes_eq (by rw [hnodes]) hinflight hbytes

theorem Balanced.activate (hbal : h.Balanced) (flow : U32) : (h.activate flow).Balanced := by
  unfold Host.activate
  split
  · exact hbal
  · split
    · exact hbal
    · exact hbal.setActive flow true rfl rfl rfl

theorem Balanced.push (hbal : h.Balanced) (hfind : h.findConnection flow = none) (time : Time)
    (conn : Conn) (hempty : conn.lengths = []) :
    { h with connQueue := h.connQueue.timerlistPush time flow conn }.Balanced := by
  have hnodes := Timerlist.nodes_push h.connQueue time flow conn
  have hlengths : { h with connQueue := h.connQueue.timerlistPush time flow conn }.lengths =
      h.lengths := by
    unfold lengths
    dsimp only
    rw [hnodes, List.flatMap_append, List.flatMap_singleton, hempty, List.append_nil]
  refine ⟨?_, by rw [hlengths]; exact hbal.inflight_eq, by rw [hlengths]; exact hbal.inflightBytes_eq⟩
  have hnew : flow ∉ h.flows := fun hmem => mem_flows.mp hmem hfind
  unfold flows
  dsimp only
  rw [hnodes, List.map_append, List.nodup_append]
  refine ⟨hbal.nodup, by simp, fun a ha b hb heq => hnew ?_⟩
  have hb' : b = flow := List.mem_singleton.mp hb
  rw [← hb', ← heq]
  exact ha

/-! ### Released connections -/

structure Discounted (h h' : Host) (gone : List U32) : Prop where
  connQueue_eq : h'.connQueue = h.connQueue
  inflight_eq : h'.inflight = h.inflight - BitVec.ofNat 32 gone.length
  inflightBytes_eq : h'.inflightBytes = h.inflightBytes - gone.sum

theorem discounted_nil (h : Host) : Discounted h h [] := by
  constructor <;> simp

theorem Discounted.cons {h'' : Host} {len : U32} {gone : List U32}
    (hconns : h'.connQueue = h.connQueue) (hinflight : h'.inflight = h.inflight - 1)
    (hbytes : h'.inflightBytes = h.inflightBytes - len) (hrest : Discounted h' h'' gone) :
    Discounted h h'' (len :: gone) where
  connQueue_eq := hrest.connQueue_eq.trans hconns
  inflight_eq := by
    rw [hrest.inflight_eq, hinflight, sub_sub, List.length_cons, Nat.add_comm, BitVec.ofNat_add]
    rfl
  inflightBytes_eq := by
    rw [hrest.inflightBytes_eq, hbytes, List.sum_cons, sub_sub]

theorem discounted_retransModFini (h : Host) (flow : U32) (packets : List PacketEntry) :
    Discounted h (h.retransModFini flow packets) (packets.map (fun packet => packet.length)) := by
  unfold retransModFini
  induction packets generalizing h with
  | nil => exact discounted_nil h
  | cons packet rest ih =>
      rw [List.foldl_cons]
      refine Discounted.cons ?_ ?_ ?_ (ih (h.abandonPacket flow packet))
      all_goals
        unfold abandonPacket
        dsimp only
        split <;> rfl

theorem Balanced.lengths_del (hbal : h.Balanced) (hfind : h.findConnection flow = some conn) :
    h.lengths.Perm (conn.lengths ++
      (h.connQueue.timerlistDel flow).nodes.flatMap (fun node => node.value.lengths)) := by
  obtain ⟨before, n, after, hnodes, hkey, rfl, -⟩ := Timerlist.timerlistGet_split hfind
  have hothers : ∀ m ∈ before ++ after, m.key ≠ flow := by
    have hnodup := hbal.nodup
    rw [flows, hnodes, List.map_append, List.map_cons, List.nodup_middle, List.nodup_cons,
      ← List.map_append, hkey] at hnodup
    exact fun m hm heq => hnodup.1 (List.mem_map.mpr ⟨m, hm, heq⟩)
  have hdel : (h.connQueue.timerlistDel flow).nodes = before ++ after := by
    rw [Timerlist.nodes_del, hnodes, List.filter_append, List.filter_cons_of_neg (by simp [hkey]),
      ← List.filter_append]
    exact List.filter_eq_self.mpr (by simpa using hothers)
  rw [hdel, lengths, hnodes, List.flatMap_append, List.flatMap_cons, List.flatMap_append]
  exact List.perm_append_comm_assoc _ _ _

theorem Balanced.releaseConnection (hbal : h.Balanced) (cause : ReleaseCause) (flow : U32) :
    (h.releaseConnection env cause flow).Balanced := by
  unfold Host.releaseConnection
  cases hfind : h.findConnection flow with
  | none => exact hbal
  | some conn =>
      dsimp only
      set inactive := if conn.active then { h with activeQueue := h.activeQueue.del flow } else h
        with hinactive
      have hsame : inactive.Balanced ∧ inactive.connQueue = h.connQueue := by
        rw [hinactive]
        split
        · exact ⟨hbal.of_nodes_eq rfl rfl rfl, rfl⟩
        · exact ⟨hbal, rfl⟩
      set counted := inactive.count (.release conn.packetList.treemapSize)
      have hgone := discounted_retransModFini counted flow (conn.packetList.toList.map Prod.snd)
      rw [List.map_map] at hgone
      have hfind' : inactive.findConnection flow = some conn := by
        rw [findConnection, hsame.2]
        exact hfind
      refine hsame.1.removed conn.lengths ?_ ?_ hgone.inflight_eq hgone.inflightBytes_eq
      · unfold flows
        dsimp only
        rw [hgone.connQueue_eq, Timerlist.nodes_del]
        exact hsame.1.nodup.sublist (List.filter_sublist.map _)
      · unfold lengths
        dsimp only
        rw [hgone.connQueue_eq]
        exact hsame.1.lengths_del hfind'

end Host

open Host in
theorem Act.balanced {env : Env} {event : HostEvent} {may : Packet → Prop} {h h' : Host}
    (hact : Act env event may h h') (htime : event.isTime = false)
    (hack : ∀ flow ack, event ≠ .io (.dataAck flow ack)) (hbal : h.Balanced) : h'.Balanced := by
  cases hact with
  | aside htables hgauges hqueue hbytes =>
      exact hbal.of_nodes_eq (by rw [hqueue]) (congrArg Gauges.inflight hgauges) hbytes
  | send flight credit hmay => exact hbal.of_nodes_eq rfl rfl rfl
  | note entry hentry => exact hbal.of_nodes_eq rfl rfl rfl
  | wake flow time => exact hbal.modEvtime flow time
  | update flow update hactive hquiet =>
      exact hbal.modifyConn flow fun conn hfind => (hquiet conn hfind).lengths
  | write flow update hfind hpackets =>
      have hwritten : (h.modifyStream flow update).Balanced := by
        refine hbal.modifyConn flow fun conn' hfind' => ?_
        obtain rfl := Option.some.inj (hfind.symm.trans hfind')
        rw [Stream.lengths, hpackets, Stream.lengths]
      exact hwritten.activate flow
  | post flow seq length fecSeq fecIndex hevent hpending =>
      rw [hevent] at htime
      cases htime
  | rest flow hmember hfind howes => exact hbal.setActive flow false rfl rfl rfl
  | rotate flow hmember => exact hbal.of_nodes_eq rfl rfl rfl
  | create flow tunnelId state hnew hfree =>
      exact (hbal.push hnew env.now (newConn h.cfg env.now tunnelId state) rfl).of_nodes_eq rfl rfl rfl
  | release flow cause hfind => exact hbal.releaseConnection cause flow
  | expire => exact hbal.of_nodes_eq rfl rfl rfl
  | ack flow ack hevent hfind => exact absurd hevent (hack flow ack)
  | resched time => exact hbal.of_nodes_eq (Timerlist.nodes_reschedTop _ _) rfl rfl
  | control => exact hbal.of_core core_ctrlTimeEvent
  | limit => exact hbal.of_nodes_eq rfl rfl rfl

theorem Acts.balanced {env : Env} {event : HostEvent} {may : Packet → Prop} {h h' : Host}
    (hs : Acts env event may h h') (htime : event.isTime = false)
    (hack : ∀ flow ack, event ≠ .io (.dataAck flow ack)) (hbal : h.Balanced) : h'.Balanced :=
  hs.preserves (fun _ _ hact => hact.balanced htime hack) hbal

namespace Host

variable {h h' : Host} {flow : U32} {conn : Conn} {env : Env}

/-- A part of an event that enters no packet can be taken for a part of `litedt_fini`. -/
theorem Balanced.acts (hbal : h.Balanced) (env : Env) (hs : Acts env .fini (fun _ => True) h h') :
    h'.Balanced :=
  hs.balanced rfl (fun _ _ => nofun) hbal

/-! ### Entries that are created -/

theorem lengths_of_perm {list : Treemap U32 PacketEntry} {c : Stream} {key : U32}
    {packet : PacketEntry} (hperm : list.toList.Perm ((key, packet) :: c.packetList.toList)) :
    (list.toList.map (fun e => e.2.length)).Perm (packet.length :: c.lengths) :=
  hperm.map (fun e => e.2.length)

theorem Balanced.createPacketEntry (hbal : h.Balanced) (halloc : env.alloc.node = true)
    {seq : U32} (hroom : ∀ conn, h.findConnection flow = some conn →
      conn.packetList.treemapGet seqCmp seq = none → h.inflight.toNat + 1 < 2 ^ 32)
    (length fecSeq : U32) (fecIndex : U8) :
    (h.createPacketEntry env flow seq length fecSeq fecIndex).Balanced := by
  unfold Host.createPacketEntry
  cases hfind : h.findConnection flow with
  | none => exact hbal
  | some conn =>
      dsimp only
      split
      · exact hbal
      · rename_i hget
        rw [Option.not_isSome_iff_eq_none] at hget
        set packet := h.newPacket env conn.toStream seq length fecSeq fecIndex
        rcases Stream.enter_cases conn.toStream packet with ⟨hsome, -⟩ | ⟨-, list, hperm, henter⟩
        · exact absurd hget hsome
        · rw [Stream.enter, show packet.seq = seq from rfl, hget] at henter
          have hadded : conn.addPacket env.alloc.node packet =
              { conn.toStream with
                packetList := list
                waitingQueue := conn.waitingQueue ++ [seq] } := by
            rw [halloc]
            simpa using henter
          obtain ⟨before, after, hlengths, hmodified⟩ := lengths_split hfind
          have hnew := hmodified (fun c =>
            { c with toStream := c.addPacket env.alloc.node packet })
          dsimp only at hnew
          rw [hadded] at hnew
          refine hbal.added length (flows_modifyConn _) ?_ rfl (hroom conn hfind hget) rfl
          rw [hlengths, ← List.cons_append]
          refine (List.Perm.of_eq hnew).trans (List.Perm.append_right after ?_)
          exact ((lengths_of_perm hperm).append_left before).trans List.perm_middle

theorem Balanced.dataPost (hbal : h.Balanced) (halloc : env.alloc.node = true) {seq len : U32}
    (hroom : ∀ conn, h.findConnection flow = some conn → len ≠ 0 →
      conn.packetList.treemapGet seqCmp seq = none → h.inflight.toNat + 1 < 2 ^ 32)
    (fecSeq : U32) (fecIndex : U8) (fecPost : Bool) :
    (h.litedtDataPost env flow seq len fecSeq fecIndex fecPost).2.Balanced := by
  unfold litedtDataPost
  split
  · exact hbal
  · split
    · exact hbal
    · split
      · exact hbal
      · rename_i conn hfind
        split
        · exact hbal
        · have hentered : (h.enterPost env flow conn seq len fecSeq fecIndex).Balanced := by
            unfold enterPost
            split
            · exact hbal
            · have hrecorded : (h.record (conn.bufferRead flow seq len)).Balanced :=
                hbal.of_nodes_eq rfl rfl rfl
              exact hrecorded.createPacketEntry halloc (fun conn hfind => hroom conn hfind ‹_›) _ _ _
          have hall : ∀ _ : Packet, True := fun _ => trivial
          dsimp only
          split
          · exact hentered.acts env (((Acts.refl _).socketSend trivial _ _).fecPushData hall flow _)
          · exact hentered.acts env ((Acts.refl _).socketSend trivial _ _)

/-! ### Acknowledgements -/

theorem discounted_release (flow : U32) (packets : List PacketEntry) (state : Host × RateSample) :
    Discounted state.1 (packets.foldl (releasePacketEntry env flow) state).1
      (packets.map (fun packet => packet.length)) := by
  induction packets generalizing state with
  | nil => exact discounted_nil state.1
  | cons packet rest ih =>
      rw [List.foldl_cons]
      refine Discounted.cons ?_ ?_ ?_ (ih (releasePacketEntry env flow state packet))
      all_goals
        unfold releasePacketEntry packetDelivered
        dsimp only
        split <;> split <;> rfl

theorem Balanced.releasePackets (hbal : h.Balanced) (hfind : h.findConnection flow = some conn)
    {released : Stream × List PacketEntry}
    (hperm : conn.lengths.Perm (released.2.map (fun packet => packet.length) ++ released.1.lengths))
    (rs : RateSample) : (h.releasePackets env flow released rs).1.Balanced := by
  set stored := h.modifyStream flow (fun _ => released.1) with hstored
  have hgone : Discounted stored (h.releasePackets env flow released rs).1
      (released.2.map (fun packet => packet.length)) :=
    discounted_release flow released.2 (stored, rs)
  obtain ⟨before, after, hlengths, hmodified⟩ := lengths_split hfind
  refine hbal.removed _ ?_ ?_ hgone.inflight_eq hgone.inflightBytes_eq
  · rw [flows, hgone.connQueue_eq, ← flows, hstored, Host.modifyStream, flows_modifyConn]
    exact hbal.nodup
  · have hafter : (h.releasePackets env flow released rs).1.lengths =
        before ++ released.1.lengths ++ after := by
      rw [lengths, hgone.connQueue_eq, ← lengths, hstored, Host.modifyStream, hmodified]
    rw [hlengths, hafter, ← List.append_assoc]
    refine List.Perm.append_right after ?_
    exact (hperm.append_left before).trans (List.perm_append_comm_assoc _ _ _)

theorem Balanced.releasePacketRange (hbal : h.Balanced) (hscheduled : Scheduled flow (h.view flow))
    (seqStart seqEnd : U32) (rs : RateSample) :
    (h.releasePacketRange env flow seqStart seqEnd rs).1.Balanced := by
  unfold Host.releasePacketRange
  cases hfind : h.findConnection flow with
  | none => exact hbal
  | some conn =>
      obtain ⟨snd, fin, packets, hsending⟩ := hscheduled.book.sending (view_stream_of_find hfind)
      obtain ⟨before, gone, kept, rfl, hgone, -, hout, -⟩ :=
        hsending.toOutstanding.releaseRange seqStart seqEnd
      refine hbal.releasePackets hfind ?_ rs
      rw [hsending.lengths_eq, hout.lengths_eq, hgone, List.map_map]
      simp only [List.map_append]
      exact List.perm_append_comm_assoc _ _ _

theorem Balanced.releaseRanges {ack : DataAck} {ranges : List (U32 × U32)} (hbal : h.Balanced)
    (hranges : ranges ⊆ ack.acks) (halloc : env.alloc.Succeeds)
    (hscheduled : Scheduled flow (h.view flow)) (rs : RateSample) :
    (Host.releaseRanges env flow ranges h rs).1.Balanced := by
  unfold Host.releaseRanges
  induction ranges generalizing h rs with
  | nil => exact hbal
  | cons range rest ih =>
      rw [List.cons_subset] at hranges
      rw [List.foldl_cons]
      have hreaches : Reaches flow env (.io (.dataAck flow ack)) (h.view flow) h
          (h.releasePacketRange env flow range.1 range.2 rs).1 :=
        reaches_releasePacketRange rfl hranges.1 rs
      exact ih (hbal.releasePacketRange hscheduled range.1 range.2 rs) hranges.2
        (hscheduled.of_reaches halloc hreaches) _

theorem Balanced.moveWindow (hbal : h.Balanced) (halloc : env.alloc.Succeeds)
    (hscheduled : Scheduled flow (h.view flow)) (ack : DataAck) (rs : RateSample) :
    (h.moveWindow env flow ack rs).1.Balanced := by
  unfold Host.moveWindow
  cases hfind : h.findConnection flow with
  | none => exact hbal
  | some conn =>
      dsimp only
      split
      · rename_i hwindow
        obtain ⟨snd, fin, packets, hsending⟩ := hscheduled.book.sending (view_stream_of_find hfind)
        obtain ⟨moved, base, gone, kept, hmoved, -, -, -, rfl, hgone, -, hsending', -, -⟩ :=
          hsending.window h.curTime hwindow
        rw [halloc.1, hmoved]
        dsimp only
        have hlengths : moved.lengths = conn.lengths := by
          rw [Stream.lengths, (Stream.moveSwin_lists hmoved).1, ← Stream.lengths]
        have hstored : (h.modifyConn flow (fun c =>
            { c with toStream := moved, probesSent := 0 })).Balanced := by
          refine hbal.modifyConn flow fun conn' hfind' => ?_
          obtain rfl := Option.some.inj (hfind.symm.trans hfind')
          exact hlengths
        unfold retransCheckpoint
        cases hfind' : (h.modifyConn flow (fun c =>
            { c with toStream := moved, probesSent := 0 })).findConnection flow with
        | none => exact hstored
        | some conn' =>
            have hstream : conn'.toStream = moved := by
              rw [findConnection_modifyConn, if_pos rfl, hfind] at hfind'
              rw [← Option.some.inj hfind']
            dsimp only
            refine hstored.releasePackets hfind' ?_ rs
            rw [hstream, hlengths, hsending.lengths_eq, hsending'.lengths_eq, hgone, List.map_map,
              List.map_append]
            rfl
      · exact hbal

theorem Balanced.releaseAcked (hbal : h.Balanced) (halloc : env.alloc.Succeeds)
    (hscheduled : Scheduled flow (h.view flow)) (ack : DataAck) :
    (h.releaseAcked env flow ack).Balanced := by
  unfold Host.releaseAcked
  dsimp only
  set established := h.modifyStream flow Stream.establish
  set ranged := Host.releaseRanges env flow ack.acks established {}
  have hestablished : Reaches flow env (.io (.dataAck flow ack)) (h.view flow) h established :=
    reaches_establish flow
  have hreaches : Reaches flow env (.io (.dataAck flow ack)) (h.view flow) h ranged.1 :=
    hestablished.trans (reaches_releaseRanges rfl (List.Subset.refl _) {})
  have hranged : ranged.1.Balanced :=
    (hbal.acts env ((Acts.refl h).establish flow)).releaseRanges (List.Subset.refl _) halloc
      (hscheduled.of_reaches halloc hestablished) {}
  have hmoved := hranged.moveWindow halloc (hscheduled.of_reaches halloc hreaches) ack ranged.2
  exact (hmoved.of_core (core_generateBandwidth _ _)).of_core (core_ctrlIoEvent _)

theorem Balanced.ioEvent (hbal : h.Balanced) (halloc : env.alloc.Succeeds)
    (hscheduled : ∀ flow, Scheduled flow ((h.updateTime env).view flow)) (packet : Packet) :
    (h.litedtIoEvent env packet).Balanced := by
  by_cases hack : ∃ flow ack, packet = .dataAck flow ack
  · obtain ⟨flow, ack, rfl⟩ := hack
    have hbegan : (h.updateTime env).Balanced := hbal.of_nodes_eq rfl rfl rfl
    have hacked : ((h.updateTime env).litedtOnDataAck env flow ack).2.Balanced := by
      cases hfind : (h.updateTime env).findConnection flow with
      | none =>
          unfold litedtOnDataAck
          rw [hfind]
          exact hbegan
      | some conn =>
          exact (hbegan.releaseAcked halloc (hscheduled flow) ack).acts env
            ((Acts.refl _).notifyAcked (fun _ _ => trivial) hfind)
    exact hacked.acts env ((Acts.refl _).resetOnError trivial)
  · have hs : Acts env (.io packet) (fun _ => True) h (h.litedtIoEvent env packet) :=
      (Acts.refl h).ioEvent (fun _ _ => trivial) fun _ _ => trivial
    exact hs.balanced rfl (fun flow ack heq => hack ⟨flow, ack, HostEvent.io.inj heq⟩) hbal

/-! ### Retransmissions -/

/-- A retransmission finds its entry in the list, so it counts nothing twice. -/
theorem Balanced.handleRetrans (hbal : h.Balanced) (halloc : env.alloc.node = true)
    (hscheduled : Scheduled flow (h.view flow)) {time : Time} {key : U32} {packet : PacketEntry}
    (htop : h.retransQueue.timerlistTop = some (time, flow, key))
    (hfind : h.findConnection flow = some conn) (hpacket : h.findPacket flow key = some packet) :
    (h.handleRetrans env flow key conn packet).2.Balanced := by
  obtain ⟨snd, fin, packets, hsending⟩ := hscheduled.book.sending (view_stream_of_find hfind)
  obtain ⟨p, packet', rfl, he, -, hvalue⟩ :=
    hsending.isReady_of_ready (Timerlist.entries_top_pos htop)
  rw [findPacket, hfind, Option.bind_some, hvalue] at hpacket
  obtain rfl := Option.some.inj hpacket
  have hpresent : conn.packetList.treemapGet seqCmp packet'.seq ≠ none := by
    rw [hsending.seq_eq _ he, hsending.get_of_mem (hsending.value_iff.mp hvalue)]
    simp
  unfold Host.handleRetrans
  split
  · exact hbal.acts env ((Acts.refl h).queueRetrans flow _ packet' h.curTime)
  · split
    · refine Balanced.acts (hbal.dataPost halloc ?_ _ _ _) env ((Acts.refl _).queueRetrans flow _ packet' _)
      intro conn' hfind' _ hnone
      obtain rfl := Option.some.inj (hfind.symm.trans hfind')
      exact absurd hnone hpresent
    · exact hbal

theorem Balanced.retransQueueLoop (hbal : h.Balanced) (halloc : env.alloc.Succeeds)
    (hscheduled : ∀ flow, Scheduled flow (h.view flow)) (fuel : Nat) :
    (h.retransQueueLoop env fuel).Balanced := by
  induction fuel generalizing h with
  | zero => exact hbal
  | succ fuel ih =>
      unfold Host.retransQueueLoop
      split
      · exact hbal
      · rename_i time flow key htop
        split
        · rename_i conn packet hfind hpacket
          dsimp only
          have hturn := (hbal.handleRetrans halloc.1 (hscheduled flow) htop hfind hpacket).acts env
            ((Acts.refl _).popUnready flow key)
          split
          · exact hturn
          · refine ih hturn fun g => ?_
            have hreaches : Reaches g env (.time fuel) (h.view g) h
                ((h.handleRetrans env flow key conn packet).2.popUnready flow key) :=
              reaches_retransTurn htop hfind hpacket
            exact (hscheduled g).of_reaches halloc hreaches
        · exact hbal.acts env ((Acts.refl h).record rfl)

theorem Balanced.checkRetransQueue (hbal : h.Balanced) (halloc : env.alloc.Succeeds)
    (hscheduled : ∀ flow, Scheduled flow (h.view flow)) (nextTime : Time) :
    (h.checkRetransQueue env nextTime).1.Balanced := by
  have hsent : ((Host.retransActive h.curTime h.activeQueue.flows h nextTime).1.retransQueueSend
      env).Balanced := by
    refine (hbal.acts env ((Acts.refl h).retransActive h.curTime h.activeQueue.flows
      nextTime)).retransQueueLoop halloc (fun flow => ?_) _
    have hreaches : Reaches flow env (.time 0) (h.view flow) h
        (Host.retransActive h.curTime h.activeQueue.flows h nextTime).1 :=
      reaches_retransActive h.curTime h.activeQueue.flows nextTime
    exact (hscheduled flow).of_reaches halloc hreaches
  unfold Host.checkRetransQueue
  dsimp only
  split <;> exact hsent

/-! ### First transmissions -/

theorem inflight_room (hcwnd : ¬ h.sndCwnd ≤ h.inflight) : h.inflight.toNat + 1 < 2 ^ 32 := by
  have hlt : h.inflight.toNat < h.sndCwnd.toNat := BitVec.lt_def.mp (BitVec.not_le.mp hcwnd)
  have := h.sndCwnd.isLt
  omega

theorem Balanced.transmitLoop (hbal : h.Balanced) (halloc : env.alloc.node = true) (flow : U32)
    (fuel : Nat) : (h.transmitLoop env flow fuel).2.Balanced := by
  induction fuel generalizing h with
  | zero => exact hbal
  | succ fuel ih =>
      unfold Host.transmitLoop
      split
      · exact hbal
      · rename_i conn hfind
        dsimp only
        split
        · exact hbal
        · split
          · exact hbal
          · split
            · exact hbal
            · rename_i hcwnd
              have hposted : (h.litedtDataPost env flow conn.sendSeq (h.nextBytes conn.toStream)
                  (h.fecHeader conn.toStream).1 (h.fecHeader conn.toStream).2 true).2.Balanced :=
                hbal.dataPost halloc (fun _ _ _ _ => inflight_room hcwnd) _ _ true
              split
              · exact ih (hposted.modifyConn flow fun _ _ => rfl)
              · split <;> exact hposted

theorem Balanced.transmitActive (hbal : h.Balanced) (halloc : env.alloc.node = true)
    (flows : List U32) (limited : Bool) (nextTime : Time) :
    (h.transmitActive env flows limited nextTime).1.Balanced :=
  transmitActive_preserves (P := fun _ => Balanced) id (fun hbal => hbal.of_nodes_eq rfl rfl rfl)
    (fun flow fuel hbal => hbal.transmitLoop halloc flow fuel) id
    (fun _ _ hbal => hbal.setActive _ false rfl rfl rfl) limited nextTime hbal

theorem Balanced.checkTransmitQueue (hbal : h.Balanced) (halloc : env.alloc.node = true)
    (nextTime : Time) : (h.checkTransmitQueue env nextTime).1.Balanced := by
  have hmarked (h : Host) (limited : Bool) (hbal : h.Balanced) :
      (h.markAppLimited limited).Balanced := by
    unfold markAppLimited
    split
    · exact hbal
    · exact hbal.of_nodes_eq rfl rfl rfl
  have hcleared (h : Host) (limited : Bool) (hbal : h.Balanced) :
      (h.clearCredit limited).Balanced := by
    unfold clearCredit
    split
    · exact hbal.of_nodes_eq rfl rfl rfl
    · exact hbal
  exact hcleared _ _ (hmarked _ _ (hbal.transmitActive halloc h.activeQueue.flows false nextTime))

/-! ### Whole runs -/

theorem Balanced.checkConnectionState (hbal : h.Balanced) (env : Env) (fuel : Nat)
    (nextTime : Time) :
    (Host.checkConnectionState env fuel h.addCredit.ctrlTimeEvent nextTime).1.Balanced :=
  hbal.acts env (((Acts.refl h).addCredit.act .control).checkConnectionState (fun _ => trivial) fuel
    nextTime)

theorem Balanced.serve (hbal : h.Balanced) (halloc : env.alloc.Succeeds)
    (hscheduled : ∀ flow, Scheduled flow (h.view flow)) (fuel : Nat) (nextTime : Time) :
    (h.serve env fuel nextTime).Balanced := by
  have hchecked := hbal.checkConnectionState env fuel nextTime
  have hscheduled' : ∀ flow, Scheduled flow
      ((Host.checkConnectionState env fuel h.addCredit.ctrlTimeEvent nextTime).1.view flow) := by
    intro flow
    have hreaches : Reaches flow env (.time fuel) (h.view flow) h
        (Host.checkConnectionState env fuel h.addCredit.ctrlTimeEvent nextTime).1 :=
      (Reaches.of_view_eq (view_of_core (core_ctrlTimeEvent.trans core_addCredit))).trans
        (reaches_checkConnectionState rfl nextTime)
    exact (hscheduled flow).of_reaches halloc hreaches
  unfold Host.serve
  generalize Host.checkConnectionState env fuel h.addCredit.ctrlTimeEvent nextTime = checked
    at hchecked hscheduled' ⊢
  have hretransmitted := hchecked.checkRetransQueue halloc hscheduled' checked.2
  exact (hretransmitted.checkTransmitQueue halloc.1 _).of_nodes_eq rfl rfl rfl

theorem Balanced.timeEvent (hbal : h.Balanced) (halloc : env.alloc.Succeeds)
    (hscheduled : ∀ flow, Scheduled flow ((h.updateTime env).view flow)) (fuel : Nat) :
    (h.litedtTimeEvent env fuel).Balanced := by
  unfold litedtTimeEvent
  dsimp only
  split
  · exact hbal.of_nodes_eq rfl rfl rfl
  · have hpinged : ((h.updateTime env).sendPing env).Balanced :=
      hbal.acts env ((Acts.refl h).updateTime.sendPing fun _ => trivial)
    have hscheduled' : ∀ flow, Scheduled flow (((h.updateTime env).sendPing env).view flow) := by
      intro flow
      have hreaches : Reaches flow env (.time fuel) ((h.updateTime env).view flow)
          (h.updateTime env) ((h.updateTime env).sendPing env) :=
        reaches_sendPing
      exact (hscheduled flow).of_reaches halloc hreaches
    generalize (h.updateTime env).sendPing env = pinged at hpinged hscheduled' ⊢
    generalize expireTimeWait env.now pinged.timewaitQueue = queue
    have hexpired : { pinged with timewaitQueue := queue.1 }.Balanced :=
      hpinged.of_nodes_eq rfl rfl rfl
    split
    · exact hexpired.acts env (Acts.refl _).goOffline
    · split
      · exact hexpired.serve halloc hscheduled' fuel _
      · exact hexpired

/-- Every event keeps the counters in step with the entries, given memory and scheduled flows. -/
theorem Balanced.step (hbal : h.Balanced) (halloc : env.alloc.Succeeds)
    (hscheduled : ∀ flow, Scheduled flow (h.view flow)) (event : HostEvent) :
    (h.step env event).Balanced := by
  have hbegan : ∀ flow, Scheduled flow ((h.updateTime env).view flow) := fun flow =>
    (hscheduled flow).setTime env.now
  cases event with
  | call call => exact hbal.acts env ((Acts.refl h).call (fun _ => trivial) call)
  | time fuel => exact hbal.timeEvent halloc hbegan fuel
  | io packet => exact hbal.ioEvent halloc hbegan packet
  | fini => exact hbal.acts env (Acts.refl h).fini

theorem balanced_init (cfg : Config) (nodeId : U16) (now : Time) :
    (litedtInit cfg nodeId now).Balanced :=
  ⟨List.nodup_nil, rfl, rfl⟩

theorem balanced_run {cfg : Config} (hsize : cfg.bufferSize.toNat < 2 ^ 31) (nodeId : U16)
    (now : Time) {events : List (Env × HostEvent)} (halloc : ∀ e ∈ events, e.1.alloc.Succeeds) :
    ((litedtInit cfg nodeId now).run events).Balanced := by
  induction events using List.reverseRecOn with
  | nil => exact balanced_init cfg nodeId now
  | append_singleton front last ih =>
      have hfront : ∀ e ∈ front, e.1.alloc.Succeeds := fun e he => halloc e (by simp [he])
      have hrun : (litedtInit cfg nodeId now).run (front ++ [last]) =
          ((litedtInit cfg nodeId now).run front).step last.1 last.2 := by
        simp [run]
      rw [hrun]
      exact (ih hfront).step (halloc last (by simp)) (scheduled_run hsize nodeId now hfront) last.2

end Host

end Liteflow

import Liteflow.Proof.Sender

/-!
# The sender's bookkeeping against any peer

Whatever datagrams arrive, in whatever order, the send window and the two queues of a connection stay
consistent: an acknowledgement never releases more than `send_buf` holds, a (re)transmission only
reads positions that it holds, and no queue points to an entry that is gone.
-/

namespace Liteflow

def SenderOk (v : FlowState) : Prop :=
  match v.stream with
  | some c => ∃ snd fin packets, Sending c v.ready snd fin packets
  | none => v.ready = fun _ => 0

def Event.SenderSafe (flow : U32) : Event → Prop
  | assertFailed g .ackRelease | assertFailed g .queueRetrans | dangling g => g ≠ flow
  | bufferRead g seq len startPos readable =>
      g = flow → (seq - startPos).toNat + len.toNat ≤ readable.toNat
  | _ => True

theorem senderSafe_of_flow {flow : U32} {event : Event} (hflow : event.flow? ≠ some flow) :
    event.SenderSafe flow := by
  unfold Event.SenderSafe
  split
  · exact fun heq => hflow (by rw [heq]; rfl)
  · exact fun heq => hflow (by rw [heq]; rfl)
  · exact fun heq => hflow (by rw [heq]; rfl)
  · exact fun heq => absurd (by rw [heq]; rfl) hflow
  · trivial

structure Bookkeeping (flow : U32) (v : FlowState) : Prop where
  buffer_lt : v.cfg.bufferSize.toNat < 2 ^ 31
  sender : SenderOk v
  log : ∀ event ∈ v.log, event.SenderSafe flow

variable {flow : U32} {env : Env} {event : HostEvent} {start v v' : FlowState}
  {c : Stream} {snd fin : Nat} {packets : List (Nat × PacketEntry)}

theorem Bookkeeping.sending (hbook : Bookkeeping flow v) (hstream : v.stream = some c) :
    ∃ snd fin packets, Sending c v.ready snd fin packets := by
  have hsender := hbook.sender
  unfold SenderOk at hsender
  rw [hstream] at hsender
  exact hsender

theorem Bookkeeping.withStream (hbook : Bookkeeping flow v)
    (hsending : Sending c v.ready snd fin packets) : Bookkeeping flow (v.withStream c) :=
  ⟨hbook.buffer_lt, ⟨snd, fin, packets, hsending⟩, hbook.log⟩

theorem Bookkeeping.send (hbook : Bookkeeping flow v) (flight : Flight) :
    Bookkeeping flow (v.send flight) :=
  ⟨hbook.buffer_lt, hbook.sender, hbook.log⟩

theorem Bookkeeping.note (hbook : Bookkeeping flow v) {event : Event}
    (hsafe : event.SenderSafe flow) : Bookkeeping flow (v.note event) :=
  ⟨hbook.buffer_lt, hbook.sender, fun e he => by
    rcases List.mem_append.mp he with he | he
    · exact hbook.log e he
    · exact List.mem_singleton.mp he ▸ hsafe⟩

theorem Bookkeeping.of_sending (hbook : Bookkeeping flow v) {ready : U32 → Nat}
    (hsending : Sending c ready snd fin packets) :
    Bookkeeping flow { v with stream := some c, ready := ready } :=
  ⟨hbook.buffer_lt, ⟨snd, fin, packets, hsending⟩, hbook.log⟩

/-! ### Reads of `send_buf` -/

theorem Sending.bufferRead_safe {ready : U32 → Nat} (hsending : Sending c ready snd fin packets)
    {p : Nat} {len : U32} (hp : c.acked ≤ p) (hend : p + len.toNat ≤ fin) :
    (c.bufferRead flow (wire p) len).SenderSafe flow := by
  have hfin := hsending.fin_lt
  intro _
  rw [hsending.filled.ring.start, toNat_wire_sub hp (by omega),
    hsending.filled.rbufReadableBytes_toNat]
  omega

theorem Sending.bufferRead_posted {ready : U32 → Nat} (hsending : Sending c ready snd fin packets)
    {cfg : Config} {packet : PacketEntry} (hfirst : FirstPacket cfg c packet) :
    (c.bufferRead flow packet.seq packet.length).SenderSafe flow := by
  have hlen := hfirst.length_le
  have hfin := hsending.fin_lt
  have hacked := hsending.acked_le
  have hsnd := hsending.snd_le
  rw [hsending.writeSeq_eq, hsending.sendSeq_eq, toNat_wire_sub hsnd (by omega)] at hlen
  rw [hfirst.seq_eq, hsending.sendSeq_eq]
  exact hsending.bufferRead_safe hacked (by omega)

theorem Sending.bufferRead_entry {ready : U32 → Nat} (hsending : Sending c ready snd fin packets)
    {p : Nat} {packet : PacketEntry} (he : (p, packet) ∈ packets) :
    (c.bufferRead flow packet.seq packet.length).SenderSafe flow := by
  rw [hsending.seq_eq _ he]
  exact hsending.bufferRead_safe (hsending.keyed.inside _ he).1
    ((hsending.end_le _ he).trans hsending.snd_le)

/-! ### One move -/

theorem Sending.enter_eq {ready : U32 → Nat} (hsending : Sending c ready snd fin packets)
    {p : Nat} {packet entry : PacketEntry} (he : (p, packet) ∈ packets)
    (hentry : entry.seq = packet.seq) (nodeAlloc : Bool) : c.enter nodeAlloc entry = c := by
  obtain ⟨before, after, rfl⟩ := List.append_of_mem he
  have hget := hsending.keyed.get_split
  rw [Stream.enter, hentry, hsending.seq_eq _ he, hget]
  rfl

theorem Bookkeeping.requeue (hbook : Bookkeeping flow v) (hstream : v.stream = some c) {key : U32}
    {packet : PacketEntry} (time : Time) (hready : 0 < v.ready key)
    (hpacket : c.packetList.treemapValue key = some packet) :
    Bookkeeping flow ((v.requeue flow key packet time).popUnready flow key) := by
  obtain ⟨snd, fin, packets, hsending⟩ := hbook.sending hstream
  obtain ⟨p, packet', rfl, he, hisReady, hvalue⟩ := hsending.isReady_of_ready hready
  rw [hpacket] at hvalue
  obtain rfl := Option.some.inj hvalue
  obtain ⟨packets', -, ⟨requeued, hrequeued, hunready⟩, hout⟩ :=
    hsending.toOutstanding.requeue time he hisReady
  have hresult : (v.requeue flow (wire p) packet time).popUnready flow (wire p) =
      { v with
        stream := some (c.requeue (wire p) time)
        ready := Function.update v.ready (wire p) (v.ready (wire p) - 1) } := by
    unfold FlowState.requeue FlowState.popUnready
    rw [if_pos hisReady]
    simp only [hstream, Option.map_some, Option.bind_some, hrequeued, hunready]
    rfl
  rw [hresult]
  exact hbook.of_sending (hsending.of_relisted (Stream.relisted_requeue _ _ _) hout)

theorem FlowState.repost_ready (nodeAlloc : Bool) (packet entry : PacketEntry) :
    (v.repost flow c nodeAlloc packet entry).ready = v.ready := by
  unfold FlowState.repost
  split <;> rfl

theorem Bookkeeping.repost (hbook : Bookkeeping flow v) (hstream : v.stream = some c) {key : U32}
    {packet entry : PacketEntry} (hready : 0 < v.ready key)
    (hpacket : c.packetList.treemapValue key = some packet) (hentry : entry.seq = packet.seq)
    (nodeAlloc : Bool) :
    (v.repost flow c nodeAlloc packet entry).stream = v.stream ∧
      Bookkeeping flow (v.repost flow c nodeAlloc packet entry) := by
  obtain ⟨snd, fin, packets, hsending⟩ := hbook.sending hstream
  obtain ⟨p, packet', rfl, he, -, hvalue⟩ := hsending.isReady_of_ready hready
  obtain rfl := Option.some.inj (hpacket.symm.trans hvalue)
  unfold FlowState.repost
  rw [hsending.enter_eq he hentry]
  split
  · exact ⟨rfl, hbook.send _⟩
  · exact ⟨hstream.symm,
      ((hbook.withStream hsending).note (hsending.bufferRead_entry he)).send _⟩

theorem bookkeeping_senderMove (hmove : SenderMove flow env v v') (halloc : env.alloc.Succeeds)
    (hbook : Bookkeeping flow v) : Bookkeeping flow v' := by
  cases hmove with
  | write data hstream hstate hfits hdata =>
      obtain ⟨snd, fin, packets, hsending⟩ := hbook.sending hstream
      exact (hbook.withStream (hsending.write halloc hdata hfits).1).note trivial
  | @post c packet hstream hfirst =>
      obtain ⟨snd, fin, packets, hsending⟩ := hbook.sending hstream
      have hposted := hsending.posted hfirst
      rw [← halloc.1] at hposted
      have hsent := ((hbook.withStream hposted).note (hsending.bufferRead_posted hfirst)).send
        (c.dataFlight flow (c.postOf packet))
      unfold FlowState.postFull
      split
      · exact (hsent.withStream (hposted.of_frame (Stream.sendFrame_setFec _ _))).send _
      · exact hsent
  | keepalive hstream => exact hbook.send _
  | fecPost hstream hindex =>
      obtain ⟨snd, fin, packets, hsending⟩ := hbook.sending hstream
      exact (hbook.withStream (hsending.of_frame (Stream.sendFrame_setFec _ _))).send _
  | ready time hstream hready =>
      obtain ⟨snd, fin, packets, hsending⟩ := hbook.sending hstream
      obtain ⟨packets', hdangling, -, hout⟩ := hsending.toOutstanding.readyLoop time _ rfl
      have hsending' := hsending.of_relisted (Stream.relisted_readyLoop time _ _) hout
      rw [hready] at hdangling hsending'
      dsimp only at hdangling hsending'
      subst hdangling
      exact hbook.of_sending hsending'
  | @retransmit c packet key time entry hstream hready hpacket hwindow hfits hentry =>
      have hposted := hbook.repost hstream hready hpacket hentry env.alloc.node
      refine hposted.2.requeue (hposted.1.trans hstream) time ?_ hpacket
      rwa [FlowState.repost_ready]
  | giveUp key time hstream hready hpacket => exact hbook.requeue hstream time hready hpacket
  | hold key hstream hready hpacket =>
      obtain ⟨snd, fin, packets, hsending⟩ := hbook.sending hstream
      obtain ⟨p, packet', rfl, he, hisReady, hvalue⟩ := hsending.isReady_of_ready hready
      unfold FlowState.popUnready
      simp only [hstream, Option.bind_some, hvalue, hisReady, if_true]
      exact hbook
  | lost key hready hpacket =>
      cases hstream : v.stream with
      | none =>
          have hsender := hbook.sender
          unfold SenderOk at hsender
          rw [hstream] at hsender
          dsimp only at hsender
          simp [hsender] at hready
      | some c =>
          obtain ⟨snd, fin, packets, hsending⟩ := hbook.sending hstream
          obtain ⟨p, packet', rfl, he, hisReady, hvalue⟩ := hsending.isReady_of_ready hready
          simp [hstream, hvalue] at hpacket

theorem bookkeeping_ackMove (hmove : AckMove flow env event v v') (halloc : env.alloc.Succeeds)
    (hbook : Bookkeeping flow v) : Bookkeeping flow v' := by
  cases hmove with
  | range hstream hevent hrange =>
      rename_i range
      obtain ⟨snd, fin, packets, hsending⟩ := hbook.sending hstream
      obtain ⟨before, gone, kept, -, hgone, -, hout, -⟩ :=
        hsending.toOutstanding.releaseRange range.1 range.2
      rw [hgone]
      exact hbook.of_sending (hsending.of_relisted (Stream.relisted_releaseRange _ _ _) hout)
  | window hstream hevent hwindow hmoved =>
      obtain ⟨snd, fin, packets, hsending⟩ := hbook.sending hstream
      obtain ⟨moved, base, gone, kept, hmoved', -, -, -, -, hgone, -, hsending', -, -⟩ :=
        hsending.window v.curTime hwindow
      rw [halloc.1, hmoved'] at hmoved
      obtain rfl := Option.some.inj hmoved
      rw [hgone]
      exact hbook.of_sending hsending'
  | failed hstream hevent hwindow hmoved =>
      obtain ⟨snd, fin, packets, hsending⟩ := hbook.sending hstream
      obtain ⟨moved, base, gone, kept, hmoved', -⟩ := hsending.window v.curTime hwindow
      rw [halloc.1, hmoved'] at hmoved
      exact absurd hmoved (by simp)

theorem Bookkeeping.frame {c c' : Stream} (hbook : Bookkeeping flow v) (hstream : v.stream = some c)
    (hframe : SendFrame c c') : Bookkeeping flow (v.withStream c') := by
  obtain ⟨snd, fin, packets, hsending⟩ := hbook.sending hstream
  exact hbook.withStream (hsending.of_frame hframe)

theorem bookkeeping_receiverMove (hmove : ReceiverMove flow env event start v v')
    (hbook : Bookkeeping flow v) : Bookkeeping flow v' := by
  cases hmove with
  | store hstream hevent hlen huntouched =>
      exact hbook.frame hstream (Stream.sendFrame_storeData _ _ _)
  | @insert c inserted hstream hinserted huntouched hstate hdecode =>
      have hinsert := hbook.frame hstream (Stream.sendFrame_insertFec env.alloc c inserted)
      refine ⟨hinsert.buffer_lt, hinsert.sender, fun e he => ?_⟩
      rcases List.mem_append.mp he with he | he
      · rcases List.mem_append.mp he with he | he
        · exact hbook.log e he
        · exact List.mem_singleton.mp he ▸ trivial
      · obtain ⟨dp, -, rfl⟩ := Option.map_eq_some_iff.mp (Option.mem_toList.mp he)
        trivial
  | checkpoint hstream => exact hbook.frame hstream (Stream.sendFrame_setFec _ _)
  | read hstream hsize hreleased =>
      obtain ⟨-, recvBuf, rwinStart, rwinSize, rfl⟩ := Stream.releaseRecv_eq hreleased
      exact (hbook.frame hstream (by constructor <;> rfl)).note trivial
  | failed hstream hreleased => exact hbook.note trivial
  | ack acks sackMap hstream hacks => exact (hbook.frame hstream (by constructor <;> rfl)).send _

theorem bookkeeping_controlMove (hmove : ControlMove flow env event v v')
    (hbook : Bookkeeping flow v) : Bookkeeping flow v' := by
  cases hmove.shape with
  | create tunnelId hstream =>
      have hsender := hbook.sender
      unfold SenderOk at hsender
      rw [hstream] at hsender
      dsimp only at hsender
      have hnew := sending_newConn hbook.buffer_lt env.now tunnelId
      exact (hbook.withStream (hsender ▸ hnew _)).note trivial
  | @release c cause hstream hreleases =>
      obtain ⟨snd, fin, packets, hsending⟩ := hbook.sending hstream
      have hnoted : Bookkeeping flow (v.note (.released flow cause c)) := hbook.note trivial
      exact ⟨hbook.buffer_lt, hsending.unready_toList, hnoted.log⟩
  | turn state confirmed hstream hout =>
      exact ⟨hbook.buffer_lt, (hbook.frame hstream (by constructor <;> rfl)).sender, hbook.log⟩
  | send hout => exact ⟨hbook.buffer_lt, hbook.sender, hbook.log⟩

theorem bookkeeping_sessionMove (hmove : SessionMove env event v v')
    (hbook : Bookkeeping flow v) : Bookkeeping flow v' := by
  cases hmove with
  | pingReq => exact ⟨hbook.buffer_lt, hbook.sender, hbook.log⟩
  | pingRsp hevent htoken => exact hbook.send _
  | @accept rsp hevent hid htime hnode htoken =>
      have hnoted : Bookkeeping flow (v.note (.pingAccepted rsp)) := hbook.note trivial
      exact ⟨hbook.buffer_lt, hbook.sender, hnoted.log⟩
  | offline => exact ⟨hbook.buffer_lt, hbook.sender, hbook.log⟩
  | finalise hevent => exact ⟨hbook.buffer_lt, hbook.sender, hbook.log⟩

theorem bookkeeping_move (halloc : env.alloc.Succeeds) (hmove : Move flow env event start v v')
    (hbook : Bookkeeping flow v) : Bookkeeping flow v' := by
  cases hmove with
  | sender hmove => exact bookkeeping_senderMove hmove halloc hbook
  | ack hmove => exact bookkeeping_ackMove hmove halloc hbook
  | receiver hmove => exact bookkeeping_receiverMove hmove hbook
  | control hmove => exact bookkeeping_controlMove hmove hbook
  | session hmove => exact bookkeeping_sessionMove hmove hbook
  | foreignSend flight hflow hping => exact hbook.send _
  | foreignNote note hflow hping => exact hbook.note (senderSafe_of_flow hflow)

/-! ### Whole runs -/

theorem bookkeeping_init {cfg : Config} (hsize : cfg.bufferSize.toNat < 2 ^ 31) (nodeId : U16)
    (now : Time) (flow : U32) : Bookkeeping flow ((Host.litedtInit cfg nodeId now).view flow) where
  buffer_lt := hsize
  sender := rfl
  log := by simp [Host.view, Host.litedtInit]

theorem bookkeeping_run {cfg : Config} (hsize : cfg.bufferSize.toNat < 2 ^ 31) (nodeId : U16)
    (now : Time) {events : List (Env × HostEvent)} (halloc : ∀ e ∈ events, e.1.alloc.Succeeds)
    (flow : U32) : Bookkeeping flow (((Host.litedtInit cfg nodeId now).run events).view flow) :=
  Host.run_preserves (fun _ _ hbook => ⟨hbook.buffer_lt, hbook.sender, hbook.log⟩)
    (fun e he _ _ _ hmove => bookkeeping_move (halloc e he) hmove)
    (bookkeeping_init hsize nodeId now flow)

theorem Sending.distances {ready : U32 → Nat} (hsending : Sending c ready snd fin packets) :
    c.sendBuf.startPos = c.swinStart ∧ c.sendBuf.writePos = c.writeSeq ∧
      c.sendBuf.rbufReadableBytes = c.writeSeq - c.swinStart ∧
      c.sendSeq - c.swinStart ≤ c.writeSeq - c.swinStart ∧
      (c.writeSeq - c.swinStart).toNat ≤ c.sendBuf.blocksCount * rbufBlockSize := by
  have hfin := hsending.fin_lt
  have hacked := hsending.acked_le
  have hsnd := hsending.snd_le
  have hwrite : (c.writeSeq - c.swinStart).toNat = fin - c.acked := by
    rw [hsending.writeSeq_eq, hsending.swinStart_eq, toNat_wire_sub (by omega) (by omega)]
  have hsend : (c.sendSeq - c.swinStart).toNat = snd - c.acked := by
    rw [hsending.sendSeq_eq, hsending.swinStart_eq, toNat_wire_sub (by omega) (by omega)]
  refine ⟨hsending.filled.ring.start.trans hsending.swinStart_eq.symm,
    hsending.filled.writePos_eq.trans hsending.writeSeq_eq.symm, ?_, ?_, ?_⟩
  · rw [← BitVec.toNat_inj, hwrite, hsending.filled.rbufReadableBytes_toNat]
  · rw [BitVec.le_def, hwrite, hsend]
    omega
  · have hend := hsending.filled.fin_le
    have hdiv := Nat.div_mul_le_self c.acked rbufBlockSize
    rw [Rbuf.windowEnd, Nat.add_mul] at hend
    omega

/-- **The sender's bookkeeping survives any peer.** Whatever datagrams arrive, the send window agrees
with `send_buf`, no acknowledgement has released more than it held, no packet entry was used after
its release, and no read went past what it held. -/
theorem sender_bookkeeping {cfg : Config} (hsize : cfg.bufferSize.toNat < 2 ^ 31) (nodeId : U16)
    (now : Time) (events : List (Env × HostEvent)) (halloc : ∀ e ∈ events, e.1.alloc.Succeeds)
    (flow : U32) :
    (∀ conn, ((Host.litedtInit cfg nodeId now).run events).findConnection flow = some conn →
      conn.sendBuf.startPos = conn.swinStart ∧ conn.sendBuf.writePos = conn.writeSeq ∧
        conn.sendBuf.rbufReadableBytes = conn.writeSeq - conn.swinStart ∧
        conn.sendSeq - conn.swinStart ≤ conn.writeSeq - conn.swinStart ∧
        (conn.writeSeq - conn.swinStart).toNat ≤ conn.sendBuf.blocksCount * rbufBlockSize) ∧
      .assertFailed flow .ackRelease ∉ ((Host.litedtInit cfg nodeId now).run events).log ∧
      .dangling flow ∉ ((Host.litedtInit cfg nodeId now).run events).log ∧
      ∀ seq len startPos readable, .bufferRead flow seq len startPos readable ∈
          ((Host.litedtInit cfg nodeId now).run events).log →
        (seq - startPos).toNat + len.toNat ≤ readable.toNat := by
  have hbook := bookkeeping_run hsize nodeId now halloc flow
  refine ⟨fun conn hfind => ?_, fun hmem => hbook.log _ hmem rfl, fun hmem => hbook.log _ hmem rfl,
    fun seq len startPos readable hmem => hbook.log _ hmem rfl⟩
  obtain ⟨snd, fin, packets, hsending⟩ := hbook.sending (Host.view_stream_of_find hfind)
  exact hsending.distances

/-- A peer opens a flow and, after a write, acknowledges positions that were never sent. -/
def hostileAck : List (Env × HostEvent) :=
  [(.plain 0, .io (.connectReq 7 0)),
    (.plain 0, .call (.send 7 .three)),
    (.plain 0, .io (.dataAck 7 { winStart := 2, winSize := 0, acks := [(0, 3)] })),
    (.plain 0, .io (.dataAck 7 { winStart := 2147483649, winSize := 9, acks := [(5, 1)] }))]

theorem sender_bookkeeping_hostileAck :
    ∃ conn, ((Host.litedtInit (.globalConfigInit Config.plainToken) 1 0).run
        hostileAck).findConnection 7 = some conn ∧
      conn.writeSeq = 3 ∧ conn.sendBuf.rbufReadableBytes = conn.writeSeq - conn.swinStart := by
  have hsafe := sender_bookkeeping
    (show (Config.globalConfigInit Config.plainToken).bufferSize.toNat < 2 ^ 31 by decide) 1 0
    hostileAck (by simp [hostileAck, Env.plain_succeeds]) 7
  have hfound : (((Host.litedtInit (.globalConfigInit Config.plainToken) 1 0).run
      hostileAck).findConnection 7).map (fun conn => conn.writeSeq) = some 3 := by
    decide +kernel
  obtain ⟨conn, hfind, hwrite⟩ := Option.map_eq_some_iff.mp hfound
  exact ⟨conn, hfind, hwrite, (hsafe.1 conn hfind).2.2.1⟩

end Liteflow

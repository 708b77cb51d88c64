import Liteflow.Proof.Bookkeeping

/-!
# The stream behind `send_buf`

`send_buf` holds what the application has written to the connection, from the first byte on that the
peer has not acknowledged. This holds in every run whose allocations succeed, whatever the peer sends.
-/

namespace Liteflow

/-! ### What has been written -/

/-- What an event adds to the stream of the flow. A new connection begins a new stream. -/
def addWritten (flow : U32) (bytes : List Byte) : Event → List Byte
  | .created g => if g = flow then [] else bytes
  | .wrote g data => if g = flow then bytes ++ data else bytes
  | _ => bytes

/-- What the application has written to the last connection of the flow. -/
def writtenTo (flow : U32) (log : List Event) : List Byte :=
  log.foldl (addWritten flow) []

theorem writtenTo_append (flow : U32) (log new : List Event) :
    writtenTo flow (log ++ new) = new.foldl (addWritten flow) (writtenTo flow log) :=
  List.foldl_append

theorem writtenTo_note (flow : U32) (log : List Event) (event : Event) :
    writtenTo flow (log ++ [event]) = addWritten flow (writtenTo flow log) event :=
  writtenTo_append flow log [event]

theorem addWritten_of_flow {flow : U32} {event : Event} (hflow : event.flow? ≠ some flow)
    (bytes : List Byte) : addWritten flow bytes event = bytes := by
  cases event with
  | wrote g data => exact if_neg fun heq => hflow (congrArg some heq)
  | created g => exact if_neg fun heq => hflow (congrArg some heq)
  | _ => rfl

/-- The bytes from position `acked` on are in `send_buf`, and the next one goes behind them. -/
structure Held (c : Stream) (bytes : List Byte) : Prop where
  filled : Rbuf.Filled c.sendBuf c.acked bytes.length
  cell_eq : ∀ q, c.acked ≤ q → q < bytes.length → c.sendBuf.cell c.acked q = bytes[q]?

section

variable {c c' : Stream} {bytes : List Byte}

theorem Held.of_eq (hheld : Held c bytes) (hbuf : c'.sendBuf = c.sendBuf)
    (hacked : c'.acked = c.acked) : Held c' bytes := by
  refine ⟨?_, ?_⟩
  · rw [hbuf, hacked]
    exact hheld.filled
  · rw [hbuf, hacked]
    exact hheld.cell_eq

theorem Held.fin_eq (hheld : Held c bytes) {fin : Nat} (hfilled : Rbuf.Filled c.sendBuf c.acked fin) :
    fin = bytes.length := by
  have hread := hheld.filled.rbufReadableBytes_toNat
  rw [hfilled.rbufReadableBytes_toNat] at hread
  have := hheld.filled.base_le
  have := hfilled.base_le
  omega

theorem Held.write (hheld : Held c bytes) {alloc : Alloc} (halloc : alloc.Succeeds)
    {data : List Byte} (hpos : 0 < data.length)
    (hfits : data.length ≤ c.sendBuf.rbufWritableBytes.toNat) :
    Held (c.write alloc data) (bytes ++ data) := by
  rw [hheld.filled.rbufWritableBytes_toNat] at hfits
  obtain ⟨rb, hwrite, hfilled, -, hold, hnew⟩ :=
    hheld.filled.rbufWriteFront_eq halloc hpos (by omega)
  have hwritten : c.write alloc data = { c with sendBuf := rb, writeSeq := rb.writePos } := by
    unfold Stream.write
    rw [hwrite]
  rw [hwritten]
  refine ⟨by simpa using hfilled, fun q hq hlt => ?_⟩
  rcases Nat.lt_or_ge q bytes.length with hin | hout
  · rw [List.getElem?_append_left hin, ← hheld.cell_eq q hq hin]
    exact hold q hq hin
  · rw [List.getElem?_append_right hout]
    exact hnew q hout (by simpa using hlt)

theorem Held.writable_write (hheld : Held c bytes) {alloc : Alloc} (halloc : alloc.Succeeds)
    {data : List Byte} (hpos : 0 < data.length)
    (hfits : data.length ≤ c.sendBuf.rbufWritableBytes.toNat) :
    (c.write alloc data).sendBuf.rbufWritableBytes.toNat =
      c.sendBuf.rbufWritableBytes.toNat - data.length := by
  have hroom := hheld.filled.rbufWritableBytes_toNat
  obtain ⟨rb, hwrite, hfilled, hcount, -⟩ :=
    hheld.filled.rbufWriteFront_eq halloc hpos (by omega)
  have hbuf : (c.write alloc data).sendBuf = rb := by
    unfold Stream.write
    rw [hwrite]
  have hend : rb.windowEnd c.acked = c.sendBuf.windowEnd c.acked := by
    rw [Rbuf.windowEnd, Rbuf.windowEnd, hcount]
  rw [hbuf, hfilled.rbufWritableBytes_toNat, hend, hroom]
  omega

theorem held_newConn {cfg : Config} (hsize : cfg.bufferSize.toNat < 2 ^ 31) (now : Time)
    (tunnelId : U16) (state : ConnState) : Held (Host.newConn cfg now tunnelId state).toStream [] :=
  ⟨Rbuf.filled_init (lt_of_le_of_lt (Nat.div_mul_le_self _ _) hsize), by simp⟩

end

/-! ### Moves that do not write -/

structure BufferKept (flow : U32) (v v' : FlowState) : Prop where
  stream : ∀ c', v'.stream = some c' →
    ∃ c, v.stream = some c ∧ c'.sendBuf = c.sendBuf ∧ c'.acked = c.acked
  log : writtenTo flow v'.log = writtenTo flow v.log

namespace BufferKept

variable {flow : U32} {env : Env} {event : HostEvent} {start v v' v'' : FlowState} {c c' : Stream}

theorem of_eq (hstream : v'.stream = v.stream) (hlog : writtenTo flow v'.log = writtenTo flow v.log) :
    BufferKept flow v v' :=
  ⟨fun c' hc' => ⟨c', hstream ▸ hc', rfl, rfl⟩, hlog⟩

theorem of_stream (hstream : v.stream = some c) (hstream' : v'.stream = some c')
    (hbuf : c'.sendBuf = c.sendBuf) (hacked : c'.acked = c.acked)
    (hlog : writtenTo flow v'.log = writtenTo flow v.log) : BufferKept flow v v' := by
  refine ⟨fun d hd => ?_, hlog⟩
  obtain rfl := Option.some.inj (hstream'.symm.trans hd)
  exact ⟨c, hstream, hbuf, hacked⟩

theorem trans (h : BufferKept flow v v') (h' : BufferKept flow v' v'') : BufferKept flow v v'' := by
  refine ⟨fun c'' hc'' => ?_, h'.log.trans h.log⟩
  obtain ⟨c', hc', hbuf', hacked'⟩ := h'.stream c'' hc''
  obtain ⟨c, hc, hbuf, hacked⟩ := h.stream c' hc'
  exact ⟨c, hc, hbuf'.trans hbuf, hacked'.trans hacked⟩

theorem of_relisted (hstream : v.stream = some c) (hstream' : v'.stream = some c')
    (hrelisted : Relisted c c') (hlog : writtenTo flow v'.log = writtenTo flow v.log) :
    BufferKept flow v v' := by
  obtain ⟨list, queue, rfl⟩ := hrelisted
  exact of_stream hstream hstream' rfl rfl hlog

theorem requeue (v : FlowState) (key : U32) (packet : PacketEntry) (time : Time) :
    BufferKept flow v (v.requeue flow key packet time) := by
  unfold FlowState.requeue
  split
  · refine ⟨fun c' hc' => ?_, rfl⟩
    obtain ⟨c, hc, rfl⟩ := Option.map_eq_some_iff.mp hc'
    exact ⟨c, hc, rfl, rfl⟩
  · exact of_eq rfl (writtenTo_note _ _ _)

theorem popUnready (v : FlowState) (key : U32) : BufferKept flow v (v.popUnready flow key) := by
  unfold FlowState.popUnready
  split
  · exact of_eq rfl (writtenTo_note _ _ _)
  · split
    · exact of_eq rfl rfl
    · exact of_eq rfl rfl

theorem repost (hstream : v.stream = some c) (nodeAlloc : Bool) (packet entry : PacketEntry) :
    BufferKept flow v (v.repost flow c nodeAlloc packet entry) := by
  unfold FlowState.repost
  split
  · exact of_eq rfl rfl
  · exact of_relisted hstream rfl (c.relisted_enter nodeAlloc entry) (writtenTo_note _ _ _)

theorem postFull (hstream : v.stream = some c) : BufferKept flow v (v.postFull flow c) := by
  unfold FlowState.postFull
  split
  · exact of_stream hstream rfl rfl rfl rfl
  · exact of_eq rfl rfl

theorem posted (cfg : Config) (nodeAlloc : Bool) (c : Stream) (packet : PacketEntry) :
    (c.posted cfg nodeAlloc packet).sendBuf = c.sendBuf ∧
      (c.posted cfg nodeAlloc packet).acked = c.acked := by
  obtain ⟨list, queue, heq⟩ := c.relisted_enter nodeAlloc packet
  unfold Stream.posted
  dsimp only
  rw [heq]
  split <;> exact ⟨rfl, rfl⟩

end BufferKept

/-! ### One move -/

def HoldsWritten (flow : U32) (v : FlowState) : Prop :=
  ∀ c, v.stream = some c → Held c (writtenTo flow v.log)

section Moves

variable {flow : U32} {env : Env} {event : HostEvent} {start v v' : FlowState} {c : Stream}

theorem HoldsWritten.of_kept (hholds : HoldsWritten flow v) (hkept : BufferKept flow v v') :
    HoldsWritten flow v' := by
  intro c' hc'
  obtain ⟨c, hc, hbuf, hacked⟩ := hkept.stream c' hc'
  rw [hkept.log]
  exact (hholds c hc).of_eq hbuf hacked

theorem holdsWritten_senderMove (hmove : SenderMove flow env v v') (halloc : env.alloc.Succeeds)
    (hholds : HoldsWritten flow v) : HoldsWritten flow v' := by
  cases hmove with
  | @write c data hstream hstate hfits hdata =>
      rintro _ ⟨⟩
      have hadded : writtenTo flow (v.log ++ [.wrote flow data.val]) =
          writtenTo flow v.log ++ data.val :=
        (writtenTo_note _ _ _).trans (if_pos rfl)
      exact hadded ▸ (hholds c hstream).write halloc hdata hfits
  | @post c packet hstream hfirst =>
      obtain ⟨hbuf, hacked⟩ := BufferKept.posted v.cfg env.alloc.node c packet
      refine hholds.of_kept ?_
      exact (BufferKept.of_stream hstream rfl hbuf hacked (writtenTo_note _ _ _)).trans
        (BufferKept.postFull rfl)
  | keepalive hstream => exact hholds.of_kept (.of_eq rfl rfl)
  | fecPost hstream hindex =>
      exact hholds.of_kept (.of_stream hstream rfl rfl rfl rfl)
  | @ready c c' packets dangling time hstream hready =>
      have hrelisted := c.relisted_readyLoop time c.waitingQueue
      rw [hready] at hrelisted
      refine hholds.of_kept (.of_relisted hstream rfl hrelisted ?_)
      cases dangling
      · rfl
      · exact writtenTo_note _ _ _
  | @retransmit c packet key time entry hstream hready hpacket hwindow hfits hentry =>
      exact hholds.of_kept (((BufferKept.repost hstream env.alloc.node packet entry).trans
        (BufferKept.requeue _ key packet time)).trans (BufferKept.popUnready _ key))
  | @giveUp c packet key time hstream hready hpacket =>
      exact hholds.of_kept ((BufferKept.requeue v key packet time).trans
        (BufferKept.popUnready _ key))
  | hold key hstream hready hpacket => exact hholds.of_kept (BufferKept.popUnready v key)
  | lost key hready hpacket =>
      exact hholds.of_kept (.of_eq rfl (writtenTo_note _ _ _))

theorem holdsWritten_ackMove (hmove : AckMove flow env event v v') (halloc : env.alloc.Succeeds)
    (hbook : Bookkeeping flow v) (hholds : HoldsWritten flow v) : HoldsWritten flow v' := by
  cases hmove with
  | @range c ack range hstream hevent hrange =>
      exact hholds.of_kept (.of_relisted hstream rfl (c.relisted_releaseRange range.1 range.2) rfl)
  | @window c moved ack hstream hevent hwindow hmoved =>
      rintro _ ⟨⟩
      have hheld := hholds c hstream
      obtain ⟨snd, fin, packets, hsending⟩ := hbook.sending hstream
      obtain rfl := hheld.fin_eq hsending.filled
      obtain ⟨hbase, hwin⟩ := hsending.winStart_eq hwindow
      have hacked : c.acked ≤ c.acked + (ack.winStart - c.swinStart).toNat := Nat.le_add_right _ _
      obtain ⟨rb, hfilled, hcell, hmoved'⟩ := hsending.moveSwin v.curTime hacked hbase hwin
      rw [halloc.1, hmoved'] at hmoved
      obtain ⟨list, queue, heq⟩ := moved.relisted_checkpoint ack.winStart
      obtain rfl := Option.some.inj hmoved
      rw [heq]
      refine ⟨hfilled, fun q hq hlt => ?_⟩
      rw [← hheld.cell_eq q (hacked.trans hq) hlt]
      exact hcell q hq hlt
  | failed hstream hevent hwindow hmoved =>
      exact hholds.of_kept (.of_eq rfl (writtenTo_note _ _ _))

theorem holdsWritten_receiverMove (hmove : ReceiverMove flow env event start v v')
    (hholds : HoldsWritten flow v) : HoldsWritten flow v' := by
  refine hholds.of_kept ⟨fun c' hc' => ?_, ?_⟩
  · have hrel := hmove.frame.stream
    rw [hc'] at hrel
    obtain ⟨c, hc, hsame⟩ := exists_of_rel_some hrel
    exact ⟨c, hc, hsame.send.sendBuf_eq, hsame.send.acked_eq⟩
  · obtain ⟨es, hlog, hes⟩ := hmove.frame.log
    rw [hlog, writtenTo_append]
    refine List.foldlRecOn (motive := fun bytes => bytes = writtenTo flow v.log) es _ rfl ?_
    intro bytes hbytes e he
    have hreceiver := hes e he
    cases e <;> simp_all [Event.OfReceiver, addWritten]

theorem holdsWritten_controlMove (hmove : ControlMove flow env event v v')
    (hbook : Bookkeeping flow v) (hholds : HoldsWritten flow v) : HoldsWritten flow v' := by
  cases hmove.shape with
  | create tunnelId hstream =>
      rintro _ ⟨⟩
      have hempty : writtenTo flow (v.log ++ [.created flow]) = [] :=
        (writtenTo_note _ _ _).trans (if_pos rfl)
      exact hempty ▸ held_newConn hbook.buffer_lt env.now tunnelId _
  | release hstream hreleases =>
      rintro c hc
      cases hc
  | turn state confirmed hstream hout => exact hholds.of_kept (.of_stream hstream rfl rfl rfl rfl)
  | send hout => exact hholds.of_kept (.of_eq rfl rfl)

theorem holdsWritten_sessionMove (hmove : SessionMove env event v v')
    (hholds : HoldsWritten flow v) : HoldsWritten flow v' := by
  refine hholds.of_kept ?_
  cases hmove with
  | accept hevent hid htime hnode htoken => exact .of_eq rfl (writtenTo_note _ _ _)
  | _ => exact .of_eq rfl rfl

theorem holdsWritten_move (halloc : env.alloc.Succeeds) (hmove : Move flow env event start v v')
    (hbook : Bookkeeping flow v) (hholds : HoldsWritten flow v) : HoldsWritten flow v' := by
  cases hmove with
  | sender hmove => exact holdsWritten_senderMove hmove halloc hholds
  | ack hmove => exact holdsWritten_ackMove hmove halloc hbook hholds
  | receiver hmove => exact holdsWritten_receiverMove hmove hholds
  | control hmove => exact holdsWritten_controlMove hmove hbook hholds
  | session hmove => exact holdsWritten_sessionMove hmove hholds
  | foreignSend flight hflow hping => exact hholds.of_kept (.of_eq rfl rfl)
  | foreignNote note hflow hping =>
      exact hholds.of_kept (.of_eq rfl ((writtenTo_note _ _ _).trans (addWritten_of_flow hflow _)))

end Moves

/-! ### Runs -/

structure SendsWritten (flow : U32) (h : Host) : Prop where
  book : Bookkeeping flow (h.view flow)
  holds : HoldsWritten flow (h.view flow)

namespace Host

variable {flow : U32} {h : Host}

theorem sendsWritten_init {cfg : Config} (hsize : cfg.bufferSize.toNat < 2 ^ 31) (nodeId : U16)
    (now : Time) (flow : U32) : SendsWritten flow (litedtInit cfg nodeId now) :=
  ⟨bookkeeping_init hsize nodeId now flow, fun c hc => by cases hc⟩

theorem sendsWritten_run (hsends : SendsWritten flow h) {events : List (Env × HostEvent)}
    (halloc : ∀ e ∈ events, e.1.alloc.Succeeds) : SendsWritten flow (h.run events) := by
  obtain ⟨hbook, hholds⟩ : Bookkeeping flow ((h.run events).view flow) ∧
      HoldsWritten flow ((h.run events).view flow) :=
    run_preserves (P := fun v => Bookkeeping flow v ∧ HoldsWritten flow v)
      (fun _ _ hv => ⟨⟨hv.1.buffer_lt, hv.1.sender, hv.1.log⟩, hv.2⟩)
      (fun e he _ _ _ hmove hv => ⟨bookkeeping_move (halloc e he) hmove hv.1,
        holdsWritten_move (halloc e he) hmove hv.1 hv.2⟩) ⟨hsends.book, hsends.holds⟩
  exact ⟨hbook, hholds⟩

end Host

end Liteflow

import Liteflow.Proof.Truthful

/-!
# The advertised window is a promise

The window of an acknowledgement starts at the end of the contiguous data in `recv_buf` and ends
where the ring of blocks ends. Both only move forward: data is only added, and a release moves the
ring on by whole blocks. What was promised once is inside the ring until the stream has passed it.

The positions are those of the stream. Two numbers on the wire are in serial order when the
positions they stand for are, as long as these are less than `2 ^ 31` apart.
-/

namespace Liteflow

open Intervals Rbuf

def SentAck.windowEnd (sent : SentAck) : Nat :=
  sent.pos + sent.ack.winSize.toNat

def DataAck.windowEnd (ack : DataAck) : U32 :=
  ack.winStart + ack.winSize

def SentAck.Before (earlier later : SentAck) : Prop :=
  earlier.pos ≤ later.pos ∧ earlier.windowEnd ≤ later.windowEnd

/-- The same in the serial order of the numbers that are sent. -/
def SentAck.SerialBefore (earlier later : SentAck) : Prop :=
  (later.pos < earlier.pos + 2 ^ 31 →
      lessEqual earlier.ack.winStart later.ack.winStart = true) ∧
    (later.windowEnd < earlier.windowEnd + 2 ^ 31 →
      lessEqual earlier.ack.windowEnd later.ack.windowEnd = true)

/-- A packet inside the window that does not start before `start_pos` is not out of range. -/
def Stream.Accepts (c : Stream) (sent : SentAck) : Prop :=
  ∀ (alloc : Alloc) (p : Nat) (data : List Byte), 0 < data.length → sent.pos ≤ p →
    p + data.length ≤ sent.windowEnd → c.consumed ≤ p →
    (c.recvBuf.rbufWrite alloc (wire p) data).1 ≠ rbufOutOfRange

/-- The same in 32-bit numbers, until `start_pos` is `2 ^ 31` past the window. -/
def Stream.SerialAccepts (c : Stream) (sent : SentAck) : Prop :=
  ∀ (alloc : Alloc) (seq : U32) (data : List Byte), 0 < data.length →
    (seq - sent.ack.winStart).toNat + data.length ≤ sent.ack.winSize.toNat →
    c.consumed < sent.pos + 2 ^ 31 → lessEqual c.recvBuf.startPos seq = true →
    (c.recvBuf.rbufWrite alloc seq data).1 ≠ rbufOutOfRange

/-! ### The receiving half -/

structure Promised (c : Stream) : Prop where
  ranged : ∃ ranges, Ranged c.recvBuf c.consumed ranges ∧ c.rwinPos ≤ frontEnd c.consumed ranges
  fin : c.rwinPos + c.rwinSize.toNat = c.recvBuf.windowEnd c.consumed
  said : ∀ sent ∈ c.acks, wire sent.pos = sent.ack.winStart ∧ sent.ack.winSize.toNat < 2 ^ 31
  ahead : ∀ sent ∈ c.acks, sent.pos ≤ c.rwinPos ∧
    sent.windowEnd ≤ c.recvBuf.windowEnd c.consumed
  ordered : c.acks.Pairwise SentAck.Before

section Promised

variable {c c' : Stream} {ranges : List (Nat × Nat)}

theorem Promised.ring (hpromised : Promised c) : Ring c.recvBuf c.consumed := by
  obtain ⟨ranges, hranged, -⟩ := hpromised.ranged
  exact hranged.toRing

theorem wire_rwinPos (hring : Ring c.recvBuf c.consumed) : wire c.rwinPos = c.rwinStart := by
  rw [Stream.rwinPos, wire_add, ← hring.start, wire_of_toNat, BitVec.add_comm,
    BitVec.sub_add_cancel]

theorem Promised.forward (hpromised : Promised c) (hranged : Ranged c'.recvBuf c'.consumed ranges)
    (hfront : c'.rwinPos ≤ frontEnd c'.consumed ranges)
    (hfin : c'.rwinPos + c'.rwinSize.toNat = c'.recvBuf.windowEnd c'.consumed)
    (hpos : c.rwinPos ≤ c'.rwinPos)
    (hend : c.recvBuf.windowEnd c.consumed ≤ c'.recvBuf.windowEnd c'.consumed)
    (hacks : c'.acks = c.acks) : Promised c' where
  ranged := ⟨ranges, hranged, hfront⟩
  fin := hfin
  said := by rw [hacks]; exact hpromised.said
  ahead := by
    rw [hacks]
    intro sent hsent
    obtain ⟨hstart, hlast⟩ := hpromised.ahead sent hsent
    exact ⟨hstart.trans hpos, hlast.trans hend⟩
  ordered := by rw [hacks]; exact hpromised.ordered

theorem updateRwin_window (hranged : Ranged c.recvBuf c.consumed ranges) :
    c.updateRwin.rwinPos = frontEnd c.consumed ranges ∧
      c.updateRwin.rwinPos + c.updateRwin.rwinSize.toNat = c.recvBuf.windowEnd c.consumed := by
  have hbase := hranged.base_le_frontEnd
  have hend := hranged.frontEnd_le
  have hspan := hranged.windowEnd_lt
  have hreadable := hranged.rbufReadableBytes_toNat
  have hsize := hranged.windowSize_toNat
  have hpos : c.updateRwin.rwinPos = frontEnd c.consumed ranges := by
    change c.consumed + (c.recvBuf.startPos + c.recvBuf.rbufReadableBytes -
      c.recvBuf.startPos).toNat = _
    rw [BitVec.add_comm, BitVec.add_sub_cancel, hreadable]
    omega
  refine ⟨hpos, ?_⟩
  rw [hpos]
  change _ + (c.recvBuf.windowSize - c.recvBuf.rbufReadableBytes).toNat = _
  rw [BitVec.toNat_sub_of_le (by rw [BitVec.le_def]; omega), hsize, hreadable]
  omega

theorem Promised.updateRwin (hpromised : Promised c)
    (hranged : Ranged c'.recvBuf c'.consumed ranges)
    (hpos : c.rwinPos ≤ frontEnd c'.consumed ranges)
    (hend : c.recvBuf.windowEnd c.consumed ≤ c'.recvBuf.windowEnd c'.consumed)
    (hacks : c'.acks = c.acks) : Promised c'.updateRwin := by
  obtain ⟨hrwin, hfin⟩ := updateRwin_window hranged
  rw [← hrwin] at hpos
  exact hpromised.forward hranged hrwin.le hfin hpos hend hacks

theorem promised_newConn {cfg : Config} (hsmall : cfg.blocksCount * rbufBlockSize < 2 ^ 31)
    (now : Time) (tunnelId : U16) (state : ConnState) :
    Promised (Host.newConn cfg now tunnelId state).toStream := by
  have hranged := (holds_init hsmall).toRanged
  have hsize := hranged.windowSize_toNat
  exact
    { ranged := ⟨[], hranged, by simp [Stream.rwinPos, Host.newConn, Rbuf.init, frontEnd]⟩
      fin := by simpa [Stream.rwinPos, Host.newConn, Rbuf.init] using hsize
      said := by simp [Host.newConn]
      ahead := by simp [Host.newConn]
      ordered := by simp [Host.newConn] }

theorem Promised.of_frame (hpromised : Promised c) (hframe : RecvFrame c c') : Promised c' := by
  obtain ⟨ranges, hranged, hfront⟩ := hpromised.ranged
  have hpos : c'.rwinPos = c.rwinPos := by
    rw [Stream.rwinPos, Stream.rwinPos, hframe.consumed_eq, hframe.rwinStart_eq, hframe.recvBuf_eq]
  have hend : c'.recvBuf.windowEnd c'.consumed = c.recvBuf.windowEnd c.consumed := by
    rw [hframe.recvBuf_eq, hframe.consumed_eq]
  rw [← hframe.recvBuf_eq, ← hframe.consumed_eq] at hranged
  rw [← hframe.consumed_eq, ← hpos] at hfront
  refine hpromised.forward hranged hfront ?_ hpos.ge hend.ge hframe.acks_eq
  rw [hpos, hend, hframe.rwinSize_eq]
  exact hpromised.fin

theorem Promised.storeData (hpromised : Promised c) (alloc : Alloc) {post : DataPost}
    (hsized : post.Sized) (hlen : post.len ≠ 0) : Promised (c.storeData alloc post).2 := by
  obtain ⟨ranges, hranged, hfront⟩ := hpromised.ranged
  have hdata : 0 < post.data.length ∧ post.data.length < 2 ^ 32 := by
    have hpos : post.len.toNat ≠ 0 := fun hzero => hlen (BitVec.eq_of_toNat_eq hzero)
    have hlt := post.len.isLt
    rw [DataPost.Sized] at hsized
    omega
  obtain ⟨ranges', hranged', hcount, hcovers⟩ :=
    hranged.rbufWrite_keeps alloc post.seq hdata.1 hdata.2
  have hmono := hranged'.frontEnd_mono (Nat.le_refl c.consumed) fun q _ => hcovers q
  have hstart : (c.recvBuf.rbufWrite alloc post.seq post.data).2.startPos = c.recvBuf.startPos :=
    hranged'.start.trans hranged.start.symm
  have hend : (c.recvBuf.rbufWrite alloc post.seq post.data).2.windowEnd c.consumed =
      c.recvBuf.windowEnd c.consumed := by
    rw [windowEnd, windowEnd, hcount]
  unfold Stream.storeData
  dsimp only
  split
  · refine Promised.of_frame ?_ (recvFrame_pushSackMap _ _ _)
    exact hpromised.updateRwin hranged' (hfront.trans hmono) hend.ge rfl
  · -- the window keeps its old start although the map may have grown
    refine hpromised.forward hranged' ?_ ?_ ?_ hend.ge rfl
    all_goals simp only [Stream.rwinPos, hstart]
    · exact hfront.trans hmono
    · rw [hend]
      exact hpromised.fin
    · exact Nat.le_refl _

theorem Promised.releaseRecv (hpromised : Promised c) {nodeAlloc : Bool} {size : U32}
    (hreleased : c.releaseRecv nodeAlloc size = some c') : Promised c' := by
  obtain ⟨ranges, hranged, hfront⟩ := hpromised.ranged
  obtain ⟨recvBuf, hrelease, rfl⟩ := Option.map_eq_some_iff.mp hreleased
  obtain ⟨hsize, -, hcount, -⟩ := hranged.spans.release hrelease
  have hranged' := hranged.release hrelease
  have hmono := hranged'.frontEnd_mono (Nat.le_add_right c.consumed size.toNat)
    fun q hq hold => (hranged.covers_dropFront hsize q).mpr ⟨hold, hq⟩
  refine hpromised.updateRwin hranged' (hfront.trans hmono) ?_ rfl
  change c.recvBuf.windowEnd c.consumed ≤ recvBuf.windowEnd (c.consumed + size.toNat)
  rw [windowEnd, windowEnd, hcount]
  exact Nat.mul_le_mul_right _ (Nat.add_le_add_right (Nat.div_le_div_right (by omega)) _)

theorem Promised.acknowledged (hpromised : Promised c) (acks : List (U32 × U32))
    (sackMap : Treemap U32 SackInfo) : Promised (c.acknowledged acks sackMap) := by
  have hring := hpromised.ring
  have hnarrow : c.rwinSize.toNat < 2 ^ 31 := by
    have hfin := hpromised.fin
    have hspan := hring.windowEnd_lt
    have hpos : c.consumed ≤ c.rwinPos := Nat.le_add_right _ _
    omega
  refine ⟨hpromised.ranged, hpromised.fin, List.forall_mem_append.mpr ⟨hpromised.said, ?_⟩,
    List.forall_mem_append.mpr ⟨hpromised.ahead, ?_⟩, ?_⟩
  · exact List.forall_mem_singleton.mpr ⟨wire_rwinPos hring, hnarrow⟩
  · exact List.forall_mem_singleton.mpr ⟨Nat.le_refl _, hpromised.fin.le⟩
  · refine List.pairwise_append.mpr ⟨hpromised.ordered, List.pairwise_singleton _ _, ?_⟩
    intro earlier hearlier later hlater
    obtain rfl := List.mem_singleton.mp hlater
    obtain ⟨hstart, hlast⟩ := hpromised.ahead earlier hearlier
    exact ⟨hstart, hlast.trans hpromised.fin.ge⟩

theorem Promised.step {alloc : Alloc} {ackSize : U32} (hstep : ReceiverStep alloc ackSize c c')
    (hpromised : Promised c) : Promised c' := by
  cases hstep with
  | same hsame => exact hpromised.of_frame hsame.toRecvFrame
  | store post hsized hlen => exact hpromised.storeData alloc hsized hlen
  | read size hsize hreleased => exact hpromised.releaseRecv hreleased
  | ack acks sackMap hacks => exact hpromised.acknowledged acks sackMap

/-! ### What the invariant promises -/

theorem Promised.accepts (hpromised : Promised c) {sent : SentAck} (hsent : sent ∈ c.acks) :
    c.Accepts sent := by
  intro alloc p data hlen _ hend hbase
  obtain ⟨ranges, hranged, -⟩ := hpromised.ranged
  exact hranged.rbufWrite_accepted alloc hlen hbase
    (hend.trans (hpromised.ahead sent hsent).2)

theorem Promised.serialAccepts (hpromised : Promised c) {sent : SentAck} (hsent : sent ∈ c.acks) :
    c.SerialAccepts sent := by
  intro alloc seq data hlen hinside hnear hle
  obtain ⟨hwire, hnarrow⟩ := hpromised.said sent hsent
  have hlast := (hpromised.ahead sent hsent).2
  have hspan := hpromised.ring.windowEnd_lt
  obtain ⟨p, hp⟩ : ∃ p, p = sent.pos + (seq - sent.ack.winStart).toNat := ⟨_, rfl⟩
  have hseq : wire p = seq := by
    rw [hp, wire_add, hwire, wire_of_toNat, BitVec.add_comm, BitVec.sub_add_cancel]
  have hend : p + data.length ≤ sent.windowEnd := by
    rw [SentAck.windowEnd]
    omega
  -- both numbers are within half the range of the window's start
  rw [hpromised.ring.start, ← hseq, lessEqual_wire (by omega) (by omega)] at hle
  rw [← hseq]
  exact hpromised.accepts hsent alloc p data hlen (by omega) hend hle

theorem SentAck.Before.serial {earlier later : SentAck} (hbefore : earlier.Before later)
    (hearlier : wire earlier.pos = earlier.ack.winStart)
    (hlater : wire later.pos = later.ack.winStart) : earlier.SerialBefore later := by
  have hend : ∀ sent : SentAck, wire sent.pos = sent.ack.winStart →
      sent.ack.windowEnd = wire sent.windowEnd := by
    intro sent hsent
    rw [DataAck.windowEnd, SentAck.windowEnd, wire_add, hsent, wire_of_toNat]
  obtain ⟨hstart, hlast⟩ := hbefore
  refine ⟨fun hnear => ?_, fun hnear => ?_⟩
  · rw [← hearlier, ← hlater, lessEqual_wire (by omega) hnear]
    exact hstart
  · rw [hend _ hearlier, hend _ hlater, lessEqual_wire (by omega) hnear]
    exact hlast

end Promised

/-! ### Whole runs -/

structure Stream.KeepsPromise (c : Stream) : Prop where
  start_eq : c.recvBuf.startPos = wire c.consumed
  wire_eq : ∀ sent ∈ c.acks, sent.ack.winStart = wire sent.pos
  forward : c.acks.Pairwise SentAck.Before
  serial : c.acks.Pairwise SentAck.SerialBefore
  accepts : ∀ sent ∈ c.acks, c.Accepts sent
  serialAccepts : ∀ sent ∈ c.acks, c.SerialAccepts sent

theorem Promised.keepsPromise {c : Stream} (hpromised : Promised c) : c.KeepsPromise where
  start_eq := hpromised.ring.start
  wire_eq := fun sent hsent => (hpromised.said sent hsent).1.symm
  forward := hpromised.ordered
  serial := hpromised.ordered.imp_of_mem fun hearlier hlater hbefore =>
    hbefore.serial (hpromised.said _ hearlier).1 (hpromised.said _ hlater).1
  accepts := fun _ hsent => hpromised.accepts hsent
  serialAccepts := fun _ hsent => hpromised.serialAccepts hsent

/-- After every sequence of events, with any datagrams and any failing allocations, every connection
keeps to the windows it has advertised, and every acknowledgement sent is one of them. -/
theorem rwin_promise {cfg : Config} (hsmall : cfg.blocksCount * rbufBlockSize < 2 ^ 31)
    (nodeId : U16) (now : Time) (events : List (Env × HostEvent)) (flow : U32) :
    (∀ c, ((Host.litedtInit cfg nodeId now).run events).Incarnation flow c → c.KeepsPromise) ∧
      ∀ flight ∈ ((Host.litedtInit cfg nodeId now).run events).out, ∀ ack,
        flight.packet = .dataAck flow ack →
        ∃ c, ((Host.litedtInit cfg nodeId now).run events).Incarnation flow c ∧
          ∃ sent ∈ c.acks, sent.pos = flight.pos ∧ sent.ack = ack := by
  have hrecorded : Recorded flow cfg Promised
      (((Host.litedtInit cfg nodeId now).run events).view flow) :=
    recorded_run nodeId now (promised_newConn hsmall)
      (fun _ _ _ _ hstep hpromised => hpromised.step hstep)
  refine ⟨fun c hc => ?_, fun flight hflight ack hack => ?_⟩
  · exact (hrecorded.incarnation c (Host.incarnation_iff_view.mp hc)).keepsPromise
  · obtain ⟨c, hc, hsent⟩ := hrecorded.sent flight hflight ack hack
    exact ⟨c, Host.incarnation_iff_view.mpr hc, hsent⟩

theorem rwin_promise_byteTwice :
    ∃ c, ((Host.litedtInit (.globalConfigInit Config.plainToken) 1 0).run
        (byteTwice (.noBlock 0))).Incarnation 7 c ∧
      c.acks.map SentAck.pos = [0, 1] ∧ c.KeepsPromise := by
  have hfound : (((Host.litedtInit (.globalConfigInit Config.plainToken) 1 0).run
      (byteTwice (.noBlock 0))).findConnection 7).map (fun conn => conn.acks.map SentAck.pos) =
        some [0, 1] := by
    decide +kernel
  obtain ⟨conn, hfind, hacks⟩ := Option.map_eq_some_iff.mp hfound
  exact ⟨conn.toStream, Or.inl ⟨conn, hfind, rfl⟩, hacks,
    (rwin_promise (by decide) 1 0 (byteTwice (.noBlock 0)) 7).1 _ (Or.inl ⟨conn, hfind, rfl⟩)⟩

end Liteflow

import Liteflow.Proof.Rbuffer
import Liteflow.Proof.Receiver
import Liteflow.Udp

/-!
# The front of `recv_buf`

What the application sees of a flow is the run of bytes at the start of the receive window.
`litedt_peek` shows a part of it, `litedt_recv` and `litedt_recv_skip` take a part off.
-/

namespace Liteflow

open Rbuf Intervals

/-- There is a block for every byte that `recv_buf` takes for received. -/
def Stream.Intact (c : Stream) : Prop :=
  ∃ ranges, Holds c.recvBuf c.consumed ranges

structure ReadsAs (c : Stream) (bytes : List Byte) : Prop where
  holds : ∃ ranges, Holds c.recvBuf c.consumed ranges ∧
    frontEnd c.consumed ranges = c.consumed + bytes.length
  cell_eq : ∀ i < bytes.length, c.recvBuf.cell c.consumed (c.consumed + i) = bytes[i]?

section Front

variable {c c' : Stream} {bytes : List Byte} {n : Nat}

theorem ReadsAs.readable_toNat (hreads : ReadsAs c bytes) :
    c.recvBuf.rbufReadableBytes.toNat = bytes.length := by
  obtain ⟨ranges, hholds, hfront⟩ := hreads.holds
  rw [hholds.rbufReadableBytes_toNat, hfront, Nat.add_sub_cancel_left]

theorem ReadsAs.length_lt (hreads : ReadsAs c bytes) : bytes.length < 2 ^ 31 := by
  obtain ⟨ranges, hholds, hfront⟩ := hreads.holds
  have hle := hholds.frontEnd_le
  have hspan := hholds.windowEnd_lt
  omega

theorem ReadsAs.toNat_ofNat (hreads : ReadsAs c bytes) (hn : n ≤ bytes.length) :
    (BitVec.ofNat 32 n).toNat = n := by
  have hlength := hreads.length_lt
  rw [BitVec.toNat_ofNat, Nat.mod_eq_of_lt (by omega)]

theorem ReadsAs.rbufRead (hreads : ReadsAs c bytes) (hn : n ≤ bytes.length) :
    c.recvBuf.rbufRead c.recvBuf.startPos n = some (bytes.take n) := by
  obtain ⟨ranges, hholds, hfront⟩ := hreads.holds
  have hcovers : ∀ q, c.consumed ≤ q → q < c.consumed + n → Covers ranges q := fun q hq hlt =>
    frontEnd_covers hq (by omega)
  obtain ⟨data, hread, hlength, hget⟩ := hholds.rbufRead_eq hcovers
  rw [hholds.start, hread, Option.some.injEq]
  refine List.ext_getElem? fun i => ?_
  rw [List.getElem?_take]
  split
  · rename_i hi
    rw [hget i hi, hreads.cell_eq i (by omega)]
  · rename_i hi
    exact List.getElem?_eq_none (by omega)

theorem ReadsAs.rbufReadFront (hreads : ReadsAs c bytes) (n : Nat) :
    c.recvBuf.rbufReadFront n = some (bytes.take n) := by
  rw [Rbuf.rbufReadFront, hreads.readable_toNat, hreads.rbufRead (min_le_right _ _),
    List.take_eq_take_min]
  simp

theorem ReadsAs.releaseRecv (hreads : ReadsAs c bytes) (hn : n ≤ bytes.length) :
    ∃ c', c.releaseRecv true (BitVec.ofNat 32 n) = some c' ∧ ReadsAs c' (bytes.drop n) := by
  obtain ⟨ranges, hholds, hfront⟩ := hreads.holds
  have hlength := hreads.length_lt
  have hin : c.consumed + n ≤ frontEnd c.consumed ranges := by omega
  obtain ⟨rb, hrelease, hholds', -, -, hcell⟩ := hholds.rbufRelease_eq hin
  have hcovers := hholds.covers_dropFront hin
  have hsize := hreads.toNat_ofNat hn
  -- the contiguous data ends where it ended
  have hfront' : frontEnd (c.consumed + n) (dropFront c.consumed n ranges) =
      c.consumed + bytes.length := by
    have hbase := hholds'.base_le_frontEnd
    have hmax := hholds'.not_covers_frontEnd
    have hmax' := hholds.not_covers_frontEnd
    rw [hcovers] at hmax
    rcases Nat.lt_trichotomy (frontEnd (c.consumed + n) (dropFront c.consumed n ranges))
      (c.consumed + bytes.length) with hlt | heq | hgt
    · have hheld : Covers ranges (frontEnd (c.consumed + n) (dropFront c.consumed n ranges)) :=
        frontEnd_covers ((Nat.le_add_right _ _).trans hbase) (by omega)
      exact absurd ⟨hheld, hbase⟩ hmax
    · exact heq
    · rw [hfront] at hmax'
      exact absurd ((hcovers _).mp (frontEnd_covers (by omega) hgt)).1 hmax'
  have heq : c.releaseRecv true (BitVec.ofNat 32 n) =
      some (Stream.updateRwin { c with recvBuf := rb, consumed := c.consumed + n }) := by
    rw [Stream.releaseRecv, show BitVec.ofNat 32 n = wire n from rfl, hrelease, Option.map_some,
      show (wire n).toNat = n from hsize]
  refine ⟨_, heq, ⟨dropFront c.consumed n ranges, hholds', ?_⟩, fun i hi => ?_⟩
  · rw [List.length_drop]
    exact hfront'.trans (by change _ = c.consumed + n + (bytes.length - n); omega)
  · rw [List.length_drop] at hi
    have hheld : Covers (dropFront c.consumed n ranges) (c.consumed + n + i) :=
      frontEnd_covers (Nat.le_add_right _ _) (by omega)
    rw [List.getElem?_drop, ← hreads.cell_eq (n + i) (by omega), ← Nat.add_assoc]
    exact hcell _ hheld

theorem Stream.Intact.readsAs (hintact : c.Intact) :
    ReadsAs c (c.front c.recvBuf.rbufReadableBytes.toNat) := by
  obtain ⟨ranges, hholds⟩ := hintact
  have hbase := hholds.base_le_frontEnd
  have hcovers : ∀ q, c.consumed ≤ q →
      q < c.consumed + (frontEnd c.consumed ranges - c.consumed) → Covers ranges q :=
    fun q hq hlt => frontEnd_covers hq (by omega)
  obtain ⟨data, hread, hlength, hget⟩ := hholds.rbufRead_eq hcovers
  have hdata : c.front c.recvBuf.rbufReadableBytes.toNat = data := by
    rw [Stream.front, hholds.start, hholds.rbufReadableBytes_toNat, hread, Option.getD_some]
  rw [hdata]
  refine ⟨⟨ranges, hholds, by omega⟩, fun i hi => ?_⟩
  rw [hget i (by omega)]

theorem ReadsAs.front_eq (hreads : ReadsAs c bytes) :
    c.front c.recvBuf.rbufReadableBytes.toNat = bytes := by
  rw [Stream.front, hreads.readable_toNat, hreads.rbufRead le_rfl, Option.getD_some,
    List.take_length]

end Front

/-! ### Every run keeps the buffers intact -/

namespace Stream

variable {c c' : Stream} {alloc : Alloc}

theorem intact_newConn {cfg : Config} (hsize : cfg.bufferSize.toNat < 2 ^ 31) (now : Time)
    (tunnelId : U16) (state : ConnState) : (Host.newConn cfg now tunnelId state).toStream.Intact :=
  ⟨[], Rbuf.holds_init (lt_of_le_of_lt (Nat.div_mul_le_self _ _) hsize)⟩

theorem Intact.of_frame (hintact : c.Intact) (hframe : RecvFrame c c') : c'.Intact := by
  obtain ⟨ranges, hholds⟩ := hintact
  rw [← hframe.recvBuf_eq, ← hframe.consumed_eq] at hholds
  exact ⟨ranges, hholds⟩

theorem Intact.storeData (hintact : c.Intact) (halloc : alloc.Succeeds) {post : DataPost}
    (hsized : post.Sized) (hlen : post.len ≠ 0) : (c.storeData alloc post).2.Intact := by
  obtain ⟨ranges, hholds⟩ := hintact
  have hlen' : post.len.toNat ≠ 0 := fun hzero => hlen (BitVec.eq_of_toNat_eq hzero)
  have hlt := post.len.isLt
  rw [DataPost.Sized] at hsized
  have hwritten := hholds.rbufWrite_keeps halloc post.seq (show 0 < post.data.length by omega)
    (by omega)
  unfold Stream.storeData
  dsimp only
  split
  · refine Intact.of_frame ?_ (recvFrame_pushSackMap _ _ _)
    exact hwritten
  · exact hwritten

theorem Intact.releaseRecv (hintact : c.Intact) {size : U32}
    (hreleased : c.releaseRecv alloc.node size = some c') : c'.Intact := by
  obtain ⟨ranges, hholds⟩ := hintact
  obtain ⟨recvBuf, hrelease, rfl⟩ := Option.map_eq_some_iff.mp hreleased
  exact ⟨_, hholds.release hrelease⟩

theorem Intact.step (halloc : alloc.Succeeds) {ackSize : U32}
    (hstep : ReceiverStep alloc ackSize c c') (hintact : c.Intact) : c'.Intact := by
  cases hstep with
  | same hsame => exact hintact.of_frame hsame.toRecvFrame
  | store post hsized hlen => exact hintact.storeData halloc hsized hlen
  | read size hsize hreleased => exact hintact.releaseRecv hreleased
  | ack acks sackMap hacks => exact hintact

end Stream

theorem Host.intact_run {cfg : Config} (hsize : cfg.bufferSize.toNat < 2 ^ 31) (nodeId : U16)
    (now : Time) {events : List (Env × HostEvent)} (halloc : ∀ e ∈ events, e.1.alloc.Succeeds)
    {flow : U32} {conn : Conn}
    (hfind : ((litedtInit cfg nodeId now).run events).findConnection flow = some conn) :
    conn.toStream.Intact :=
  (recorded_run nodeId now (fun now tunnelId state => Stream.intact_newConn hsize now tunnelId state)
    fun e he _ _ hstep hintact => hintact.step (halloc e he) hstep).incarnation conn.toStream
    (.inl (view_stream_of_find hfind))

/-! ### The calls of the application -/

namespace Host

variable {h : Host} {flow : U32} {bytes : List Byte} {env : Env} {n : Nat}

def Reads (h : Host) (flow : U32) (bytes : List Byte) : Prop :=
  ∃ conn, h.findConnection flow = some conn ∧ ReadsAs conn.toStream bytes

theorem Reads.peek (hreads : h.Reads flow bytes) (hn : n < 2 ^ 32) :
    h.litedtPeek flow (BitVec.ofNat 32 n) = some (bytes.take n) := by
  obtain ⟨conn, hfind, hshows⟩ := hreads
  rw [litedtPeek, hfind, Option.bind_some, hshows.rbufReadFront, BitVec.toNat_ofNat,
    Nat.mod_eq_of_lt hn]

theorem Reads.length_lt (hreads : h.Reads flow bytes) : bytes.length < 2 ^ 31 := by
  obtain ⟨conn, -, hshows⟩ := hreads
  exact hshows.length_lt

theorem Reads.release {conn : Conn} (hfind : h.findConnection flow = some conn)
    (hshows : ReadsAs conn.toStream bytes) (hn : n ≤ bytes.length) (hnode : env.alloc.node = true) :
    (h.releaseFront env flow conn (BitVec.ofNat 32 n)).Reads flow (bytes.drop n) := by
  obtain ⟨c', hreleased, hshows'⟩ := hshows.releaseRecv hn
  have hview : ((h.releaseFront env flow conn (BitVec.ofNat 32 n)).view flow).stream = some c' := by
    rw [releaseFront, hnode, hreleased]
    dsimp only
    rw [view_litedtModEvtime, view_record, view_modifyConn_self hfind]
    rfl
  obtain ⟨conn', hfind', rfl⟩ := (view_stream_eq_some _ _).mp hview
  exact ⟨conn', hfind', hshows'⟩

theorem Reads.skip (hreads : h.Reads flow bytes) (hpos : 0 < n) (hn : n ≤ bytes.length)
    (hnode : env.alloc.node = true) :
    (h.litedtRecvSkip env flow (BitVec.ofNat 32 n)).Reads flow (bytes.drop n) := by
  obtain ⟨conn, hfind, hshows⟩ := hreads
  have hne : BitVec.ofNat 32 n ≠ 0 := by
    intro hzero
    have := (hshows.toNat_ofNat hn).symm.trans (congrArg BitVec.toNat hzero)
    exact hpos.ne' this
  rw [litedtRecvSkip, hfind]
  dsimp only
  rw [if_neg hne]
  exact Reads.release hfind hshows hn hnode

theorem Reads.recv (hreads : h.Reads flow bytes) (hn : n ≤ bytes.length)
    (hnode : env.alloc.node = true) :
    (h.litedtRecv env flow (BitVec.ofNat 32 n)).2.Reads flow (bytes.drop n) := by
  obtain ⟨conn, hfind, hshows⟩ := hreads
  have hlen : umin (BitVec.ofNat 32 n) conn.recvBuf.rbufReadableBytes = BitVec.ofNat 32 n := by
    rw [umin]
    split
    · rfl
    · rename_i hge
      apply BitVec.eq_of_toNat_eq
      rw [BitVec.lt_def, hshows.toNat_ofNat hn, hshows.readable_toNat] at hge
      rw [hshows.toNat_ofNat hn, hshows.readable_toNat]
      omega
  rw [litedtRecv, hfind]
  dsimp only
  rw [hlen]
  split
  · rename_i hzero
    obtain rfl : n = 0 := (hshows.toNat_ofNat hn).symm.trans (congrArg BitVec.toNat hzero)
    exact ⟨conn, hfind, hshows⟩
  · exact Reads.release hfind hshows hn hnode

theorem reads_unread {conn : Conn} (hfind : h.findConnection flow = some conn)
    (hintact : conn.Intact) : h.Reads flow (h.unread flow) := by
  rw [unread, hfind]
  exact ⟨conn, hfind, hintact.readsAs⟩

theorem Reads.readable (hreads : h.Reads flow bytes) :
    h.litedtReadableBytes flow = bytes.length := by
  obtain ⟨conn, hfind, hshows⟩ := hreads
  have hlength := hshows.length_lt
  have hreadable := hshows.readable_toNat
  rw [litedtReadableBytes, hfind]
  dsimp only
  rw [BitVec.toInt_eq_toNat_of_lt (by omega), hreadable]

theorem Reads.unread_eq (hreads : h.Reads flow bytes) : h.unread flow = bytes := by
  obtain ⟨conn, hfind, hshows⟩ := hreads
  rw [unread, hfind]
  exact hshows.front_eq

end Host

end Liteflow

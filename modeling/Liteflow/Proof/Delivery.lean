import Liteflow.Proof.Lifecycle
import Liteflow.Proof.Release
import Liteflow.Proof.SackMap
import Liteflow.Proof.Written

/-!
# In-order delivery

Two hosts, and a network that loses, repeats, delays and reorders their datagrams. A data packet of a
flow carries bytes that the application has written, and says where in the stream they stand. So the
receive buffer at the other end holds nothing else, and what is read there is the stream from its
first byte on, without a gap, a repetition or a byte out of place.

The two ends are looked at separately. What a host sends is right whatever it receives, and what a
host reads is right if all it receives is. In the other direction the sender only gives up what an
acknowledgement has covered, and no acknowledgement covers what has not been stored.
-/

namespace Liteflow

open Rbuf Intervals

/-! ### Packets of a stream -/

/-- The data of the packet stands in the stream at the position that the packet gives. -/
def DataPost.PartOf (bytes : List Byte) (post : DataPost) : Prop :=
  ∃ p ≤ bytes.length, post.seq = wire p ∧ post.data <+: bytes.drop p

def Packet.post? (flow : U32) : Packet → Option DataPost
  | dataPost g post | connectData g _ post => if g = flow then some post else none
  | _ => none

/-- The data packets of the flow among the datagrams sent. -/
def posts (flow : U32) (out : List Flight) : List DataPost :=
  out.filterMap (fun flight => flight.packet.post? flow)

theorem eq_take_drop {data bytes : List Byte} {p n : Nat} (hlength : data.length = n)
    (hget : ∀ i < n, data[i]? = bytes[p + i]?) : data = (bytes.drop p).take n := by
  refine List.ext_getElem? fun i => ?_
  rw [List.getElem?_take, List.getElem?_drop]
  split
  · rename_i hi
    exact hget i hi
  · exact List.getElem?_eq_none (by omega)

theorem DataPost.PartOf.mono {bytes bytes' : List Byte} {post : DataPost}
    (hpart : post.PartOf bytes) (hle : bytes <+: bytes') : post.PartOf bytes' := by
  obtain ⟨p, hp, hseq, hdata⟩ := hpart
  obtain ⟨more, rfl⟩ := hle
  refine ⟨p, by simp; omega, hseq, hdata.trans ?_⟩
  rw [List.drop_append_of_le_length hp]
  exact List.prefix_append _ _

theorem posts_concat {flow : U32} {out : List Flight} {flight : Flight}
    (hother : flight.packet.post? flow = none) : posts flow (out ++ [flight]) = posts flow out := by
  simp [posts, hother]

theorem posts_concat_dataFlight (c : Stream) (flow : U32) (out : List Flight) (post : DataPost) :
    posts flow (out ++ [c.dataFlight flow post]) = posts flow out ++ [post] := by
  by_cases hstate : c.state = .request <;>
    simp [posts, Stream.dataFlight, Packet.post?, hstate]

/-! ### The sending end -/

section Sending

variable {flow : U32} {env : Env} {event : HostEvent} {start v v' : FlowState} {c : Stream}
  {bytes : List Byte}

theorem Held.partOf_dataPost (hheld : Held c bytes) {p : Nat} {len : U32} (hp : c.acked ≤ p)
    (hend : p + len.toNat ≤ bytes.length) (fecSeq : U32) (fecIndex : U8) :
    (c.dataPost (wire p) len fecSeq fecIndex).PartOf bytes := by
  obtain ⟨data, hread, hlength, hget⟩ := hheld.filled.rbufRead_eq hp hend
  have hdata : data = (bytes.drop p).take len.toNat :=
    eq_take_drop hlength fun i hi => by rw [hget i hi, hheld.cell_eq (p + i) (by omega) (by omega)]
  refine ⟨p, by omega, rfl, ?_⟩
  unfold Stream.dataPost
  dsimp only
  split
  · exact List.nil_prefix
  · rw [hread, Option.getD_some, hdata]
    exact List.take_prefix _ _

theorem HoldsWritten.sending (hholds : HoldsWritten flow v) (hbook : Bookkeeping flow v)
    (hstream : v.stream = some c) :
    ∃ snd packets, Sending c v.ready snd (writtenTo flow v.log).length packets := by
  obtain ⟨snd, fin, packets, hsending⟩ := hbook.sending hstream
  obtain rfl := (hholds c hstream).fin_eq hsending.filled
  exact ⟨snd, packets, hsending⟩

theorem out_requeue (v : FlowState) (key : U32) (packet : PacketEntry) (time : Time) :
    (v.requeue flow key packet time).out = v.out := by
  unfold FlowState.requeue
  split <;> rfl

theorem out_popUnready (v : FlowState) (key : U32) : (v.popUnready flow key).out = v.out := by
  unfold FlowState.popUnready
  split
  · rfl
  · split <;> rfl

theorem posts_postFull (v : FlowState) (c : Stream) :
    posts flow (v.postFull flow c).out = posts flow v.out := by
  unfold FlowState.postFull
  split
  · exact posts_concat rfl
  · rfl

/-- What a move sends for the flow was sent before, or is a part of what has been written to its
connection. -/
def SendsParts (flow : U32) (v v' : FlowState) : Prop :=
  ∀ post ∈ posts flow v'.out,
    post ∈ posts flow v.out ∨ v.stream ≠ none ∧ post.PartOf (writtenTo flow v.log)

theorem SendsParts.of_posts (hposts : posts flow v'.out = posts flow v.out) :
    SendsParts flow v v' :=
  fun _ hpost => .inl (hposts ▸ hpost)

theorem SendsParts.of_post {post : DataPost} (hstream : v.stream = some c)
    (hposts : posts flow v'.out = posts flow v.out ++ [post])
    (hpart : post.PartOf (writtenTo flow v.log)) : SendsParts flow v v' := by
  intro sent hsent
  rw [hposts, List.mem_append, List.mem_singleton] at hsent
  rcases hsent with hsent | rfl
  · exact .inl hsent
  · exact .inr ⟨by simp [hstream], hpart⟩

theorem SenderMove.sendsParts (hmove : SenderMove flow env v v') (hbook : Bookkeeping flow v)
    (hholds : HoldsWritten flow v) : SendsParts flow v v' := by
  cases hmove with
  | write data hstream hstate hfits hdata => exact .of_posts rfl
  | @post c packet hstream hfirst =>
      obtain ⟨snd, packets, hsending⟩ := hholds.sending hbook hstream
      have hfin := hsending.fin_lt
      have hsnd := hsending.snd_le
      have hacked := hsending.acked_le
      have hlen := hfirst.length_le
      rw [hsending.writeSeq_eq, hsending.sendSeq_eq, toNat_wire_sub hsnd (by omega)] at hlen
      have hpart : (c.postOf packet).PartOf (writtenTo flow v.log) := by
        rw [Stream.postOf, hfirst.seq_eq, hsending.sendSeq_eq]
        exact (hholds c hstream).partOf_dataPost hacked (by omega) _ _
      exact .of_post hstream ((posts_postFull _ _).trans (posts_concat_dataFlight c flow _ _)) hpart
  | @keepalive c hstream =>
      obtain ⟨snd, packets, hsending⟩ := hholds.sending hbook hstream
      refine .of_post hstream (posts_concat_dataFlight c flow _ _) ?_
      rw [hsending.sendSeq_eq]
      exact (hholds c hstream).partOf_dataPost hsending.acked_le (by simpa using hsending.snd_le) _ _
  | fecPost hstream hindex => exact .of_posts (posts_concat rfl)
  | ready time hstream hready => exact .of_posts rfl
  | @retransmit c packet key time entry hstream hready hpacket hwindow hfits hentry =>
      obtain ⟨snd, packets, hsending⟩ := hholds.sending hbook hstream
      obtain ⟨p, packet', -, he, -, hvalue⟩ := hsending.isReady_of_ready hready
      obtain rfl := Option.some.inj (hpacket.symm.trans hvalue)
      have hpart : (c.postOf packet).PartOf (writtenTo flow v.log) := by
        rw [Stream.postOf, hsending.seq_eq _ he]
        exact (hholds c hstream).partOf_dataPost (hsending.keyed.inside _ he).1
          ((hsending.end_le _ he).trans hsending.snd_le) _ _
      refine .of_post hstream ?_ hpart
      rw [out_popUnready, out_requeue]
      unfold FlowState.repost
      split <;> exact posts_concat_dataFlight c flow _ _
  | giveUp key time hstream hready hpacket =>
      exact .of_posts (by rw [out_popUnready, out_requeue])
  | hold key hstream hready hpacket => exact .of_posts (by rw [out_popUnready])
  | lost key hready hpacket => exact .of_posts rfl

theorem Move.sendsParts (hmove : Move flow env event start v v') (hbook : Bookkeeping flow v)
    (hholds : HoldsWritten flow v) : SendsParts flow v v' := by
  cases hmove with
  | sender hmove => exact hmove.sendsParts hbook hholds
  | ack hmove => exact .of_posts (by cases hmove <;> rfl)
  | receiver hmove =>
      refine .of_posts ?_
      cases hmove with
      | ack acks sackMap hstream hacks => exact posts_concat rfl
      | _ => rfl
  | control hmove => exact .of_posts (by cases hmove <;> first | rfl | exact posts_concat rfl)
  | session hmove => exact .of_posts (by cases hmove <;> first | rfl | exact posts_concat rfl)
  | foreignSend flight hflow hping =>
      refine .of_posts (posts_concat ?_)
      cases hpacket : flight.packet <;> simp_all [Packet.post?, Packet.flow?, Packet.flow]
  | foreignNote note hflow hping => exact .of_posts rfl

/-- Nothing is sent for the flow before it has a connection, and as long as there has been one only,
all that is sent are parts of its stream. -/
structure SentParts (flow : U32) (v : FlowState) : Prop where
  book : Bookkeeping flow v
  holds : HoldsWritten flow v
  none : v.log.countP (Event.isCreated flow) = 0 → v.stream = none ∧ posts flow v.out = []
  parts : v.log.countP (Event.isCreated flow) ≤ 1 →
    ∀ post ∈ posts flow v.out, post.PartOf (writtenTo flow v.log)

theorem prefix_foldl_addWritten {es : List Event} (hes : ∀ e ∈ es, e.isCreated flow = false)
    (bytes : List Byte) : bytes <+: es.foldl (addWritten flow) bytes := by
  induction es generalizing bytes with
  | nil => exact List.prefix_rfl
  | cons e rest ih =>
      refine List.IsPrefix.trans ?_ (ih (fun e' he' => hes e' (by simp [he'])) _)
      have he := hes e (by simp)
      cases e with
      | wrote g data =>
          rw [addWritten]
          split
          · exact List.prefix_append _ _
          · exact List.prefix_rfl
      | created g => simp_all [Event.isCreated, addWritten]
      | _ => exact List.prefix_rfl

/-- A move that creates no connection. -/
theorem SentParts.goes (hsent : SentParts flow v) (hparts : SendsParts flow v v') {es : List Event}
    (hlog : v'.log = v.log ++ es) (hes : ∀ e ∈ es, e.isCreated flow = false)
    (hstream : v.stream = .none → v'.stream = .none) (hbook : Bookkeeping flow v')
    (hholds : HoldsWritten flow v') : SentParts flow v' := by
  have hcount : v'.log.countP (Event.isCreated flow) = v.log.countP (Event.isCreated flow) := by
    have hzero : es.countP (Event.isCreated flow) = 0 :=
      List.countP_eq_zero.mpr fun e he => by simp [hes e he]
    rw [hlog, List.countP_append, hzero, Nat.add_zero]
  have hwritten : writtenTo flow v.log <+: writtenTo flow v'.log := by
    rw [hlog, writtenTo_append]
    exact prefix_foldl_addWritten hes _
  refine ⟨hbook, hholds, fun hzero => ?_, fun hone post hpost => ?_⟩
  · obtain ⟨hnone, hposts⟩ := hsent.none (hcount ▸ hzero)
    refine ⟨hstream hnone, List.eq_nil_iff_forall_not_mem.mpr fun post hpost => ?_⟩
    rcases hparts post hpost with hold | ⟨hsome, -⟩
    · simp [hposts] at hold
    · exact hsome hnone
  · rcases hparts post hpost with hold | ⟨-, hpart⟩
    · exact (hsent.parts (hcount ▸ hone) post hold).mono hwritten
    · exact hpart.mono hwritten

theorem SentParts.move (halloc : env.alloc.Succeeds) (hmove : Move flow env event start v v')
    (hsent : SentParts flow v) : SentParts flow v' := by
  have hbook := bookkeeping_move halloc hmove hsent.book
  have hholds := holdsWritten_move halloc hmove hsent.book hsent.holds
  have hparts := hmove.sendsParts hsent.book hsent.holds
  cases hmove.life with
  | goes hstream hgrows =>
      obtain ⟨-, es, hlog, hes⟩ := hgrows
      refine hsent.goes hparts hlog (fun e he => (hes e he).1) (fun hnone => ?_) hbook hholds
      rw [hnone] at hstream
      generalize v'.stream = stream at hstream ⊢
      cases hstream
      rfl
  | announces hstream hstream' hforward hfin hlog hout =>
      exact hsent.goes hparts (hlog.trans (List.append_nil _).symm) (by simp) (by simp [hstream])
        hbook hholds
  | ends hstream hstream' hlog hout =>
      exact hsent.goes hparts hlog (by simp [Event.isCreated]) (fun _ => hstream') hbook hholds
  | begins hstream hstream' hlog hout =>
      have hcount : v'.log.countP (Event.isCreated flow) =
          v.log.countP (Event.isCreated flow) + 1 := by
        simp [hlog, List.countP_append, Event.isCreated]
      refine ⟨hbook, hholds, fun hzero => by omega, fun hone post hpost => ?_⟩
      rw [hout, (hsent.none (by omega)).2] at hpost
      cases hpost

end Sending

/-! ### The receiving end -/

/-- What an event adds to what is read from the flow. A new connection begins a new stream. -/
def addRead (flow : U32) (bytes : List Byte) : Event → List Byte
  | .created g => if g = flow then [] else bytes
  | .read g data => if g = flow then bytes ++ data else bytes
  | _ => bytes

/-- What the application has read from the last connection of the flow. -/
def readFrom (flow : U32) (log : List Event) : List Byte :=
  log.foldl (addRead flow) []

theorem readFrom_append {flow : U32} {log es : List Event}
    (hes : ∀ e ∈ es, ∀ bytes, addRead flow bytes e = bytes) :
    readFrom flow (log ++ es) = readFrom flow log := by
  induction es generalizing log with
  | nil => rw [List.append_nil]
  | cons e rest ih =>
      rw [List.append_cons, ih fun e' he' => hes e' (by simp [he']), readFrom, List.foldl_append]
      exact hes e (by simp) _

/-- `recv_buf` holds bytes of the stream, each in its place. -/
structure Stores (bytes : List Byte) (c : Stream) : Prop where
  consumed_le : c.consumed ≤ bytes.length
  holds : ∃ ranges, Holds c.recvBuf c.consumed ranges ∧
    ∀ q, Covers ranges q → c.recvBuf.cell c.consumed q = bytes[q]?

section Receiving

variable {flow : U32} {env : Env} {event : HostEvent} {start v v' : FlowState} {c c' : Stream}
  {bytes : List Byte}

/-- A packet of the stream either falls out of the window or goes where it belongs: positions below
`2 ^ 31` are not confused with others that have the same 32 bits. -/
theorem Stores.storeData (hstores : Stores bytes c) (hshort : bytes.length < 2 ^ 31) {alloc : Alloc}
    (halloc : alloc.Succeeds) {post : DataPost} (hpart : post.PartOf bytes)
    (hpos : 0 < post.data.length) : Stores bytes (c.storeData alloc post).2 := by
  obtain ⟨p, hp, hseq, hdata⟩ := hpart
  obtain ⟨ranges, hholds, hcell⟩ := hstores.holds
  obtain ⟨hbuf, hconsumed⟩ := recvBuf_storeData alloc c post
  have hle := hstores.consumed_le
  have hlength := hdata.length_le
  have hspan := hholds.windowEnd_lt
  rw [List.length_drop] at hlength
  refine ⟨hconsumed.trans_le hle, ?_⟩
  rw [hbuf, hconsumed]
  rcases Nat.lt_or_ge (c.recvBuf.windowEnd c.consumed)
    (c.consumed + (post.seq - c.recvBuf.startPos).toNat + post.data.length) with hout | hend
  · rw [hholds.rbufWrite_refused alloc hout (by omega)]
    exact ⟨ranges, hholds, hcell⟩
  · have heq : p = c.consumed + (post.seq - c.recvBuf.startPos).toNat :=
      wire_inj (by omega) (by omega) (hseq.symm.trans (hholds.wire_offset post.seq))
    rw [← heq] at hend
    rw [hseq]
    rcases hholds.rbufWrite_inside halloc hpos (by omega) hend with
      ⟨hdup, -⟩ | ⟨rb, ranges', hwrite, hholds', -, hcount, hcovers, hcopied⟩
    · rw [hdup]
      exact ⟨ranges, hholds, hcell⟩
    · rw [hwrite]
      refine ⟨ranges', hholds', fun q hq => ?_⟩
      have hbounds := hholds'.toRanged.covers_bounds hq
      rw [Rbuf.windowEnd, hcount] at hbounds
      obtain ⟨hnew, hold⟩ := hcopied q hbounds.1 hbounds.2
      by_cases hin : p ≤ q ∧ q < p + post.data.length
      · have hbyte := List.prefix_iff_getElem?.mp hdata (q - p) (by omega)
        rw [hnew hin.1 hin.2, List.getElem?_eq_getElem (by omega), ← hbyte, List.getElem?_drop,
          Nat.add_sub_cancel' hin.1]
      · have hcovered := ((hcovers q).mp hq).resolve_right hin
        obtain ⟨byte, hbyte⟩ := Option.isSome_iff_exists.mp (hholds.allocated q hcovered)
        rw [hold (by omega) byte hbyte, ← hbyte, hcell q hcovered]

theorem Stores.read (hstores : Stores bytes c) {nodeAlloc : Bool} {size : U32}
    (hreleased : c.releaseRecv nodeAlloc size = some c') :
    Stores bytes c' ∧
      bytes.take c.consumed ++ c.front size.toNat = bytes.take c'.consumed := by
  obtain ⟨ranges, hholds, hcell⟩ := hstores.holds
  obtain ⟨recvBuf, hrelease, rfl⟩ := Option.map_eq_some_iff.mp hreleased
  obtain ⟨hsize, -, -, hkept⟩ := hholds.spans.release hrelease
  have hcovers : ∀ q, c.consumed ≤ q → q < c.consumed + size.toNat → Covers ranges q :=
    fun q hq hlt => frontEnd_covers hq (by omega)
  have hfits : c.consumed + size.toNat ≤ bytes.length := by
    by_contra hlong
    have hpast := hcovers bytes.length hstores.consumed_le (by omega)
    have hsome := hholds.allocated _ hpast
    simp [hcell _ hpast] at hsome
  refine ⟨⟨hfits, _, hholds.release hrelease, fun q hq => ?_⟩, ?_⟩
  · rw [← hcell q ((hholds.covers_dropFront hsize q).mp hq).1]
    exact hkept q hq
  · obtain ⟨data, hread, hlength, hget⟩ := hholds.rbufRead_eq hcovers
    have hfront : c.front size.toNat = (bytes.drop c.consumed).take size.toNat := by
      rw [Stream.front, hholds.start, hread, Option.getD_some]
      exact eq_take_drop hlength fun i hi => by
        rw [hget i hi, hcell _ (hcovers _ (by omega) (by omega))]
    rw [hfront]
    exact List.take_add.symm

/-- What has been read from the flow is a beginning of the stream, and `recv_buf` goes on from there. -/
structure ReadsParts (flow : U32) (bytes : List Byte) (v : FlowState) : Prop where
  buffer_lt : v.cfg.bufferSize.toNat < 2 ^ 31
  decode : v.cfg.fecDecode = 0
  log : readFrom flow v.log <+: bytes
  stream : ∀ c, v.stream = some c → Stores bytes c ∧ readFrom flow v.log = bytes.take c.consumed

/-- A move that leaves `recv_buf` alone and reads nothing. -/
theorem ReadsParts.of_kept (hreads : ReadsParts flow bytes v) (hcfg : v'.cfg = v.cfg)
    (hlog : readFrom flow v'.log = readFrom flow v.log)
    (hstream : ∀ c', v'.stream = some c' →
      ∃ c, v.stream = some c ∧ c'.recvBuf = c.recvBuf ∧ c'.consumed = c.consumed) :
    ReadsParts flow bytes v' := by
  refine ⟨hcfg ▸ hreads.buffer_lt, hcfg ▸ hreads.decode, hlog ▸ hreads.log, fun c' hc' => ?_⟩
  obtain ⟨c, hc, hbuf, hconsumed⟩ := hstream c' hc'
  obtain ⟨⟨hle, hholds⟩, hread⟩ := hreads.stream c hc
  rw [← hconsumed] at hle hread
  rw [← hbuf, ← hconsumed] at hholds
  exact ⟨⟨hle, hholds⟩, hlog.trans hread⟩

theorem ReadsParts.of_eq (hreads : ReadsParts flow bytes v) (hcfg : v'.cfg = v.cfg)
    (hlog : readFrom flow v'.log = readFrom flow v.log) (hstream : v'.stream = v.stream) :
    ReadsParts flow bytes v' :=
  hreads.of_kept hcfg hlog fun c' hc' => ⟨c', hstream.symm.trans hc', rfl, rfl⟩

theorem ReadsParts.of_senderFrame (hreads : ReadsParts flow bytes v)
    (hframe : SenderFrame flow event v v') : ReadsParts flow bytes v' := by
  obtain ⟨-, es, hlog, hes⟩ := hframe.toGrows
  refine hreads.of_kept hframe.cfg_eq ?_ fun c' hc' => ?_
  · rw [hlog]
    refine readFrom_append fun e he bytes => ?_
    have hsender := hes e he
    cases e <;> first | rfl | cases hsender
  · have hrel := hframe.stream
    rw [hc'] at hrel
    obtain ⟨c, hc, hsame⟩ := exists_of_rel_some hrel
    exact ⟨c, hc, hsame.recv.recvBuf_eq, hsame.recv.consumed_eq⟩

theorem readFrom_note {log : List Event} {e : Event} (he : ∀ bytes, addRead flow bytes e = bytes) :
    readFrom flow (log ++ [e]) = readFrom flow log :=
  readFrom_append (by simpa using he)

/-- A control move begins a connection, or leaves the data of both directions alone. -/
theorem ControlMove.keeps (hmove : ControlMove flow env event v v') : v'.cfg = v.cfg ∧
    ((∃ tunnelId state, v'.stream = some (Host.newConn v.cfg env.now tunnelId state).toStream ∧
        v'.log = v.log ++ [.created flow]) ∨
      readFrom flow v'.log = readFrom flow v.log ∧ ∀ c', v'.stream = some c' →
        ∃ c, v.stream = some c ∧ c'.recvBuf = c.recvBuf ∧ c'.consumed = c.consumed ∧
          c'.acked = c.acked) := by
  cases hmove.shape with
  | create tunnelId hstream => exact ⟨rfl, .inl ⟨tunnelId, _, rfl, rfl⟩⟩
  | release hstream hreleases =>
      exact ⟨rfl, .inr ⟨readFrom_note fun _ => rfl, fun c' hc' => by cases hc'⟩⟩
  | turn state confirmed hstream hout =>
      refine ⟨rfl, .inr ⟨rfl, fun c' hc' => ⟨_, hstream, ?_⟩⟩⟩
      exact Option.some.inj hc' ▸ ⟨rfl, rfl, rfl⟩
  | send hout => exact ⟨rfl, .inr ⟨rfl, fun c' hc' => ⟨c', hc', rfl, rfl, rfl⟩⟩⟩

theorem ReadsParts.receiverMove (hreads : ReadsParts flow bytes v)
    (hshort : bytes.length < 2 ^ 31) (halloc : env.alloc.Succeeds)
    (hbrings : ∀ data, Brings flow event data → data.PartOf bytes)
    (hmove : ReceiverMove flow env event start v v') : ReadsParts flow bytes v' := by
  cases hmove with
  | @store c data hstream hevent hlen huntouched =>
      obtain ⟨hstores, hread⟩ := hreads.stream c hstream
      have hpos := length_pos_of_sized hevent.sized hlen
      refine ⟨hreads.buffer_lt, hreads.decode, hreads.log, fun c' hc' => ?_⟩
      obtain rfl := Option.some.inj hc'
      refine ⟨hstores.storeData hshort halloc (hbrings data hevent) hpos, ?_⟩
      rw [(recvBuf_storeData env.alloc c data).2]
      exact hread
  | insert hstream hinserted huntouched hstate hdecode => exact absurd hreads.decode hdecode
  | checkpoint hstream | ack acks sackMap hstream =>
      exact hreads.of_kept rfl rfl fun c' hc' => ⟨_, hstream, Option.some.inj hc' ▸ ⟨rfl, rfl⟩⟩
  | @read c c' size hstream hsize hreleased =>
      obtain ⟨hstores, hread⟩ := hreads.stream c hstream
      obtain ⟨hstores', hfront⟩ := hstores.read hreleased
      have hlog : readFrom flow (v.log ++ [.read flow (c.front size.toNat)]) =
          bytes.take c'.consumed := by
        rw [readFrom, List.foldl_append, ← readFrom, hread, ← hfront]
        exact if_pos rfl
      refine ⟨hreads.buffer_lt, hreads.decode, ?_, fun d hd => ?_⟩
      · exact hlog ▸ List.take_prefix _ _
      · obtain rfl := Option.some.inj hd
        exact ⟨hstores', hlog⟩
  | failed hstream hreleased => exact hreads.of_eq rfl (readFrom_note fun _ => rfl) rfl

theorem ReadsParts.controlMove (hreads : ReadsParts flow bytes v)
    (hmove : ControlMove flow env event v v') : ReadsParts flow bytes v' := by
  obtain ⟨hcfg, hnew | ⟨hlog, hkept⟩⟩ := hmove.keeps
  · obtain ⟨tunnelId, state, hstream', hlog'⟩ := hnew
    have hlog : readFrom flow v'.log = [] := by
      rw [hlog', readFrom, List.foldl_append]
      exact if_pos rfl
    refine ⟨hcfg ▸ hreads.buffer_lt, hcfg ▸ hreads.decode, hlog ▸ List.nil_prefix, fun c hc => ?_⟩
    obtain rfl := Option.some.inj (hstream'.symm.trans hc)
    exact ⟨⟨Nat.zero_le _, [], Rbuf.holds_init (lt_of_le_of_lt (Nat.div_mul_le_self _ _)
      hreads.buffer_lt), fun q hq => absurd hq (covers_nil q)⟩, hlog⟩
  · refine hreads.of_kept hcfg hlog fun c' hc' => ?_
    obtain ⟨c, hc, hbuf, hconsumed, -⟩ := hkept c' hc'
    exact ⟨c, hc, hbuf, hconsumed⟩

theorem ReadsParts.move (hshort : bytes.length < 2 ^ 31) (halloc : env.alloc.Succeeds)
    (hbrings : ∀ data, Brings flow event data → data.PartOf bytes)
    (hmove : Move flow env event start v v') (hreads : ReadsParts flow bytes v) :
    ReadsParts flow bytes v' := by
  cases hmove with
  | sender hmove =>
      have hframe : SenderFrame flow event v v' := hmove.frame
      exact hreads.of_senderFrame hframe
  | ack hmove => exact hreads.of_senderFrame hmove.frame
  | receiver hmove => exact hreads.receiverMove hshort halloc hbrings hmove
  | control hmove => exact hreads.controlMove hmove
  | session hmove =>
      cases hmove with
      | accept hevent hid htime hnode htoken =>
          exact hreads.of_eq rfl (readFrom_note fun _ => rfl) rfl
      | _ => exact hreads.of_eq rfl rfl rfl
  | foreignSend flight hflow hping => exact hreads.of_eq rfl rfl rfl
  | foreignNote note hflow hping =>
      refine hreads.of_eq rfl (readFrom_note fun bytes => ?_) rfl
      cases note <;> simp_all [addRead, Event.flow?]

end Receiving

/-! ### What the sender releases -/

section Releasing

variable {flow : U32} {env : Env} {event : HostEvent} {start v v' : FlowState} {c' : Stream}

theorem SenderMove.acked_eq (hmove : SenderMove flow env v v') (hstream' : v'.stream = some c') :
    ∃ c, v.stream = some c ∧ c'.acked = c.acked := by
  have of_kept : BufferKept flow v v' → ∃ c, v.stream = some c ∧ c'.acked = c.acked := by
    intro hkept
    obtain ⟨c, hc, -, hacked⟩ := hkept.stream c' hstream'
    exact ⟨c, hc, hacked⟩
  cases hmove with
  | @post c packet hstream hfirst =>
      obtain ⟨hbuf, hacked⟩ := BufferKept.posted v.cfg env.alloc.node c packet
      exact of_kept ((BufferKept.of_stream hstream rfl hbuf hacked (writtenTo_note _ _ _)).trans
        (BufferKept.postFull rfl))
  | write data hstream | fecPost hstream => exact ⟨_, hstream, Option.some.inj hstream' ▸ rfl⟩
  | @ready c c' packets dangling time hstream hready =>
      have hrelisted := c.relisted_readyLoop time c.waitingQueue
      rw [hready] at hrelisted
      obtain ⟨list, queue, rfl⟩ := hrelisted
      exact ⟨c, hstream, Option.some.inj hstream' ▸ rfl⟩
  | @retransmit c packet key time entry hstream hready hpacket hwindow hfits hentry =>
      exact of_kept (((BufferKept.repost hstream env.alloc.node packet entry).trans
        (BufferKept.requeue _ key packet time)).trans (BufferKept.popUnready _ key))
  | @giveUp c packet key time hstream hready hpacket =>
      exact of_kept ((BufferKept.requeue v key packet time).trans (BufferKept.popUnready _ key))
  | hold key hstream hready hpacket => exact of_kept (BufferKept.popUnready v key)
  | keepalive | lost => exact ⟨c', hstream', rfl⟩

/-- Only an acknowledgement moves the send window, and it moves it to where the peer is. -/
theorem Move.acked_cases (hmove : Move flow env event start v v') (hstream' : v'.stream = some c') :
    (∃ c, v.stream = some c ∧ c'.acked = c.acked) ∨ c'.acked = 0 ∨
      ∃ ack, event = .io (.dataAck flow ack) ∧ c'.swinStart = ack.winStart := by
  cases hmove with
  | sender hmove => exact .inl (hmove.acked_eq hstream')
  | ack hmove =>
      cases hmove with
      | @range c ack range hstream hevent hrange =>
          obtain ⟨list, queue, heq⟩ := c.relisted_releaseRange range.1 range.2
          obtain rfl := Option.some.inj hstream'
          exact .inl ⟨c, hstream, by rw [heq]⟩
      | @window c moved ack hstream hevent hwindow hmoved =>
          obtain ⟨list, queue, heq⟩ := moved.relisted_checkpoint ack.winStart
          obtain ⟨sendBuf, acked, rfl⟩ := Stream.moveSwin_eq hmoved
          obtain rfl := Option.some.inj hstream'
          exact .inr (.inr ⟨ack, hevent, by rw [heq]⟩)
      | failed => exact .inl ⟨c', hstream', rfl⟩
  | receiver hmove =>
      have hrel := hmove.frame.stream
      rw [hstream'] at hrel
      obtain ⟨c, hc, hsame⟩ := exists_of_rel_some hrel
      exact .inl ⟨c, hc, hsame.send.acked_eq⟩
  | control hmove =>
      obtain ⟨-, ⟨tunnelId, state, hnew, -⟩ | ⟨-, hkept⟩⟩ := hmove.keeps
      · obtain rfl := Option.some.inj (hnew.symm.trans hstream')
        exact .inr (.inl rfl)
      · obtain ⟨c, hc, -, -, hacked⟩ := hkept c' hstream'
        exact .inl ⟨c, hc, hacked⟩
  | session hmove => cases hmove <;> exact .inl ⟨c', hstream', rfl⟩
  | _ => exact .inl ⟨c', hstream', rfl⟩

/-- Nothing has been released, or an acknowledgement has said how much. -/
def Stream.AckedBy (flow : U32) (events : List (Env × HostEvent)) (c : Stream) : Prop :=
  c.acked = 0 ∨ ∃ e ∈ events, ∃ ack, e.2 = .io (.dataAck flow ack) ∧ ack.winStart = wire c.acked

end Releasing

/-! ### Both ends -/

namespace Host

theorem out_prefix_run (h : Host) (events : List (Env × HostEvent)) :
    h.out <+: (h.run events).out := by
  have hview : h.out <+: ((h.run events).view 0).out := by
    refine run_preserves (P := fun v => h.out <+: v.out) (fun _ _ hout => hout)
      (fun e he start v v' hmove hout => ?_) List.prefix_rfl
    cases hmove.life with
    | goes hstream hgrows =>
        obtain ⟨⟨fs, hfs, -⟩, -⟩ := hgrows
        exact hfs ▸ hout.trans (List.prefix_append _ _)
    | announces hstream hstream' hforward hfin hlog hout' =>
        exact hout' ▸ hout.trans (List.prefix_append _ _)
    | begins hstream hstream' hlog hout' => exact hout' ▸ hout
    | ends hstream hstream' hlog hout' => exact hout' ▸ hout
  exact hview

variable {flow : U32} {cfg : Config} (hsize : cfg.bufferSize.toNat < 2 ^ 31) (nodeId : U16)
  (now : Time) {events : List (Env × HostEvent)} (halloc : ∀ e ∈ events, e.1.alloc.Succeeds)

include hsize halloc

theorem posts_partOf
    (hone : ((litedtInit cfg nodeId now).run events).incarnations flow ≤ 1) :
    ∀ post ∈ posts flow ((litedtInit cfg nodeId now).run events).out,
      post.PartOf (writtenTo flow ((litedtInit cfg nodeId now).run events).log) := by
  have hsends := sendsWritten_init hsize nodeId now flow
  have hsent : SentParts flow (((litedtInit cfg nodeId now).run events).view flow) :=
    run_preserves (fun _ _ hv => ⟨⟨hv.book.buffer_lt, hv.book.sender, hv.book.log⟩, hv.holds, hv.none,
      hv.parts⟩) (fun e he _ _ _ hmove => SentParts.move (halloc e he) hmove)
      ⟨hsends.book, hsends.holds, fun _ => ⟨rfl, rfl⟩, fun _ post hpost => by cases hpost⟩
  exact hsent.parts hone

theorem reads_stream (hdecode : cfg.fecDecode = 0) {bytes : List Byte}
    (hshort : bytes.length < 2 ^ 31)
    (hbrings : ∀ e ∈ events, ∀ data, Brings flow e.2 data → data.PartOf bytes) :
    readFrom flow ((litedtInit cfg nodeId now).run events).log <+: bytes := by
  have hreads : ReadsParts flow bytes (((litedtInit cfg nodeId now).run events).view flow) :=
    run_preserves (fun _ _ hv => ⟨hv.buffer_lt, hv.decode, hv.log, hv.stream⟩)
      (fun e he _ _ _ hmove => ReadsParts.move hshort (halloc e he) (hbrings e he) hmove)
      ⟨hsize, hdecode, List.nil_prefix, fun c hc => by cases hc⟩
  exact hreads.log

theorem ackedBy_run :
    ∀ c, (((litedtInit cfg nodeId now).run events).view flow).stream = some c →
      c.AckedBy flow events := by
  refine (run_preserves (P := fun v => Bookkeeping flow v ∧
    ∀ c, v.stream = some c → c.AckedBy flow events)
    (fun _ _ hv => ⟨⟨hv.1.buffer_lt, hv.1.sender, hv.1.log⟩, hv.2⟩)
    (fun e he start v v' hmove hv => ?_)
    ⟨bookkeeping_init hsize nodeId now flow, fun c hc => by cases hc⟩).2
  have hbook := bookkeeping_move (halloc e he) hmove hv.1
  refine ⟨hbook, fun c' hc' => ?_⟩
  rcases hmove.acked_cases hc' with ⟨c, hc, heq⟩ | hzero | ⟨ack, hevent, hstart⟩
  · rw [Stream.AckedBy, heq]
    exact hv.2 c hc
  · exact .inl hzero
  · obtain ⟨snd, fin, packets, hsending⟩ := hbook.sending hc'
    exact .inr ⟨e, he, ack, hevent, hstart.symm.trans hsending.swinStart_eq⟩

end Host

namespace Sys

theorem host_setHost (s : Sys) (actor side : Side) (h : Host) :
    (s.setHost actor h).host side = if actor = side then h else s.host side := by
  cases actor <;> cases side <;> rfl

/-- Each host of a run has run with its own events. -/
theorem host_run (side : Side) (actions : List (Side × Env × Action)) (s : Sys) :
    (s.run actions).host side = (s.host side).run (events side actions s) := by
  induction actions generalizing s with
  | nil => rfl
  | cons act rest ih =>
      obtain ⟨actor, env, action⟩ := act
      have hstep : (s.step actor env action).host side = (s.host side).run
          (if actor = side then (s.eventOf side action).toList.map (fun event => (env, event))
            else []) := by
        unfold step
        by_cases hactor : actor = side
        · subst hactor
          rw [if_pos rfl]
          cases s.eventOf actor action with
          | none => rfl
          | some event => exact (host_setHost s actor actor _).trans (if_pos rfl)
        · rw [if_neg hactor]
          split
          · rfl
          · exact (host_setHost s actor side _).trans (if_neg hactor)
      rw [events, Host.run, List.foldl_append]
      exact (ih (s.step actor env action)).trans (by rw [hstep]; rfl)

/-- No datagram arrives that the other host has not sent. -/
theorem mem_events {side : Side} {e : Env × HostEvent} (actions : List (Side × Env × Action))
    (s : Sys) (hmem : e ∈ events side actions s) :
    (∃ act ∈ actions, act.2.1 = e.1) ∧ ∀ packet, e.2 = .io packet →
      ∃ flight ∈ ((s.run actions).host side.other).out, flight.packet = packet := by
  induction actions generalizing s with
  | nil => cases hmem
  | cons act rest ih =>
      obtain ⟨actor, env, action⟩ := act
      rcases List.mem_append.mp hmem with hmem | hmem
      · split at hmem
        · obtain ⟨event, hevent, rfl⟩ := List.mem_map.mp hmem
          rw [Option.mem_toList] at hevent
          refine ⟨⟨_, List.mem_cons_self, rfl⟩, fun packet hpacket => ?_⟩
          subst hpacket
          cases action with
          | deliver index =>
              obtain ⟨flight, hflight, hpacket⟩ := Option.map_eq_some_iff.mp hevent
              rw [host_run]
              exact ⟨flight, (Host.out_prefix_run _ _).subset (List.mem_of_getElem? hflight),
                HostEvent.io.inj hpacket⟩
          | _ => cases hevent
        · cases hmem
      · obtain ⟨⟨act, hact, henv⟩, hsent⟩ := ih _ hmem
        exact ⟨⟨act, List.mem_cons_of_mem _ hact, henv⟩, hsent⟩

theorem partOf_of_brings {flow : U32} {bytes : List Byte} {out : List Flight} {packet : Packet}
    {data : DataPost} (hparts : ∀ post ∈ posts flow out, post.PartOf bytes)
    (hsent : ∃ flight ∈ out, flight.packet = packet) (hbrings : Brings flow (.io packet) data) :
    data.PartOf bytes := by
  obtain ⟨flight, hflight, rfl⟩ := hsent
  obtain ⟨sent, hcheck, hpacket⟩ := hbrings
  have hpost : flight.packet.post? flow = some sent := by
    rcases hpacket with hpacket | ⟨tunnelId, hpacket⟩ <;>
      simp [HostEvent.io.inj hpacket, Packet.post?]
  obtain ⟨p, hp, hseq, hdata⟩ := hparts sent (List.mem_filterMap.mpr ⟨flight, hflight, hpost⟩)
  unfold Host.checkLength at hcheck
  split at hcheck
  · cases hcheck
  · obtain rfl := Option.some.inj hcheck
    exact ⟨p, hp, hseq, ( List.take_prefix _ _).trans hdata⟩

variable {s : Sys} {cfgA cfgB : Config} {nodeA nodeB : U16} {nowA nowB : Time}
  (hinit : s = init cfgA cfgB nodeA nodeB nowA nowB)
  (hsize : ∀ side, (s.host side).cfg.bufferSize.toNat < 2 ^ 31)
  (actions : List (Side × Env × Action)) (halloc : ∀ act ∈ actions, act.2.1.alloc.Succeeds)
  (side : Side) (flow : U32)

include hinit in
theorem exists_host_run : ∃ nodeId now, (s.run actions).host side =
    (Host.litedtInit (s.host side).cfg nodeId now).run (events side actions s) := by
  have hstart : ∃ nodeId now, s.host side = Host.litedtInit (s.host side).cfg nodeId now := by
    subst hinit
    cases side <;> exact ⟨_, _, rfl⟩
  obtain ⟨nodeId, now, hhost⟩ := hstart
  exact ⟨nodeId, now, (host_run side actions s).trans (by rw [← hhost])⟩

include halloc in
theorem succeeds_events (s : Sys) : ∀ e ∈ events side actions s, e.1.alloc.Succeeds := by
  intro e he
  obtain ⟨⟨act, hact, henv⟩, -⟩ := mem_events actions s he
  exact henv ▸ halloc act hact

include hinit hsize halloc

/-- **In-order delivery.** Whatever the network loses, repeats, delays and reorders, and however the
calls and the time events of the two hosts interleave: what is read from the last connection for a
flow at one end is a beginning of what has been written to the flow at the other. The other end has
had one connection for it, with less than `2 ^ 31` bytes, and this one does not decode the error
correction. -/
theorem readFrom_prefix_writtenTo (hdecode : (s.host side).cfg.fecDecode = 0)
    (hone : ((s.run actions).host side.other).incarnations flow ≤ 1)
    (hshort : (writtenTo flow ((s.run actions).host side.other).log).length < 2 ^ 31) :
    readFrom flow ((s.run actions).host side).log <+:
      writtenTo flow ((s.run actions).host side.other).log := by
  obtain ⟨nodeId, now, hrun⟩ := exists_host_run hinit actions side
  obtain ⟨nodeId', now', hrun'⟩ := exists_host_run hinit actions side.other
  have hparts : ∀ post ∈ posts flow ((s.run actions).host side.other).out,
      post.PartOf (writtenTo flow ((s.run actions).host side.other).log) := by
    rw [hrun'] at hone ⊢
    exact Host.posts_partOf (hsize side.other) nodeId' now' (succeeds_events actions halloc _ s) hone
  rw [hrun]
  refine Host.reads_stream (hsize side) nodeId now (succeeds_events actions halloc _ s) hdecode hshort
    fun e he data hbrings => ?_
  obtain ⟨-, hsent⟩ := mem_events actions s he
  obtain ⟨env, event⟩ := e
  cases event with
  | io packet => exact partOf_of_brings hparts (hsent packet rfl) hbrings
  | _ => obtain ⟨sent, -, hevent | ⟨tunnelId, hevent⟩⟩ := hbrings <;> cases hevent

/-- **Nothing is released too early.** Whatever the network does, some connection at the other end had
received all positions that the sender has released from `send_buf` when it sent one of its
acknowledgements, as long as the streams of the flow have less than `2 ^ 31` bytes. -/
theorem released_received
    (hwritten : (writtenTo flow ((s.run actions).host side).log).length < 2 ^ 31)
    (hshort : ∀ d, ((s.run actions).host side.other).Incarnation flow d → d.Short) {c : Stream}
    (hc : (((s.run actions).host side).view flow).stream = some c) (hpos : 0 < c.acked) :
    ∃ d, ((s.run actions).host side.other).Incarnation flow d ∧
      ∃ sent ∈ d.acks, ∀ q < c.acked, Received sent.stored q := by
  obtain ⟨nodeId, now, hrun⟩ := exists_host_run hinit actions side
  obtain ⟨nodeId', now', hrun'⟩ := exists_host_run hinit actions side.other
  rw [hrun] at hwritten hc
  have hsends := Host.sendsWritten_run (Host.sendsWritten_init (hsize side) nodeId now flow)
    (succeeds_events actions halloc side s)
  obtain ⟨snd, packets, hsending⟩ := hsends.holds.sending hsends.book hc
  have hacked : c.acked < 2 ^ 31 :=
    lt_of_le_of_lt (hsending.acked_le.trans hsending.snd_le) hwritten
  obtain ⟨e, he, ack, hevent, hstart⟩ := (Host.ackedBy_run (hsize side) nodeId now
    (succeeds_events actions halloc side s) c hc).resolve_left hpos.ne'
  obtain ⟨flight, hflight, hpacket⟩ := (mem_events actions s he).2 _ hevent
  rw [hrun'] at hshort hflight ⊢
  have hrecorded : Recorded flow (s.host side.other).cfg (fun c => c.Short → Honest c) _ :=
    recorded_run nodeId' now' (fun now tunnelId state _ => honest_newConn _ now tunnelId state)
      fun e he _ _ hstep => Honest.step (succeeds_events actions halloc side.other s e he).2 hstep
  obtain ⟨d, hd, sent, hsent, -, rfl⟩ := hrecorded.sent flight hflight ack hpacket
  have hinc := Host.incarnation_iff_view.mpr hd
  have htruthful := ((hrecorded.incarnation d hd (hshort d hinc)).acks sent hsent).1
  rw [hstart, wire_toNat_of_lt hacked] at htruthful
  exact ⟨d, hinc, sent, hsent, htruthful⟩

end Sys

/-- The first host sends three bytes; the second one acknowledges them. -/
def exchanging : List (Side × Env × Action) :=
  opening ++
    [(.a, .plain 10000, .call (.send 7 .three)),
      (.a, .plain 1000000, .time 5),
      (.b, .plain 1000000, .deliver 4),
      (.b, .plain 2000000, .time 5),
      (.b, .plain 2000000, .call (.recv 7 2)),
      (.a, .plain 2000000, .deliver 2)]

theorem exchanging_succeeds : ∀ act ∈ exchanging, act.2.1.alloc.Succeeds := by
  simp [exchanging, opening, Env.plain_succeeds]

theorem readFrom_prefix_exchanging :
    readFrom 7 (Sys.sample.run exchanging).b.log = [1, 2] ∧
      [1, 2] <+: writtenTo 7 (Sys.sample.run exchanging).a.log := by
  have hread : readFrom 7 (Sys.sample.run exchanging).b.log = [1, 2] := by decide +kernel
  exact ⟨hread, hread ▸ Sys.readFrom_prefix_writtenTo rfl (by rintro (_ | _) <;> decide) _
    exchanging_succeeds .b 7 rfl (by decide +kernel) (by decide +kernel)⟩

theorem released_received_exchanging :
    (((Sys.sample.run exchanging).a.view 7).stream.map Stream.acked = some 3) ∧
      ∃ d, (Sys.sample.run exchanging).b.Incarnation 7 d ∧
        ∃ sent ∈ d.acks, ∀ q < 3, Received sent.stored q := by
  have hacked : ((Sys.sample.run exchanging).a.view 7).stream.map Stream.acked = some 3 := by
    decide +kernel
  obtain ⟨c, hc, hthree⟩ := Option.map_eq_some_iff.mp hacked
  refine ⟨hacked, hthree ▸ Sys.released_received rfl (by rintro (_ | _) <;> decide) _
    exchanging_succeeds .a 7 (by decide +kernel) ?_ hc (by omega)⟩
  exact (by decide +kernel : ∀ d, (Sys.sample.run exchanging).b.Incarnation 7 d → d.Short)

end Liteflow

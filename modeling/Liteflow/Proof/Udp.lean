import Liteflow.Lib.Framing
import Liteflow.Proof.Readable
import Liteflow.Proof.RefineTables
import Liteflow.Proof.Written

/-!
# Datagrams arrive as they were sent

The two calls of `litedt_send` for a datagram write a frame or nothing: the test of the room in
`send_buf` covers both, and between them nothing changes what `litedt_send` tests. The loop of
`udp_remote_recv` takes whole frames off `recv_buf` and leaves a part of one.
-/

namespace Liteflow

open Framing

/-! ### Frames -/

theorem udpLength_eq (n : Nat) :
    udpLength n = [BitVec.ofNat 8 (n % 2 ^ 32), BitVec.ofNat 8 (n % 2 ^ 32 / 256)] := by
  simp [udpLength, littleEndian, List.range_succ]

theorem readUdpLength_eq (bytes : List Byte) :
    readUdpLength bytes = ((bytes[0]?).getD 0).toNat + 256 * ((bytes[1]?).getD 0).toNat := rfl

theorem readUdpLength_udpLength {n : Nat} (hn : n < 65536) : readUdpLength (udpLength n) = n := by
  rw [udpLength_eq, readUdpLength_eq]
  simp
  omega

theorem udpLength_readUdpLength {bytes : List Byte} (hlength : bytes.length = 2) :
    udpLength (readUdpLength bytes) = bytes := by
  obtain ⟨low, high, rfl⟩ := List.length_eq_two.mp hlength
  rw [udpLength_eq, readUdpLength_eq]
  have hlow := low.isLt
  have hhigh := high.isLt
  simp
  constructor
  · apply BitVec.eq_of_toNat_eq
    simp
    omega
  · apply BitVec.eq_of_toNat_eq
    simp
    omega

def udpHeader : Header Byte where
  width := 2
  put := udpLength
  get := readUdpLength
  width_pos := Nat.two_pos
  length_put n := by rw [udpLength_eq]; rfl
  put_get _ := udpLength_readUdpLength

theorem fits_of_le {datagram : List Byte} (hlength : datagram.length ≤ 65507) :
    udpHeader.Fits datagram :=
  readUdpLength_udpLength (by omega)

/-! ### `litedt_send` -/

namespace Host

variable {h : Host} {flow g : U32} {env : Env} {conn : Conn} {data : Payload}

theorem send_of_closed (hclosed : ConnState.finWait.code ≤ conn.state.code)
    (hfind : h.findConnection flow = some conn) : (h.litedtSend env flow data).2 = h := by
  rw [litedtSend, hfind]
  dsimp only
  rw [if_pos hclosed]

theorem send_of_empty (hempty : data.val.length = 0) : (h.litedtSend env flow data).2 = h := by
  unfold litedtSend
  split
  · rfl
  · split
    · rfl
    · split
      · rfl
      · rfl

theorem view_send (env : Env) (hfind : h.findConnection flow = some conn)
    (hopen : conn.state.code < ConnState.finWait.code)
    (hfits : data.val.length ≤ conn.sendBuf.rbufWritableBytes.toNat) (hpos : 0 < data.val.length) :
    (h.litedtSend env flow data).2.view flow =
      ((h.view flow).withStream (conn.write env.alloc data.val)).note (.wrote flow data.val) := by
  rw [litedtSend, hfind]
  dsimp only
  rw [if_neg (not_le.mpr hopen), if_neg (not_lt.mpr hfits), if_neg hpos.ne', view_litedtModEvtime,
    view_activate, view_record, view_modifyStream_self hfind]

theorem writtenTo_send_of_ne (hne : g ≠ flow) :
    writtenTo flow (h.litedtSend env g data).2.log = writtenTo flow h.log := by
  unfold litedtSend
  split
  · rfl
  · rename_i conn hfind
    split
    · rfl
    · split
      · rfl
      · split
        · rfl
        · have hview : (((((h.modifyStream g (fun c => c.write env.alloc data.val)).record
              (.wrote g data.val)).activate g).litedtModEvtime none
                (h.lastEventTime + sendInterval)).view flow).log =
              h.log ++ [.wrote g data.val] := by
            rw [view_litedtModEvtime, view_activate, view_record, view_modifyStream_of_ne hne]
            rfl
          exact (congrArg (writtenTo flow) hview).trans
            ((writtenTo_note _ _ _).trans (if_neg hne))

/-! ### One datagram -/

def udpTakes (h : Host) (flow : U32) (read : UdpRead) : Bool :=
  match h.findConnection flow with
  | none => false
  | some conn => conn.state.code < ConnState.finWait.code ∧
      read.readLen + 2 ≤ conn.sendBuf.rbufWritableBytes.toNat

variable {read : UdpRead}

theorem buf_of_le (hlength : read.datagram.length ≤ 65507) : read.buf.val = read.datagram :=
  List.take_of_length_le (hlength.trans (by decide))

theorem hostTurn_eq_localTurn (hlength : read.datagram.length ≤ 65507) :
    h.udpHostTurn flow read = h.udpLocalTurn flow read := by
  have hsmall : ¬ 0xFFFF < read.readLen := by
    rw [UdpRead.readLen, buf_of_le hlength]
    omega
  rw [udpHostTurn, udpLocalTurn, if_neg hsmall]

theorem localTurn_eq_run (h : Host) (flow : U32) (hhead : read.head.alloc.Succeeds)
    (hbody : read.body.alloc.Succeeds) :
    ∃ events : List (Env × HostEvent), (∀ e ∈ events, e.1.alloc.Succeeds) ∧
      h.udpLocalTurn flow read = h.run events := by
  unfold udpLocalTurn
  split
  · exact ⟨[], by simp, rfl⟩
  · exact ⟨[(read.head, .call (.send flow read.length)), (read.body, .call (.send flow read.buf))],
      by simp [hhead, hbody], rfl⟩

theorem writtenTo_turn_of_ne (hne : g ≠ flow) (read : UdpRead) :
    writtenTo flow (h.udpLocalTurn g read).log = writtenTo flow h.log := by
  unfold udpLocalTurn
  split
  · rfl
  · exact (writtenTo_send_of_ne hne).trans (writtenTo_send_of_ne hne)

theorem writable_toInt {bytes : List Byte} (hheld : Held conn.toStream bytes) :
    conn.sendBuf.rbufWritableBytes.toInt = conn.sendBuf.rbufWritableBytes.toNat := by
  have hroom := hheld.filled.rbufWritableBytes_toNat
  have hspan := hheld.filled.ring.windowEnd_lt
  have hbase := hheld.filled.base_le
  exact BitVec.toInt_eq_toNat_of_lt (by omega)

theorem writtenTo_forward (hsends : SendsWritten flow h) (hhead : read.head.alloc.Succeeds)
    (hlength : read.datagram.length ≤ 65507) (hfind : h.findConnection flow = some conn)
    (hopen : conn.state.code < ConnState.finWait.code)
    (hroom : read.readLen + 2 ≤ conn.sendBuf.rbufWritableBytes.toNat) :
    writtenTo flow (h.udpForward flow read).log =
      writtenTo flow h.log ++ udpHeader.frame read.datagram := by
  have hheld := hsends.holds conn.toStream (view_stream_of_find hfind)
  have hbuf := buf_of_le hlength
  have hreadLen : read.readLen = read.datagram.length := by rw [UdpRead.readLen, hbuf]
  have htwo : read.length.val.length = 2 := udpHeader.length_put read.readLen
  have hframe : udpHeader.frame read.datagram = read.length.val ++ read.datagram := by
    rw [Header.frame, ← hreadLen]
    rfl
  have hview := view_send read.head hfind hopen
    (show read.length.val.length ≤ conn.sendBuf.rbufWritableBytes.toNat by omega) (by omega)
  have hlog : (h.litedtSend read.head flow read.length).2.log =
      h.log ++ [.wrote flow read.length.val] := congrArg FlowState.log hview
  have hwritten : writtenTo flow (h.litedtSend read.head flow read.length).2.log =
      writtenTo flow h.log ++ read.length.val := by
    rw [hlog, writtenTo_note]
    exact if_pos rfl
  rw [udpForward, hframe]
  rcases Nat.eq_zero_or_pos read.datagram.length with hempty | hpos
  · rw [send_of_empty (by rw [hbuf, hempty]), hwritten, List.length_eq_zero_iff.mp hempty,
      List.append_nil]
  · -- the connection after the first call has room for the second
    obtain ⟨conn', hfind', hstream⟩ := Option.map_eq_some_iff.mp (congrArg FlowState.stream hview)
    have hopen' : conn'.state.code < ConnState.finWait.code := by
      rw [hstream]
      exact hopen
    have hroom' := hheld.writable_write hhead (show 0 < read.length.val.length by omega) (by omega)
    have hfits : read.buf.val.length ≤ conn'.sendBuf.rbufWritableBytes.toNat := by
      rw [hstream, hroom', hbuf]
      omega
    have hlog' := congrArg FlowState.log
      (view_send read.body hfind' hopen' hfits (by rw [hbuf]; exact hpos))
    have hwritten' := congrArg (writtenTo flow) hlog'
    refine hwritten'.trans ?_
    rw [← List.append_assoc, ← hwritten, ← hbuf]
    exact (writtenTo_note _ _ _).trans (if_pos rfl)

theorem writtenTo_turn (hsends : SendsWritten flow h) (hhead : read.head.alloc.Succeeds)
    (hlength : read.datagram.length ≤ 65507) :
    writtenTo flow (h.udpLocalTurn flow read).log =
      writtenTo flow h.log ++
        if h.udpTakes flow read then udpHeader.frame read.datagram else [] := by
  cases hfind : h.findConnection flow with
  | none =>
      have hrefused : h.litedtWritableBytes flow < read.readLen + 2 := by
        rw [litedtWritableBytes, hfind]
        dsimp only
        rw [litedtRecordNotFound]
        omega
      simp [udpLocalTurn, hrefused, udpTakes, hfind]
  | some conn =>
      have hheld := hsends.holds conn.toStream (view_stream_of_find hfind)
      have hwritable : h.litedtWritableBytes flow = conn.sendBuf.rbufWritableBytes.toNat := by
        rw [litedtWritableBytes, hfind]
        exact writable_toInt hheld
      by_cases hroom : read.readLen + 2 ≤ conn.sendBuf.rbufWritableBytes.toNat
      · have hturn : h.udpLocalTurn flow read = h.udpForward flow read := by
          rw [udpLocalTurn, if_neg (by rw [hwritable]; omega)]
        rw [hturn]
        by_cases hopen : conn.state.code < ConnState.finWait.code
        · rw [writtenTo_forward hsends hhead hlength hfind hopen hroom]
          simp [udpTakes, hfind, hopen, hroom]
        · have hclosed := not_lt.mp hopen
          rw [udpForward, send_of_closed hclosed hfind, send_of_closed hclosed hfind]
          simp [udpTakes, hfind, hopen]
      · have hrefused : h.litedtWritableBytes flow < read.readLen + 2 := by
          rw [hwritable]
          omega
        simp [udpLocalTurn, hrefused, udpTakes, hfind, hroom]

end Host

/-! ### What a host accepts -/

/-- The datagrams that `udp_local_recv` reads: up to the first empty one. -/
def untilEmpty : List UdpRead → List UdpRead
  | [] => []
  | read :: rest => if 0 < read.readLen then read :: untilEmpty rest else [read]

def UdpEvent.turns : UdpEvent → List (U32 × UdpRead)
  | hostRecv reads => reads
  | localRecv flow reads => (untilEmpty reads).map (fun read => (flow, read))
  | other _ _ => []

def UdpEvent.Small (e : UdpEvent) : Prop :=
  ∀ turn ∈ e.turns, turn.2.datagram.length ≤ 65507

instance (e : UdpEvent) : Decidable e.Small :=
  inferInstanceAs (Decidable (∀ turn ∈ e.turns, turn.2.datagram.length ≤ 65507))

def UdpEvent.Succeeds (e : UdpEvent) : Prop :=
  (∀ turn ∈ e.turns, turn.2.head.alloc.Succeeds ∧ turn.2.body.alloc.Succeeds) ∧
    ∀ env event, e = .other env event → env.alloc.Succeeds

def Event.isWrote (flow : U32) : Event → Bool
  | wrote g _ => g = flow
  | _ => false

namespace Host

def udpTaken (flow : U32) : Host → List (U32 × UdpRead) → List (List Byte)
  | _, [] => []
  | h, (g, read) :: rest =>
      (if g = flow ∧ h.udpTakes g read then [read.datagram] else []) ++
        udpTaken flow (h.udpLocalTurn g read) rest

def recorded (h : Host) (env : Env) (event : HostEvent) : List Event :=
  (h.step env event).log.drop h.log.length

/-- The datagrams that the last connection of the flow has taken, with those that `e` brings. -/
def udpAccept (h : Host) (flow : U32) (accepted : List (List Byte)) : UdpEvent → List (List Byte)
  | .other env event => if (h.recorded env event).any (Event.isCreated flow) then [] else accepted
  | .hostRecv reads => accepted ++ udpTaken flow h (UdpEvent.hostRecv reads).turns
  | .localRecv g reads => accepted ++ udpTaken flow h (UdpEvent.localRecv g reads).turns

def udpAccepted (flow : U32) : Host → List (List Byte) → List UdpEvent → List (List Byte)
  | _, accepted, [] => accepted
  | h, accepted, e :: rest => udpAccepted flow (h.udpStep e) (h.udpAccept flow accepted e) rest

def writesOtherwise (h : Host) (flow : U32) : UdpEvent → Bool
  | .other env event => (h.recorded env event).any (Event.isWrote flow)
  | _ => false

def udpOnly (flow : U32) : Host → List UdpEvent → Bool
  | _, [] => true
  | h, e :: rest => !h.writesOtherwise flow e && udpOnly flow (h.udpStep e) rest

section Turns

variable {flow : U32} {h : Host}

theorem udpLocalRecv_eq (h : Host) (g : U32) (reads : List UdpRead) :
    h.udpLocalRecv g reads = (untilEmpty reads).foldl (fun h read => h.udpLocalTurn g read) h := by
  induction reads generalizing h with
  | nil => rfl
  | cons read rest ih =>
      rw [udpLocalRecv, untilEmpty]
      split
      · exact ih _
      · rfl

theorem sendsWritten_turn (hsends : SendsWritten flow h) (g : U32) {read : UdpRead}
    (hsucceeds : read.head.alloc.Succeeds ∧ read.body.alloc.Succeeds) :
    SendsWritten flow (h.udpLocalTurn g read) := by
  obtain ⟨events, halloc, heq⟩ := h.localTurn_eq_run g hsucceeds.1 hsucceeds.2
  rw [heq]
  exact sendsWritten_run hsends halloc

theorem written_turns {turns : List (U32 × UdpRead)} (hsends : SendsWritten flow h)
    (hsmall : ∀ turn ∈ turns, turn.2.datagram.length ≤ 65507)
    (hsucceeds : ∀ turn ∈ turns, turn.2.head.alloc.Succeeds ∧ turn.2.body.alloc.Succeeds) :
    SendsWritten flow (turns.foldl (fun h turn => h.udpLocalTurn turn.1 turn.2) h) ∧
      writtenTo flow (turns.foldl (fun h turn => h.udpLocalTurn turn.1 turn.2) h).log =
        writtenTo flow h.log ++ udpHeader.frames (udpTaken flow h turns) := by
  induction turns generalizing h with
  | nil => exact ⟨hsends, by simp [udpTaken]⟩
  | cons turn rest ih =>
      obtain ⟨g, read⟩ := turn
      have hfirst := hsucceeds (g, read) List.mem_cons_self
      obtain ⟨hsends', hwritten⟩ := ih (sendsWritten_turn hsends g hfirst)
        (fun turn hturn => hsmall turn (List.mem_cons_of_mem _ hturn))
        (fun turn hturn => hsucceeds turn (List.mem_cons_of_mem _ hturn))
      refine ⟨hsends', hwritten.trans ?_⟩
      rw [udpTaken, Header.frames_append, ← List.append_assoc]
      congr 1
      by_cases heq : g = flow
      · subst heq
        rw [writtenTo_turn hsends hfirst.1 (hsmall (g, read) List.mem_cons_self)]
        by_cases htakes : h.udpTakes g read = true <;> simp [htakes]
      · rw [writtenTo_turn_of_ne heq, if_neg (fun h => heq h.1)]
        simp

theorem foldl_addWritten {events : List Event} (hnone : events.any (Event.isWrote flow) = false)
    (bytes : List Byte) :
    events.foldl (addWritten flow) bytes =
      if events.any (Event.isCreated flow) then [] else bytes := by
  induction events generalizing bytes with
  | nil => rfl
  | cons event rest ih =>
      rw [List.any_cons, Bool.or_eq_false_iff] at hnone
      rw [List.foldl_cons, ih hnone.2]
      cases event with
      | created g =>
          by_cases heq : g = flow
          · simp [addWritten, Event.isCreated, heq]
          · simp [addWritten, Event.isCreated, heq]
      | wrote g data =>
          have hne : g ≠ flow := of_decide_eq_false hnone.1
          simp [addWritten, Event.isCreated, hne]
      | _ => simp [addWritten, Event.isCreated]

end Turns

theorem written_udpStep {flow : U32} {h : Host} {accepted : List (List Byte)} {e : UdpEvent}
    (hsends : SendsWritten flow h) (hwritten : writtenTo flow h.log = udpHeader.frames accepted)
    (hsmall : e.Small) (hsucceeds : e.Succeeds)
    (honly : h.writesOtherwise flow e = false) :
    SendsWritten flow (h.udpStep e) ∧
      writtenTo flow (h.udpStep e).log = udpHeader.frames (h.udpAccept flow accepted e) := by
  cases e with
  | hostRecv reads =>
      obtain ⟨hsends', hwritten'⟩ := written_turns hsends hsmall hsucceeds.1
      have heq : h.udpStep (.hostRecv reads) =
          reads.foldl (fun h turn => h.udpLocalTurn turn.1 turn.2) h :=
        List.foldl_ext _ _ _ fun h turn hturn => hostTurn_eq_localTurn (hsmall turn hturn)
      rw [heq, udpAccept, Header.frames_append, ← hwritten]
      exact ⟨hsends', hwritten'⟩
  | localRecv g reads =>
      obtain ⟨hsends', hwritten'⟩ := written_turns hsends hsmall hsucceeds.1
      have heq : h.udpStep (.localRecv g reads) =
          (UdpEvent.localRecv g reads).turns.foldl (fun h turn => h.udpLocalTurn turn.1 turn.2) h := by
        rw [udpStep, udpLocalRecv_eq, UdpEvent.turns, List.foldl_map]
      rw [heq, udpAccept, Header.frames_append, ← hwritten]
      exact ⟨hsends', hwritten'⟩
  | other env event =>
      have halloc : ∀ e ∈ [(env, event)], e.1.alloc.Succeeds := by
        simpa using hsucceeds.2 env event rfl
      obtain ⟨new, hlog⟩ := h.log_extends env event
      have hnew : h.recorded env event = new := by rw [recorded, ← hlog, List.drop_left]
      have hnone : (h.recorded env event).any (Event.isWrote flow) = false := honly
      refine ⟨sendsWritten_run hsends halloc, ?_⟩
      rw [hnew] at hnone
      rw [udpStep, ← hlog, writtenTo_append, foldl_addWritten hnone, udpAccept, hnew, hwritten]
      split <;> simp

theorem written_udpRun {flow : U32} {h : Host} {accepted : List (List Byte)}
    {events : List UdpEvent} (hsends : SendsWritten flow h)
    (hwritten : writtenTo flow h.log = udpHeader.frames accepted)
    (hsmall : ∀ e ∈ events, e.Small) (hsucceeds : ∀ e ∈ events, e.Succeeds)
    (honly : udpOnly flow h events) :
    SendsWritten flow (h.udpRun events) ∧
      writtenTo flow (h.udpRun events).log =
        udpHeader.frames (udpAccepted flow h accepted events) := by
  induction events generalizing h accepted with
  | nil => exact ⟨hsends, hwritten⟩
  | cons e rest ih =>
      obtain ⟨hfirst, hlater⟩ := Bool.and_eq_true_iff.mp honly
      obtain ⟨hsends', hwritten'⟩ := written_udpStep hsends hwritten (hsmall e List.mem_cons_self)
        (hsucceeds e List.mem_cons_self) (by simpa using hfirst)
      exact ih hsends' hwritten' (fun e he => hsmall e (List.mem_cons_of_mem _ he))
        (fun e he => hsucceeds e (List.mem_cons_of_mem _ he)) hlater

end Host

/-! ### The loop of `udp_remote_recv` -/

theorem map_copyIn (block : Block) (data : List Byte) :
    (List.range data.length).map (Rbuf.copyIn block 0 data) = data := by
  refine List.ext_getElem? fun i => ?_
  rcases Nat.lt_or_ge i data.length with hi | hi
  · simp [Rbuf.copyIn, List.getElem?_range hi, List.getElem?_eq_getElem hi]
  · rw [List.getElem?_eq_none hi, List.getElem?_eq_none (by simpa using hi)]

namespace UdpReader

variable {s : UdpReader} {env : Env} {flow : U32} {bytes : List Byte}

theorem take_frame (hreads : s.host.Reads flow bytes) (hnode : env.alloc.node = true)
    (hwhole : ¬ udpHeader.Incomplete bytes) :
    (s.take env flow (readUdpLength (bytes.take 2))).host.Reads flow
        (bytes.drop (2 + readUdpLength (bytes.take 2))) ∧
      (s.take env flow (readUdpLength (bytes.take 2))).sent =
        s.sent ++ [(bytes.drop 2).take (readUdpLength (bytes.take 2))] := by
  obtain ⟨n, hn⟩ : ∃ n, n = readUdpLength (bytes.take 2) := ⟨_, rfl⟩
  have hfits : 2 + n ≤ bytes.length := by
    rw [hn]
    exact not_lt.mp hwhole
  have hlength := hreads.length_lt
  have hskipped := hreads.skip Nat.two_pos (by omega) hnode
  have hpeek := hskipped.peek (show n < 2 ^ 32 by omega)
  have hn' : ((bytes.drop 2).take n).length = n := by
    rw [List.length_take, List.length_drop]
    omega
  rw [← hn]
  refine ⟨?_, ?_⟩
  · rw [← List.drop_drop]
    exact hskipped.recv (by rw [List.length_drop]; omega) hnode
  · have hcopy := map_copyIn s.buf ((bytes.drop 2).take n)
    rw [hn'] at hcopy
    rw [take]
    dsimp only
    rw [show (2 : U32) = BitVec.ofNat 32 2 from rfl, hpeek, Option.getD_some, hcopy]

theorem loop_frames (fuel : Nat) (hreads : s.host.Reads flow bytes) (hnode : env.alloc.node = true)
    (hfuel : bytes.length ≤ fuel) :
    ∃ messages rest, bytes = udpHeader.frames messages ++ rest ∧ udpHeader.Incomplete rest ∧
      (∀ m ∈ messages, udpHeader.Fits m) ∧
      (loop env flow fuel s bytes.length).sent = s.sent ++ messages ∧
      (loop env flow fuel s bytes.length).host.Reads flow rest := by
  induction fuel generalizing s bytes with
  | zero =>
      obtain rfl := List.length_eq_zero_iff.mp (Nat.le_zero.mp hfuel)
      exact ⟨[], [], rfl, udpHeader.incomplete_nil, by simp, (List.append_nil _).symm, hreads⟩
  | succ fuel ih =>
      have hpeek : (s.host.litedtPeek flow 2).getD [] = bytes.take 2 := by
        rw [show (2 : U32) = BitVec.ofNat 32 2 from rfl, hreads.peek (by decide), Option.getD_some]
      rw [loop]
      dsimp only
      rw [hpeek]
      by_cases hincomplete : udpHeader.Incomplete bytes
      · -- nothing is there, or a part of a frame
        have hstop : (bytes.length : Int) < readUdpLength (bytes.take 2) + 2 := by
          have : bytes.length < 2 + readUdpLength (bytes.take 2) := hincomplete
          omega
        rw [if_pos hstop, ite_self]
        exact ⟨[], bytes, rfl, hincomplete, by simp, (List.append_nil _).symm, hreads⟩
      · obtain ⟨htaken, hsent⟩ := take_frame hreads hnode hincomplete
        obtain ⟨hfits, hframe⟩ := Header.eq_frame_append hincomplete
        have hwhole : 2 + readUdpLength (bytes.take 2) ≤ bytes.length := not_lt.mp hincomplete
        have hleft : (bytes.length : Int) - (readUdpLength (bytes.take 2) + 2) =
            (bytes.drop (2 + readUdpLength (bytes.take 2))).length := by
          rw [List.length_drop]
          omega
        rw [if_neg (by omega), if_neg (by omega), hleft]
        obtain ⟨messages, rest, hbytes, hrest, hmessages, hsent', hreads'⟩ :=
          ih htaken (by rw [List.length_drop]; omega)
        refine ⟨(bytes.drop 2).take (readUdpLength (bytes.take 2)) :: messages, rest, ?_, hrest, ?_,
          ?_, hreads'⟩
        · rw [Header.frames_cons, List.append_assoc, ← hbytes]
          exact hframe
        · exact List.forall_mem_cons.mpr ⟨hfits, hmessages⟩
        · rw [hsent', hsent, List.append_assoc, List.singleton_append]

end UdpReader

/-- The calls of `udp_remote_recv` for one connection: the bytes that have become readable, the
datagrams that have been sent on, and the bytes that the last call left, which stay in front. -/
inductive UdpReceives (flow : U32) : List Byte → List (List Byte) → List Byte → Prop where
  | start : UdpReceives flow [] [] []
  | call {stream unread : List Byte} (chunk : List Byte) (s : UdpReader) (env : Env)
      (hbefore : UdpReceives flow stream s.sent unread) (hnode : env.alloc.node = true)
      (hintact : ∃ conn, s.host.findConnection flow = some conn ∧ conn.Intact)
      (hchunk : s.host.unread flow = unread ++ chunk) :
      UdpReceives flow (stream ++ chunk)
        (udpRemoteRecv env flow s (s.host.litedtReadableBytes flow)).sent
        ((udpRemoteRecv env flow s (s.host.litedtReadableBytes flow)).host.unread flow)

theorem UdpReceives.division {flow : U32} {stream unread : List Byte} {sent : List (List Byte)}
    (hreceives : UdpReceives flow stream sent unread) :
    stream = udpHeader.frames sent ++ unread ∧ udpHeader.Incomplete unread ∧
      ∀ m ∈ sent, udpHeader.Fits m := by
  induction hreceives with
  | start => exact ⟨rfl, udpHeader.incomplete_nil, by simp⟩
  | call chunk s env _ hnode hintact hchunk ih =>
      obtain ⟨hstream, -, hsent⟩ := ih
      obtain ⟨conn, hfind, hintact⟩ := hintact
      have hreads := Host.reads_unread hfind hintact
      rw [hreads.readable, udpRemoteRecv, Int.toNat_natCast]
      obtain ⟨messages, rest, hbytes, hrest, hmessages, hsent', hreads'⟩ :=
        UdpReader.loop_frames _ hreads hnode le_rfl
      rw [hsent', hreads'.unread_eq]
      refine ⟨?_, hrest, fun m hm => (List.mem_append.mp hm).elim (hsent m) (hmessages m)⟩
      rw [hstream, Header.frames_append, List.append_assoc, ← hchunk, hbytes, List.append_assoc]

/-! ### From one end to the other -/

/-- `send_buf` holds `bytes`, up to the part in front that has been released. -/
def Stream.Carries (c : Stream) (bytes : List Byte) : Prop :=
  ∃ acked ≤ bytes.length, c.sendBuf.startPos = wire acked ∧
    c.sendBuf.rbufRead c.sendBuf.startPos c.sendBuf.rbufReadableBytes.toNat =
      some (bytes.drop acked)

theorem Held.carries {c : Stream} {bytes : List Byte} (hheld : Held c bytes) : c.Carries bytes := by
  have hbase := hheld.filled.base_le
  have hstart := hheld.filled.ring.start
  obtain ⟨data, hread, hlength, hget⟩ :=
    hheld.filled.rbufRead_eq le_rfl (show c.acked + (bytes.length - c.acked) ≤ bytes.length by omega)
  refine ⟨c.acked, hbase, hstart, ?_⟩
  rw [hstart, hheld.filled.rbufReadableBytes_toNat, hread, Option.some.injEq]
  refine List.ext_getElem? fun i => ?_
  rw [List.getElem?_drop]
  rcases Nat.lt_or_ge i (bytes.length - c.acked) with hi | hi
  · rw [hget i hi, hheld.cell_eq _ (by omega) (by omega)]
  · rw [List.getElem?_eq_none (by omega), List.getElem?_eq_none (by omega)]

/-- A beginning of the next frame, if there is one, and not the whole of it. -/
def PartOfNext (unread : List Byte) (coming : List (List Byte)) : Prop :=
  unread = [] ∨ ∃ next rest, coming = next :: rest ∧ unread <+: udpHeader.frame next ∧
    unread ≠ udpHeader.frame next

theorem Host.udpTaken_small {flow : U32} {h : Host} {turns : List (U32 × UdpRead)}
    (hsmall : ∀ turn ∈ turns, turn.2.datagram.length ≤ 65507) :
    ∀ m ∈ udpTaken flow h turns, m.length ≤ 65507 := by
  induction turns generalizing h with
  | nil => simp [udpTaken]
  | cons turn rest ih =>
      obtain ⟨g, read⟩ := turn
      intro m hm
      rw [udpTaken] at hm
      rcases List.mem_append.mp hm with hm | hm
      · split at hm
        · rw [List.mem_singleton.mp hm]
          exact hsmall (g, read) List.mem_cons_self
        · cases hm
      · exact ih (fun turn hturn => hsmall turn (List.mem_cons_of_mem _ hturn)) m hm

theorem Host.udpAccepted_small {flow : U32} {h : Host} {accepted : List (List Byte)}
    {events : List UdpEvent} (hsmall : ∀ e ∈ events, e.Small)
    (haccepted : ∀ m ∈ accepted, m.length ≤ 65507) :
    ∀ m ∈ udpAccepted flow h accepted events, m.length ≤ 65507 := by
  induction events generalizing h accepted with
  | nil => exact haccepted
  | cons e rest ih =>
      refine ih (fun e he => hsmall e (List.mem_cons_of_mem _ he)) fun m hm => ?_
      have hfirst := hsmall e List.mem_cons_self
      cases e with
      | hostRecv reads =>
          exact (List.mem_append.mp hm).elim (haccepted m) (udpTaken_small hfirst m)
      | localRecv g reads =>
          exact (List.mem_append.mp hm).elim (haccepted m) (udpTaken_small hfirst m)
      | other env event =>
          rw [udpAccept] at hm
          split at hm
          · cases hm
          · exact haccepted m hm

/-- **Datagrams arrive as they were sent.** With enough memory, `send_buf` holds the frames of the
datagrams that the flow has taken. However the stream becomes readable, `udp_remote_recv` sends on
the first of these datagrams, and leaves a part of the next frame. -/
theorem Host.udp_lossless {cfg : Config} (hsize : cfg.bufferSize.toNat < 2 ^ 31) (nodeId : U16)
    (now : Time) (flow : U32) {events : List UdpEvent} (hsmall : ∀ e ∈ events, e.Small)
    (hsucceeds : ∀ e ∈ events, e.Succeeds) (honly : udpOnly flow (litedtInit cfg nodeId now) events) :
    (∀ conn, ((litedtInit cfg nodeId now).udpRun events).findConnection flow = some conn →
      conn.Carries (udpHeader.frames (udpAccepted flow (litedtInit cfg nodeId now) [] events))) ∧
    ∀ stream sent unread, UdpReceives flow stream sent unread →
      stream <+: udpHeader.frames (udpAccepted flow (litedtInit cfg nodeId now) [] events) →
      (∃ coming, udpAccepted flow (litedtInit cfg nodeId now) [] events = sent ++ coming ∧
        PartOfNext unread coming) ∧
      (stream = udpHeader.frames (udpAccepted flow (litedtInit cfg nodeId now) [] events) →
        sent = udpAccepted flow (litedtInit cfg nodeId now) [] events ∧ unread = []) := by
  have hempty : writtenTo flow (litedtInit cfg nodeId now).log = udpHeader.frames [] := rfl
  obtain ⟨hsends, hwritten⟩ :=
    written_udpRun (sendsWritten_init hsize nodeId now flow) hempty hsmall hsucceeds honly
  have hfits' : ∀ m ∈ udpAccepted flow (litedtInit cfg nodeId now) [] events, udpHeader.Fits m :=
    fun m hm => fits_of_le (udpAccepted_small hsmall (by simp) m hm)
  refine ⟨fun conn hfind => ?_, fun stream sent unread hreceives hbegins => ⟨?_, fun hwhole => ?_⟩⟩
  · rw [← hwritten]
    exact (hsends.holds conn.toStream (view_stream_of_find hfind)).carries
  · obtain ⟨hstream, hincomplete, hfits⟩ := hreceives.division
    rw [hstream] at hbegins
    obtain ⟨coming, hcoming, hunread, hshort⟩ :=
      Header.division_unique hincomplete hfits hfits' hbegins
    refine ⟨coming, hcoming, ?_⟩
    cases coming with
    | nil => exact .inl (List.prefix_nil.mp hunread)
    | cons next rest =>
        have hlt := hshort next rest rfl
        refine .inr ⟨next, rest, rfl, ?_, fun heq => absurd hlt (by rw [heq]; exact lt_irrefl _)⟩
        exact List.prefix_of_prefix_length_le hunread (List.prefix_append _ _) hlt.le
  · obtain ⟨hstream, hincomplete, hfits⟩ := hreceives.division
    exact Header.division_whole hincomplete hfits hfits' (hstream.symm.trans hwhole)

def plainHost (nodeId : U16) : Host :=
  .litedtInit (.globalConfigInit Config.plainToken) nodeId 0

def threeDatagrams : List UdpEvent :=
  [.other (.plain 0) (.io (.connectReq 7 0)),
    .hostRecv [(7, ⟨[0x41], .plain 0, .plain 0⟩), (7, ⟨[], .plain 0, .plain 0⟩)],
    .localRecv 7 [⟨[0x42, 0x43], .plain 0, .plain 0⟩]]

/-- What the other end does when the flow is opened and `posts` come in. -/
def receiving (posts : List DataPost) : List (Env × HostEvent) :=
  (.plain 0, .io (.connectReq 7 0)) :: posts.map (fun post => (.plain 0, .io (.dataPost 7 post)))

theorem UdpReceives.receiving {stream unread unread' : List Byte} {sent sent' : List (List Byte)}
    {s : UdpReader} (hbefore : UdpReceives 7 stream sent unread) (chunk : List Byte) (posts : List DataPost)
    (hfound : (((plainHost 2).run (receiving posts)).findConnection 7).isSome)
    (hchunk : ((plainHost 2).run (receiving posts)).unread 7 = unread ++ chunk)
    (hcall : udpRemoteRecv (.plain 0) 7 ⟨(plainHost 2).run (receiving posts), fun _ => 0, sent⟩
      (((plainHost 2).run (receiving posts)).litedtReadableBytes 7) = s)
    (hsent : s.sent = sent') (hunread : s.host.unread 7 = unread') :
    UdpReceives 7 (stream ++ chunk) sent' unread' := by
  obtain ⟨conn, hfind⟩ := Option.isSome_iff_exists.mp hfound
  have hintact : conn.Intact := Host.intact_run (by decide) 2 0
    (by simp [Liteflow.receiving, Env.plain_succeeds]) hfind
  rw [← hunread, ← hsent, ← hcall]
  exact .call chunk _ _ hbefore rfl ⟨conn, hfind, hintact⟩ hchunk

/-- The stream of `threeDatagrams` is cut inside the first header and inside the second. -/
theorem udp_lossless_threeDatagrams :
    UdpReceives 7 [1, 0, 0x41, 0] [[0x41]] [0] ∧
      ∃ coming, Host.udpAccepted 7 (plainHost 1) [] threeDatagrams = [[0x41]] ++ coming ∧
        PartOfNext [0] coming := by
  have hfirst : UdpReceives 7 [1] [] [1] :=
    UdpReceives.start.receiving [1] [⟨0, 1, 0, 0, [1]⟩] (by decide +kernel) (by decide +kernel) rfl
      (by decide +kernel) (by decide +kernel)
  have hreceives : UdpReceives 7 [1, 0, 0x41, 0] [[0x41]] [0] :=
    hfirst.receiving [0, 0x41, 0] [⟨0, 1, 0, 0, [1]⟩, ⟨1, 3, 0, 0, [0, 0x41, 0]⟩] (by decide +kernel)
      (by decide +kernel) rfl (by decide +kernel) (by decide +kernel)
  have hsucceeds : ∀ e ∈ threeDatagrams, e.Succeeds := by
    simp [threeDatagrams, UdpEvent.Succeeds, UdpEvent.turns, untilEmpty, Env.plain_succeeds,
      -Prod.forall]
  have honly : Host.udpOnly 7 (.litedtInit (.globalConfigInit Config.plainToken) 1 0)
      threeDatagrams = true := by decide +kernel
  have hlossless := Host.udp_lossless (by decide) 1 0 7 (by decide) hsucceeds honly
  exact ⟨hreceives, (hlossless.2 _ _ _ hreceives (by decide +kernel)).1⟩

/-- Two datagrams. There is no memory for a block when the length of the first is sent. -/
def lostHeader : List UdpEvent :=
  [.other (.plain 0) (.io (.connectReq 7 0)),
    .hostRecv [(7, ⟨[0x41], { Env.plain 0 with alloc := ⟨true, fun _ => none⟩ }, .plain 0⟩),
      (7, ⟨[0x42], .plain 0, .plain 0⟩)]]

/-- `litedt_send` reports the length as sent although it is lost. Its range stays in the map, so that
the contents count as sent before, and the frame of the second datagram begins at the second byte:
with what the block has before it, its length is read as a longer one, and nothing is sent on. -/
theorem udp_lossless_lostHeader :
    (∀ e ∈ lostHeader, e.Small) ∧ Host.udpOnly 7 (plainHost 1) lostHeader = true ∧
      Host.udpAccepted 7 (plainHost 1) [] lostHeader = [[0x41], [0x42]] ∧
      (((plainHost 1).udpRun lostHeader).findConnection 7).bind (fun conn =>
        conn.sendBuf.rbufReadFront 9) = some [0, 1, 0, 0x42] ∧
      UdpReceives 7 [0, 1, 0, 0x42] [] [0, 1, 0, 0x42] := by
  refine ⟨by decide, by decide +kernel, by decide +kernel,
    by decide +kernel, ?_⟩
  exact UdpReceives.start.receiving [0, 1, 0, 0x42] [⟨0, 4, 0, 0, [0, 1, 0, 0x42]⟩]
    (by decide +kernel) (by decide +kernel) rfl (by decide +kernel) (by decide +kernel)

end Liteflow

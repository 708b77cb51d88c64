import Liteflow.Proof.Keyed
import Liteflow.Proof.Rbuffer
import Liteflow.Proof.Frames

/-!
# The sending half of a stream

`send_buf` holds the bytes that have been written and not yet acknowledged. What has been sent of them
is covered by the entries of `packet_list`, which do not overlap. An entry either waits in
`waiting_queue` or has exactly one entry in the retransmission queue of the host, so that the two
queues never point to an entry that has been released.

Nothing here depends on what the peer sends.
-/

namespace Liteflow

/-- The entries of the packets sent lie between `lo` and `snd`, and the two queues agree with them;
`ready` counts those of the retransmission queue. -/
structure Outstanding (c : Stream) (ready : U32 → Nat) (lo snd : Nat)
    (packets : List (Nat × PacketEntry)) : Prop where
  keyed : Keyed c.packetList lo snd packets
  disjoint : packets.Pairwise (fun a b => a.1 + a.2.length.toNat ≤ b.1)
  seq_eq : ∀ e ∈ packets, e.2.seq = wire e.1
  length_pos : ∀ e ∈ packets, 0 < e.2.length.toNat
  end_le : ∀ e ∈ packets, e.1 + e.2.length.toNat ≤ snd
  nodup : c.waitingQueue.Nodup
  mem_waiting : ∀ key, key ∈ c.waitingQueue ↔ ∃ e ∈ packets, wire e.1 = key ∧ e.2.isReady = false
  ready_eq_one : ∀ e ∈ packets, e.2.isReady = true → ready (wire e.1) = 1
  ready_eq_zero : ∀ key, (∀ e ∈ packets, wire e.1 = key → e.2.isReady = false) → ready key = 0

/-- The send window: `snd` is the position of `send_seq`, `fin` that of `write_seq`. -/
structure Sending (c : Stream) (ready : U32 → Nat) (snd fin : Nat)
    (packets : List (Nat × PacketEntry)) : Prop extends
    Outstanding c ready c.acked snd packets where
  filled : Rbuf.Filled c.sendBuf c.acked fin
  swinStart_eq : c.swinStart = wire c.acked
  writeSeq_eq : c.writeSeq = wire fin
  sendSeq_eq : c.sendSeq = wire snd
  acked_le : c.acked ≤ snd
  snd_le : snd ≤ fin

variable {c c' : Stream} {ready : U32 → Nat} {lo snd fin : Nat}
  {packets before after : List (Nat × PacketEntry)}

theorem Outstanding.of_eq (hout : Outstanding c ready lo snd packets)
    (hlist : c'.packetList = c.packetList) (hqueue : c'.waitingQueue = c.waitingQueue) :
    Outstanding c' ready lo snd packets :=
  { hout with
    keyed := hlist ▸ hout.keyed
    nodup := hqueue ▸ hout.nodup
    mem_waiting := hqueue ▸ hout.mem_waiting }

theorem Sending.of_frame (hsending : Sending c ready snd fin packets) (hframe : SendFrame c c') :
    Sending c' ready snd fin packets where
  toOutstanding := by
    rw [hframe.acked_eq]
    exact hsending.toOutstanding.of_eq hframe.packetList_eq hframe.waitingQueue_eq
  filled := by
    rw [hframe.sendBuf_eq, hframe.acked_eq]
    exact hsending.filled
  swinStart_eq := by rw [hframe.swinStart_eq, hframe.acked_eq, hsending.swinStart_eq]
  writeSeq_eq := hframe.writeSeq_eq.trans hsending.writeSeq_eq
  sendSeq_eq := hframe.sendSeq_eq.trans hsending.sendSeq_eq
  acked_le := hframe.acked_eq ▸ hsending.acked_le
  snd_le := hsending.snd_le

theorem Sending.fin_lt (hsending : Sending c ready snd fin packets) : fin < c.acked + 2 ^ 31 := by
  have := hsending.filled.fin_le
  have := hsending.filled.ring.windowEnd_lt
  omega

theorem sending_newConn {cfg : Config} (hsize : cfg.bufferSize.toNat < 2 ^ 31) (now : Time)
    (tunnelId : U16) (state : ConnState) :
    Sending (Host.newConn cfg now tunnelId state).toStream (fun _ => 0) 0 0 [] where
  keyed := .nil (show 0 < 0 + 2 ^ 31 by decide)
  disjoint := .nil
  seq_eq := by simp
  length_pos := by simp
  end_le := by simp
  nodup := List.nodup_nil
  mem_waiting := by simp [Host.newConn]
  ready_eq_one := by simp
  ready_eq_zero := fun _ _ => rfl
  filled := Rbuf.filled_init (lt_of_le_of_lt (Nat.div_mul_le_self _ _) hsize)
  swinStart_eq := rfl
  writeSeq_eq := rfl
  sendSeq_eq := rfl
  acked_le := le_rfl
  snd_le := le_rfl

/-! ### Writing and first transmissions -/

theorem Sending.write (hsending : Sending c ready snd fin packets) {alloc : Alloc}
    (halloc : alloc.Succeeds) {data : List Byte} (hpos : 0 < data.length)
    (hfits : data.length ≤ c.sendBuf.rbufWritableBytes.toNat) :
    Sending (c.write alloc data) ready snd (fin + data.length) packets ∧
      (∀ q, c.acked ≤ q → q < fin →
        (c.write alloc data).sendBuf.cell c.acked q = c.sendBuf.cell c.acked q) ∧
      ∀ q, fin ≤ q → q < fin + data.length →
        (c.write alloc data).sendBuf.cell c.acked q = data[q - fin]? := by
  rw [hsending.filled.rbufWritableBytes_toNat] at hfits
  obtain ⟨rb, hwrite, hfilled, -, hold, hnew⟩ :=
    hsending.filled.rbufWriteFront_eq halloc hpos (by omega)
  have hwritten : c.write alloc data = { c with sendBuf := rb, writeSeq := rb.writePos } := by
    unfold Stream.write
    rw [hwrite]
  rw [hwritten]
  refine ⟨?_, hold, hnew⟩
  exact
    { hsending.toOutstanding.of_eq rfl rfl with
      filled := hfilled
      swinStart_eq := hsending.swinStart_eq
      writeSeq_eq := hfilled.writePos_eq
      sendSeq_eq := hsending.sendSeq_eq
      acked_le := hsending.acked_le
      snd_le := by have := hsending.snd_le; omega }

theorem Outstanding.raise (hout : Outstanding c ready lo snd packets) (snd' : Nat)
    (hsnd : snd ≤ snd') (hspan : snd' < lo + 2 ^ 31) : Outstanding c ready lo snd' packets :=
  { hout with
    keyed := hout.keyed.widen hspan fun e he => by
      have := hout.keyed.inside e he
      omega
    end_le := fun e he => (hout.end_le e he).trans hsnd }

theorem Outstanding.addPacket {p : Nat} {packet : PacketEntry}
    (hout : Outstanding c ready lo snd packets) (hlo : lo ≤ p) (hlast : ∀ e ∈ packets,
      e.1 + e.2.length.toNat ≤ p) (hseq : packet.seq = wire p) (hlen : 0 < packet.length.toNat)
    (hend : p + packet.length.toNat ≤ snd) (hready : packet.isReady = false) :
    c.enter true packet = c.addPacket true packet ∧
      Outstanding (c.addPacket true packet) ready lo snd (packets ++ [(p, packet)]) := by
  have hlt : ∀ e ∈ packets, e.1 < p := fun e he => by
    have := hlast e he
    have := hout.length_pos e he
    omega
  have hget := hout.keyed.get_none hlo (by omega) fun e he => (hlt e he).ne
  obtain ⟨hret, hkeyed⟩ := hout.keyed.insert_last hlo (by omega) hlt packet
  have hadd : c.addPacket true packet =
      { c with
        packetList := (c.packetList.treemapInsert seqCmp (wire p) packet).2
        waitingQueue := c.waitingQueue ++ [wire p] } := by
    unfold Stream.addPacket
    rw [hseq]
    split
    · rename_i list hinsert
      rw [hinsert]
    · rename_i hnone
      have hinsert : c.packetList.treemapInsert seqCmp (wire p) packet =
          (0, (c.packetList.treemapInsert seqCmp (wire p) packet).2) := Prod.ext hret rfl
      exact absurd hinsert (hnone _ rfl)
  refine ⟨by rw [Stream.enter, hseq, hget]; simp, ?_⟩
  rw [hadd]
  have hnew : wire p ∉ c.waitingQueue := by
    rw [hout.mem_waiting]
    rintro ⟨e, he, hkey, -⟩
    have hin := hout.keyed.inside e he
    have hspan := hout.keyed.span
    have := wire_inj (m := e.1) (n := p) (by omega) (by omega) hkey
    exact (hlt e he).ne this
  refine ⟨hkeyed, ?_, ?_, ?_, ?_, ?_, fun key => ?_, ?_, fun key hkey => ?_⟩
  · rw [List.pairwise_append]
    exact ⟨hout.disjoint, by simp, fun e he e' he' => by
      obtain rfl := List.mem_singleton.mp he'
      exact hlast e he⟩
  · exact List.forall_mem_append.mpr ⟨hout.seq_eq, by simpa using hseq⟩
  · exact List.forall_mem_append.mpr ⟨hout.length_pos, by simpa using hlen⟩
  · exact List.forall_mem_append.mpr ⟨hout.end_le, by simpa using hend⟩
  · exact List.nodup_append.mpr ⟨hout.nodup, by simp, fun a ha b hb => by
      obtain rfl := List.mem_singleton.mp hb
      exact fun heq => hnew (heq ▸ ha)⟩
  · simp only [List.mem_append, List.mem_singleton, hout.mem_waiting key]
    constructor
    · rintro (⟨e, he, hkey⟩ | rfl)
      · exact ⟨e, .inl he, hkey⟩
      · exact ⟨(p, packet), .inr rfl, rfl, hready⟩
    · rintro ⟨e, he | rfl, hkey⟩
      · exact .inl ⟨e, he, hkey⟩
      · exact .inr hkey.1.symm
  · exact List.forall_mem_append.mpr ⟨hout.ready_eq_one, by simp [hready]⟩
  · exact hout.ready_eq_zero key fun e he => hkey e (by simp [he])

theorem Sending.posted (hsending : Sending c ready snd fin packets) {cfg : Config}
    {packet : PacketEntry} (hfirst : FirstPacket cfg c packet) :
    Sending (c.posted cfg true packet) ready (snd + packet.length.toNat) fin
      (packets ++ [(snd, packet)]) := by
  have hfin := hsending.fin_lt
  have hacked := hsending.acked_le
  have hsnd := hsending.snd_le
  have hlen : packet.length.toNat ≤ fin - snd := by
    have hle := hfirst.length_le
    rwa [hsending.writeSeq_eq, hsending.sendSeq_eq, toNat_wire_sub hsnd (by omega)] at hle
  have hpos : 0 < packet.length.toNat := by
    have hne := hfirst.length_pos
    rw [ne_eq, ← BitVec.toNat_inj] at hne
    exact Nat.pos_of_ne_zero hne
  obtain ⟨henter, hout⟩ := (hsending.toOutstanding.raise (snd + packet.length.toNat)
    (by omega) (by omega)).addPacket hacked hsending.end_le
    (hfirst.seq_eq.trans hsending.sendSeq_eq) hpos le_rfl hfirst.waiting
  have hframe : ∀ fec : FecMod, Sending (((c.addPacket true packet).setFec fec).advance
      packet.length) ready (snd + packet.length.toNat) fin (packets ++ [(snd, packet)]) := by
    intro fec
    have hadd : ∃ list queue, c.addPacket true packet =
        { c with packetList := list, waitingQueue := queue } := by
      unfold Stream.addPacket
      split
      · exact ⟨_, _, rfl⟩
      · exact ⟨_, _, rfl⟩
    obtain ⟨list, queue, hadd⟩ := hadd
    rw [hadd] at hout ⊢
    exact
      { hout.of_eq rfl rfl with
        filled := hsending.filled
        swinStart_eq := hsending.swinStart_eq
        writeSeq_eq := hsending.writeSeq_eq
        sendSeq_eq := by
          rw [wire_add, ← hsending.sendSeq_eq]
          simp [Stream.advance, Stream.setFec, wire]
        acked_le := show c.acked ≤ _ by omega
        snd_le := by omega }
  unfold Stream.posted
  dsimp only
  rw [henter]
  split
  · exact hframe _
  · exact hframe (c.addPacket true packet).fec

/-! ### Acknowledgements -/

theorem Outstanding.removePacket {p : Nat} {packet : PacketEntry}
    (hout : Outstanding c ready lo snd (before ++ (p, packet) :: after)) :
    Outstanding (c.removePacket (wire p) packet) (unready ready [packet]) lo snd
      (before ++ after) := by
  have hsub : ∀ e ∈ before ++ after, e ∈ before ++ (p, packet) :: after :=
    fun e he => mem_middle.mpr (.inr he)
  have hseq : packet.seq = wire p := hout.seq_eq (p, packet) (by simp)
  have hne := hout.keyed.others_ne
  refine ⟨?_, ?_, fun e he => hout.seq_eq e (hsub e he), fun e he => hout.length_pos e (hsub e he),
    fun e he => hout.end_le e (hsub e he), ?_, fun key => ?_, fun e he hisReady => ?_,
    fun key hkey => ?_⟩
  · unfold Stream.removePacket
    rw [hseq]
    exact hout.keyed.delete_split
  · exact hout.disjoint.sublist ((List.sublist_cons_self _ _).append_left before)
  · unfold Stream.removePacket
    dsimp only
    split
    · exact hout.nodup
    · exact hout.nodup.erase _
  · have hmem := hout.mem_waiting key
    rw [exists_middle] at hmem
    unfold Stream.removePacket
    dsimp only
    split
    · rename_i hisReady
      rw [hmem]
      simp [hisReady]
    · rw [hout.nodup.mem_erase_iff, hmem]
      constructor
      · rintro ⟨hkey, hwaiting | hwaiting⟩
        · exact absurd hwaiting.1.symm hkey
        · exact hwaiting
      · rintro ⟨e, he, hkey, hisReady⟩
        exact ⟨hkey ▸ hne e he, .inr ⟨e, he, hkey, hisReady⟩⟩
  · unfold unready
    simp only [List.foldl_cons, List.foldl_nil]
    split
    · rw [Function.update_of_ne (hseq ▸ hne e he)]
      exact hout.ready_eq_one e (hsub e he) hisReady
    · exact hout.ready_eq_one e (hsub e he) hisReady
  · unfold unready
    simp only [List.foldl_cons, List.foldl_nil]
    have hzero : (wire p = key → packet.isReady = false) → ready key = 0 := fun hpacket =>
      hout.ready_eq_zero key (forall_middle.mpr ⟨hpacket, hkey⟩)
    split
    · rw [Function.update_apply]
      split
      · rfl
      · rename_i hkey'
        exact hzero fun heq => absurd (heq.symm.trans hseq.symm) hkey'
    · rename_i hisReady
      exact hzero fun _ => by simpa using hisReady

theorem Outstanding.removePacket_first {e : Nat × PacketEntry}
    (hout : Outstanding c ready lo snd (e :: after)) :
    Outstanding (c.removePacket (wire e.1) e.2) (unready ready [e.2]) lo snd after := by
  rw [← List.nil_append (e :: after)] at hout
  exact hout.removePacket

theorem Outstanding.lt_rest {e : Nat × PacketEntry}
    (hout : Outstanding c ready lo snd (e :: after)) : ∀ e' ∈ after, e.1 < e'.1 :=
  (List.pairwise_cons.mp hout.keyed.sorted).1

theorem unready_cons (ready : U32 → Nat) (packet : PacketEntry) (packets : List PacketEntry) :
    unready ready (packet :: packets) = unready (unready ready [packet]) packets := rfl

theorem Outstanding.rangeLoop (seqEnd : U32) : ∀ (rest : List (Nat × PacketEntry)) {fuel : Nat}
    {c : Stream} {ready : U32 → Nat}, rest.length ≤ fuel →
    Outstanding c ready lo snd (before ++ rest) →
    ∃ gone kept, rest = gone ++ kept ∧
      (c.rangeLoop seqEnd fuel (wireEntries rest).head?).2 = gone.map Prod.snd ∧
      (∀ e ∈ gone, lessEqual seqEnd e.2.seq = false) ∧
      Outstanding (c.rangeLoop seqEnd fuel (wireEntries rest).head?).1
        (unready ready (gone.map Prod.snd)) lo snd (before ++ kept) := by
  intro rest
  induction rest with
  | nil =>
      intro fuel c ready _ hout
      have hstop : c.rangeLoop seqEnd fuel (wireEntries ([] : List (Nat × PacketEntry))).head? =
          (c, []) := by
        cases fuel <;> rfl
      rw [hstop]
      exact ⟨[], [], rfl, rfl, by simp, hout⟩
  | cons entry rest ih =>
      intro fuel c ready hfuel hout
      obtain ⟨fuel, rfl⟩ : ∃ n, fuel = n + 1 := ⟨fuel - 1, by simp at hfuel; omega⟩
      obtain ⟨p, packet⟩ := entry
      simp only [wireEntries, List.map_cons, List.head?_cons, Stream.rangeLoop]
      by_cases hend : lessEqual seqEnd packet.seq = true
      · rw [if_pos hend]
        exact ⟨[], (p, packet) :: rest, rfl, rfl, by simp, hout⟩
      · rw [if_neg hend, hout.keyed.next_split]
        obtain ⟨gone, kept, rfl, hgone, hbefore, hout'⟩ :=
          ih (by simp at hfuel; omega) hout.removePacket
        refine ⟨(p, packet) :: gone, kept, rfl, by simp [hgone], ?_, ?_⟩
        · exact List.forall_mem_cons.mpr ⟨by simpa using hend, hbefore⟩
        · rw [List.map_cons, unready_cons]
          exact hout'

theorem Outstanding.releaseRange (hout : Outstanding c ready lo snd packets)
    (seqStart seqEnd : U32) :
    ∃ before gone kept, packets = before ++ (gone ++ kept) ∧
      (c.releaseRange seqStart seqEnd).2 = gone.map Prod.snd ∧
      (∀ e ∈ gone, lessEqual seqEnd e.2.seq = false) ∧
      Outstanding (c.releaseRange seqStart seqEnd).1 (unready ready (gone.map Prod.snd)) lo snd
        (before ++ kept) ∧
      c.packetList.treemapLowerBound seqCmp seqStart = (wireEntries (gone ++ kept)).head? := by
  unfold Stream.releaseRange
  obtain ⟨before, rest, rfl, hbound⟩ : ∃ before rest, packets = before ++ rest ∧
      c.packetList.treemapLowerBound seqCmp seqStart = (wireEntries rest).head? := by
    cases hbound : c.packetList.treemapLowerBound seqCmp seqStart with
    | none => exact ⟨packets, [], by simp, rfl⟩
    | some entry =>
        have hmem := Treemap.treemapLowerBound_mem hbound
        rw [hout.keyed.toList_eq] at hmem
        obtain ⟨e, he, rfl⟩ := List.mem_map.mp hmem
        obtain ⟨before, after, rfl⟩ := List.append_of_mem he
        exact ⟨before, e :: after, rfl, rfl⟩
  rw [hbound]
  have hfuel : rest.length ≤ c.packetList.treemapSize := by
    rw [hout.keyed.size]
    simp
  obtain ⟨gone, kept, rfl, hgone, hbefore, hout'⟩ := Outstanding.rangeLoop seqEnd rest hfuel hout
  exact ⟨before, gone, kept, rfl, hgone, hbefore, hout', rfl⟩

theorem Outstanding.checkpointLoop {base : Nat} (hlo : lo ≤ base) (hsnd : base ≤ snd) :
    ∀ (packets : List (Nat × PacketEntry)) {fuel : Nat} {c : Stream} {ready : U32 → Nat},
    packets.length ≤ fuel → Outstanding c ready lo snd packets →
    ∃ gone kept, packets = gone ++ kept ∧
      (c.checkpointLoop (wire base) fuel).2 = gone.map Prod.snd ∧
      (∀ e ∈ gone, e.1 < base) ∧ (∀ e ∈ kept, base ≤ e.1) ∧
      Outstanding (c.checkpointLoop (wire base) fuel).1 (unready ready (gone.map Prod.snd)) lo snd
        kept := by
  intro packets
  induction packets with
  | nil =>
      intro fuel c ready _ hout
      have hstop : c.checkpointLoop (wire base) fuel = (c, []) := by
        cases fuel with
        | zero => rfl
        | succ fuel => rw [Stream.checkpointLoop, hout.keyed.first]; rfl
      rw [hstop]
      exact ⟨[], [], rfl, rfl, by simp, by simp, hout⟩
  | cons entry rest ih =>
      intro fuel c ready hfuel hout
      obtain ⟨fuel, rfl⟩ : ∃ n, fuel = n + 1 := ⟨fuel - 1, by simp at hfuel; omega⟩
      obtain ⟨p, packet⟩ := entry
      have hin := hout.keyed.inside (p, packet) (by simp)
      have hspan := hout.keyed.span
      have hle : lessEqual (wire base) packet.seq = true ↔ base ≤ p := by
        rw [hout.seq_eq (p, packet) (by simp)]
        exact lessEqual_wire (by dsimp only at hin; omega) (by dsimp only at hin ⊢; omega)
      rw [Stream.checkpointLoop, hout.keyed.first]
      simp only [wireEntries, List.map_cons, List.head?_cons]
      by_cases hbase : base ≤ p
      · rw [if_pos (hle.mpr hbase)]
        refine ⟨[], (p, packet) :: rest, rfl, rfl, by simp, ?_, hout⟩
        refine List.forall_mem_cons.mpr ⟨hbase, fun e he => ?_⟩
        have := hout.lt_rest e he
        omega
      · rw [if_neg (fun h => hbase (hle.mp h))]
        obtain ⟨gone, kept, rfl, hgone, hbefore, hkept, hout'⟩ :=
          ih (by simp at hfuel; omega) (hout.removePacket_first)
        refine ⟨(p, packet) :: gone, kept, rfl, by simp [hgone], ?_, hkept, ?_⟩
        · exact List.forall_mem_cons.mpr ⟨by omega, hbefore⟩
        · rw [List.map_cons, unready_cons]
          exact hout'

theorem Sending.of_relisted (hsending : Sending c ready snd fin packets) {ready' : U32 → Nat}
    {packets' : List (Nat × PacketEntry)} (hrelisted : Relisted c c')
    (hout : Outstanding c' ready' c.acked snd packets') : Sending c' ready' snd fin packets' := by
  obtain ⟨list, queue, rfl⟩ := hrelisted
  exact
    { hout with
      filled := hsending.filled
      swinStart_eq := hsending.swinStart_eq
      writeSeq_eq := hsending.writeSeq_eq
      sendSeq_eq := hsending.sendSeq_eq
      acked_le := hsending.acked_le
      snd_le := hsending.snd_le }

theorem Sending.winStart_eq (hsending : Sending c ready snd fin packets) {ack : DataAck}
    (hwindow : c.inWindow ack = true) :
    c.acked + (ack.winStart - c.swinStart).toNat ≤ snd ∧
      ack.winStart = wire (c.acked + (ack.winStart - c.swinStart).toNat) := by
  have hfin := hsending.fin_lt
  have hacked := hsending.acked_le
  have hsnd := hsending.snd_le
  simp only [Stream.inWindow, Bool.and_eq_true] at hwindow
  have hsum := Serial.toNat_sub_add_toNat_sub (by decide) hwindow.1 hwindow.2
  rw [hsending.sendSeq_eq, hsending.swinStart_eq, toNat_wire_sub hacked (by omega)] at hsum
  rw [hsending.swinStart_eq]
  exact ⟨by omega, (Serial.ofNat_add_toNat_sub _ _).symm⟩

theorem Sending.moveSwin (hsending : Sending c ready snd fin packets) (now : Time) {ack : DataAck}
    {base : Nat} (hacked : c.acked ≤ base) (hbase : base ≤ snd) (hwin : ack.winStart = wire base) :
    ∃ rb, Rbuf.Filled rb base fin ∧
      (∀ q, base ≤ q → q < fin → rb.cell base q = c.sendBuf.cell c.acked q) ∧
      c.moveSwin true now ack = some
        { c with
          lastSyncTime := now
          swinStart := ack.winStart
          swinSize := umin ack.winSize swndMaxSize
          sendBuf := rb
          acked := base } := by
  have hfin := hsending.fin_lt
  have hsnd := hsending.snd_le
  have hdist : ack.winStart - c.sendBuf.startPos = wire (base - c.acked) := by
    rw [hwin, hsending.filled.ring.start, wire_sub hacked]
  have hsize : (wire (base - c.acked)).toNat = base - c.acked := by
    rw [wire_toNat, Nat.mod_eq_of_lt (by omega)]
  unfold Stream.moveSwin
  dsimp only
  rw [hdist]
  by_cases heq : base = c.acked
  · subst heq
    refine ⟨c.sendBuf, hsending.filled, fun _ _ _ => rfl, ?_⟩
    rw [if_pos (by simp [wire])]
  · obtain ⟨rb, hrel, hfilled, -, hcell⟩ :=
      hsending.filled.rbufRelease_eq (n := base - c.acked) (by omega)
    have hsum : c.acked + (base - c.acked) = base := by omega
    rw [hsum] at hfilled hcell
    refine ⟨rb, hfilled, hcell, ?_⟩
    have hne : wire (base - c.acked) ≠ 0 := by
      rw [ne_eq, ← BitVec.toNat_inj, hsize]
      change base - c.acked ≠ 0
      omega
    rw [if_neg hne, hrel, hsize, hsum]
    rfl

def Acknowledged (c c' : Stream) (now : Time) (base : Nat) : Prop :=
  ∃ swinStart swinSize sendBuf list queue, c' =
    { c with
      lastSyncTime := now
      swinStart := swinStart
      swinSize := swinSize
      sendBuf := sendBuf
      acked := base
      packetList := list
      waitingQueue := queue }

theorem Sending.window (hsending : Sending c ready snd fin packets) (now : Time) {ack : DataAck}
    (hwindow : c.inWindow ack = true) :
    ∃ moved base gone kept, c.moveSwin true now ack = some moved ∧
      base = c.acked + (ack.winStart - c.swinStart).toNat ∧ base ≤ snd ∧
      ack.winStart = wire base ∧ packets = gone ++ kept ∧
      (moved.checkpoint ack.winStart).2 = gone.map Prod.snd ∧ (∀ e ∈ gone, e.1 < base) ∧
      Sending (moved.checkpoint ack.winStart).1 (unready ready (gone.map Prod.snd)) snd fin kept ∧
      (∀ q, base ≤ q → q < fin →
        (moved.checkpoint ack.winStart).1.sendBuf.cell base q = c.sendBuf.cell c.acked q) ∧
      Acknowledged c (moved.checkpoint ack.winStart).1 now base := by
  obtain ⟨hbase, hwin⟩ := hsending.winStart_eq hwindow
  set base := c.acked + (ack.winStart - c.swinStart).toNat with hbase_eq
  have hacked : c.acked ≤ base := by omega
  obtain ⟨rb, hfilled, hcell, hmoved⟩ := hsending.moveSwin now hacked hbase hwin
  set moved : Stream :=
    { c with
      lastSyncTime := now
      swinStart := ack.winStart
      swinSize := umin ack.winSize swndMaxSize
      sendBuf := rb
      acked := base } with hmoved_eq
  have hout : Outstanding moved ready c.acked snd packets := hsending.toOutstanding.of_eq rfl rfl
  have hfuel : packets.length ≤ moved.packetList.treemapSize := by rw [hout.keyed.size]
  obtain ⟨gone, kept, hsplit, hgone, hbefore, hkept, hout'⟩ :=
    Outstanding.checkpointLoop hacked hbase packets hfuel hout
  obtain ⟨list, queue, heq⟩ := Stream.relisted_checkpoint moved ack.winStart
  have hcheckpoint : moved.checkpoint ack.winStart =
      moved.checkpointLoop (wire base) moved.packetList.treemapSize := by
    rw [← hwin]
    rfl
  rw [← hcheckpoint] at hgone hout'
  have hspan := hout'.keyed.span
  refine ⟨moved, base, gone, kept, hmoved, hbase_eq, hbase, hwin, hsplit, hgone, hbefore, ?_,
    by rw [heq]; exact hcell, _, _, _, list, queue, heq⟩
  rw [heq] at hout' ⊢
  exact
    { hout' with
      keyed := hout'.keyed.widen (show snd < base + 2 ^ 31 by omega) fun e he =>
        ⟨hkept e he, (hout'.keyed.inside e he).2⟩
      filled := hfilled
      swinStart_eq := hwin
      writeSeq_eq := hsending.writeSeq_eq
      sendSeq_eq := hsending.sendSeq_eq
      acked_le := hbase
      snd_le := hsending.snd_le }

/-! ### The two queues -/

theorem enqueue_cons (ready : U32 → Nat) (packet : PacketEntry) (packets : List PacketEntry) :
    enqueue ready (packet :: packets) = enqueue (enqueue ready [packet]) packets := by
  funext key
  simp only [enqueue, List.countP_cons, List.countP_nil]
  omega

structure SamePacket (packet packet' : PacketEntry) : Prop where
  seq_eq : packet'.seq = packet.seq
  length_eq : packet'.length = packet.length
  fecSeq_eq : packet'.fecSeq = packet.fecSeq
  fecIndex_eq : packet'.fecIndex = packet.fecIndex

def SamePackets (packets packets' : List (Nat × PacketEntry)) : Prop :=
  List.Forall₂ (fun e e' => e'.1 = e.1 ∧ SamePacket e.2 e'.2) packets packets'

theorem samePackets_refl (packets : List (Nat × PacketEntry)) : SamePackets packets packets :=
  List.forall₂_same.mpr fun _ _ => ⟨rfl, rfl, rfl, rfl, rfl⟩

theorem SamePackets.trans {packets packets' packets'' : List (Nat × PacketEntry)}
    (h : SamePackets packets packets') (h' : SamePackets packets' packets'') :
    SamePackets packets packets'' := by
  induction h generalizing packets'' with
  | nil => exact h'
  | cons hfirst _ ih =>
      obtain ⟨e, rest, hfirst', hrest', rfl⟩ := List.forall₂_cons_left_iff.mp h'
      refine .cons ⟨hfirst'.1.trans hfirst.1, ?_, ?_, ?_, ?_⟩ (ih hrest')
      · exact hfirst'.2.seq_eq.trans hfirst.2.seq_eq
      · exact hfirst'.2.length_eq.trans hfirst.2.length_eq
      · exact hfirst'.2.fecSeq_eq.trans hfirst.2.fecSeq_eq
      · exact hfirst'.2.fecIndex_eq.trans hfirst.2.fecIndex_eq

theorem samePackets_update {p : Nat} {packet packet' : PacketEntry} (h : SamePacket packet packet')
    (before after : List (Nat × PacketEntry)) :
    SamePackets (before ++ (p, packet) :: after) (before ++ (p, packet') :: after) :=
  List.rel_append (samePackets_refl before) (.cons ⟨rfl, h⟩ (samePackets_refl after))

theorem Outstanding.setPacket {p : Nat} {packet : PacketEntry}
    (hout : Outstanding c ready lo snd (before ++ (p, packet) :: after)) (c' : Stream)
    (ready' : U32 → Nat)
    (update : PacketEntry → PacketEntry) (hsame : SamePacket packet (update packet))
    (hlist : c'.packetList = c.packetList.treemapSetValue (wire p) update)
    (hnodup : c'.waitingQueue.Nodup)
    (hwaiting : wire p ∈ c'.waitingQueue ↔ (update packet).isReady = false)
    (hwaiting' : ∀ key ≠ wire p, key ∈ c'.waitingQueue ↔ key ∈ c.waitingQueue)
    (hready : ready' (wire p) = if (update packet).isReady then 1 else 0)
    (hready' : ∀ key ≠ wire p, ready' key = ready key) :
    Outstanding c' ready' lo snd (before ++ (p, update packet) :: after) := by
  have hne := hout.keyed.others_ne
  obtain ⟨hseq, hseqs⟩ := forall_middle.mp hout.seq_eq
  obtain ⟨hlen, hlens⟩ := forall_middle.mp hout.length_pos
  obtain ⟨hend, hends⟩ := forall_middle.mp hout.end_le
  refine ⟨hlist ▸ hout.keyed.setValue_split update, ?_, ?_, ?_, ?_, hnodup, fun key => ?_, ?_,
    fun key hkey => ?_⟩
  · have hdisjoint := hout.disjoint
    simp only [List.pairwise_append, List.pairwise_cons, List.mem_cons] at hdisjoint ⊢
    rw [hsame.length_eq]
    refine ⟨hdisjoint.1, hdisjoint.2.1, fun a ha b hb => ?_⟩
    rcases hb with rfl | hb
    · exact hdisjoint.2.2 a ha (p, packet) (.inl rfl)
    · exact hdisjoint.2.2 a ha b (.inr hb)
  · exact forall_middle.mpr ⟨hsame.seq_eq.trans hseq, hseqs⟩
  · exact forall_middle.mpr ⟨hsame.length_eq ▸ hlen, hlens⟩
  · exact forall_middle.mpr ⟨hsame.length_eq ▸ hend, hends⟩
  · rw [exists_middle]
    by_cases hkey : key = wire p
    · subst hkey
      rw [hwaiting]
      constructor
      · exact fun hisReady => .inl ⟨rfl, hisReady⟩
      · rintro (⟨-, hisReady⟩ | ⟨e, he, heq, -⟩)
        · exact hisReady
        · exact absurd heq (hne e he)
    · rw [hwaiting' key hkey, hout.mem_waiting, exists_middle]
      simp only [Ne.symm hkey, false_and, false_or]
  · refine forall_middle.mpr ⟨fun hisReady => by rw [hready, if_pos hisReady], fun e he hisReady => ?_⟩
    rw [hready' _ (hne e he)]
    exact hout.ready_eq_one e (mem_middle.mpr (.inr he)) hisReady
  · obtain ⟨hself, hothers⟩ := forall_middle.mp hkey
    by_cases heq : key = wire p
    · subst heq
      rw [hready, hself rfl]
      rfl
    · rw [hready' key heq]
      exact hout.ready_eq_zero key (forall_middle.mpr ⟨fun hkey' => absurd hkey'.symm heq, hothers⟩)

theorem Outstanding.setReady (hout : Outstanding c ready lo snd packets) {p : Nat}
    {packet : PacketEntry} {rest : List U32} (hqueue : c.waitingQueue = wire p :: rest)
    (he : (p, packet) ∈ packets) (hisReady : packet.isReady = false) :
    ∃ packets', SamePackets packets packets' ∧ (c.setReady (wire p)).waitingQueue = rest ∧
      Outstanding (c.setReady (wire p)) (enqueue ready [packet]) lo snd packets' := by
  have hseq : packet.seq = wire p := hout.seq_eq _ he
  have hzero := hout.ready_eq_zero (wire p) fun e he' heq => by
    rw [(hout.keyed.mem_inj he' he heq).2]
    exact hisReady
  obtain ⟨before, after, rfl⟩ := List.append_of_mem he
  have hnodup := hout.nodup
  rw [hqueue] at hnodup
  obtain ⟨hnew, hrest⟩ := List.nodup_cons.mp hnodup
  have hqueue' : (c.setReady (wire p)).waitingQueue = rest := by
    show c.waitingQueue.erase (wire p) = rest
    rw [hqueue, List.erase_cons_head]
  refine ⟨before ++ (p, { packet with isReady := true }) :: after,
    samePackets_update (by constructor <;> rfl) before after, hqueue', ?_⟩
  exact hout.setPacket (c.setReady (wire p)) (enqueue ready [packet])
    (fun packet => { packet with isReady := true }) ⟨rfl, rfl, rfl, rfl⟩ rfl
    (hqueue' ▸ hrest) (by rw [hqueue']; simpa using hnew)
    (fun key hkey => by rw [hqueue', hqueue]; simp [hkey])
    (by simp [enqueue, hseq, hzero])
    (fun key hkey => by simp [enqueue, hseq, Ne.symm hkey])

theorem Outstanding.readyLoop (time : Time) : ∀ (queue : List U32) {c : Stream}
    {ready : U32 → Nat} {packets : List (Nat × PacketEntry)}, c.waitingQueue = queue →
    Outstanding c ready lo snd packets →
    ∃ packets', (c.readyLoop time queue).2.2 = false ∧ SamePackets packets packets' ∧
      Outstanding (c.readyLoop time queue).1 (enqueue ready (c.readyLoop time queue).2.1) lo snd
        packets' := by
  intro queue
  induction queue with
  | nil =>
      intro c ready packets _ hout
      exact ⟨packets, rfl, samePackets_refl packets, hout⟩
  | cons key rest ih =>
      intro c ready packets hqueue hout
      obtain ⟨⟨p, packet⟩, he, rfl, hisReady⟩ :=
        (hout.mem_waiting key).mp (hqueue ▸ List.mem_cons_self)
      rw [Stream.readyLoop, hout.keyed.value_of_mem he]
      dsimp only at hisReady hqueue ⊢
      split
      · exact ⟨packets, rfl, samePackets_refl packets, hout⟩
      · obtain ⟨packets', hsame, hqueue', hout'⟩ := hout.setReady hqueue he hisReady
        obtain ⟨packets'', hdangling, hsame', hout''⟩ := ih hqueue' hout'
        refine ⟨packets'', hdangling, hsame.trans hsame', ?_⟩
        rw [enqueue_cons]
        exact hout''

theorem Outstanding.isReady_of_ready (hout : Outstanding c ready lo snd packets) {key : U32}
    (hpos : 0 < ready key) : ∃ p packet, key = wire p ∧ (p, packet) ∈ packets ∧
      packet.isReady = true ∧ c.packetList.treemapValue key = some packet := by
  by_contra hnone
  have hzero := hout.ready_eq_zero key fun e he hkey => by
    by_contra hisReady
    refine hnone ⟨e.1, e.2, hkey.symm, he, by simpa using hisReady, ?_⟩
    rw [← hkey]
    exact hout.keyed.value_of_mem he
  omega

theorem Outstanding.requeue (hout : Outstanding c ready lo snd packets) (time : Time) {p : Nat}
    {packet : PacketEntry} (he : (p, packet) ∈ packets) (hisReady : packet.isReady = true) :
    ∃ packets', SamePackets packets packets' ∧
      (∃ requeued, (c.requeue (wire p) time).packetList.treemapValue (wire p) = some requeued ∧
        requeued.isReady = false) ∧
      Outstanding (c.requeue (wire p) time)
        (Function.update ready (wire p) (ready (wire p) - 1)) lo snd packets' := by
  obtain ⟨before, after, rfl⟩ := List.append_of_mem he
  have hnew : wire p ∉ c.waitingQueue := by
    rw [hout.mem_waiting]
    rintro ⟨e, he', heq, hwaiting⟩
    rw [(hout.keyed.mem_inj he' he heq).2, hisReady] at hwaiting
    exact absurd hwaiting (by simp)
  have hout' := hout.setPacket (c.requeue (wire p) time)
    (Function.update ready (wire p) (ready (wire p) - 1))
    (fun packet =>
      { packet with
        retransTime := c.afterLastWaiting time
        retransRound :=
          if packet.retransRound.toNat < 65535 then packet.retransRound + 1
          else packet.retransRound
        isReady := false })
    ⟨rfl, rfl, rfl, rfl⟩ rfl
    (List.nodup_append.mpr ⟨hout.nodup, by simp, fun a ha b hb => by
      obtain rfl := List.mem_singleton.mp hb
      exact fun heq => hnew (heq ▸ ha)⟩)
    (by simp [Stream.requeue])
    (fun key hkey => by simp [Stream.requeue, Stream.modifyPacket, hkey])
    (by simp [hout.ready_eq_one _ he hisReady])
    (fun key hkey => Function.update_of_ne hkey _ _)
  refine ⟨_, ?_, ⟨_, hout'.keyed.value_split, rfl⟩, hout'⟩
  exact samePackets_update (by constructor <;> rfl) before after

theorem Outstanding.unready_all (hout : Outstanding c ready lo snd packets) :
    unready ready (packets.map Prod.snd) = fun _ => 0 := by
  induction packets generalizing c ready with
  | nil =>
      funext key
      exact hout.ready_eq_zero key (by simp)
  | cons e rest ih =>
      rw [List.map_cons, unready_cons]
      exact ih hout.removePacket_first

theorem Outstanding.unready_toList (hout : Outstanding c ready lo snd packets) :
    unready ready (c.packetList.toList.map Prod.snd) = fun _ => 0 := by
  rw [← hout.unready_all, hout.keyed.toList_eq, wireEntries, List.map_map]
  rfl

end Liteflow

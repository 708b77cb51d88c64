import Liteflow.Datagram
import Liteflow.Proof.Bytes

/-!
# Messages survive the wire, and nothing is read past the end

What a sending function builds is taken apart again by `litedt_io_event` into the same message, and
no datagram whatever makes it call a handler that would read past what was received.
-/

namespace Liteflow

/-! ### Lengths -/

@[simp]
theorem length_buildLitedtHeader (cmd : U8) (flow : U32) :
    (buildLitedtHeader cmd flow).length = sizeofLitedtHeader := by
  simp [buildLitedtHeader, sizeofLitedtHeader]

@[simp]
theorem length_pingBytes (nodeId : U16) (pingId : U32) (timestamp : Time) (token : Token) :
    (pingBytes nodeId pingId timestamp token).length = 14 + token.length := by
  simp [pingBytes]
  omega

@[simp]
theorem DataAck.length_bytes (ack : DataAck) :
    ack.bytes.length = sizeofDataAck + 8 * ack.acks.length := by
  simp [bytes, sizeofDataAck, List.length_flatMap]
  omega

@[simp]
theorem DataFec.length_bytes (fec : DataFec) :
    fec.bytes.length = sizeofDataFec + fec.fecData.length := by
  simp [bytes, sizeofDataFec]
  omega

/-! ### Structures -/

section Structures

variable {buf : Nat → Byte} {k : Nat}

theorem StandsAt.u16At {value : U16} (h : StandsAt buf k (littleEndian 2 value)) :
    u16At buf k = value :=
  h.field rfl

theorem StandsAt.u32At {value : U32} (h : StandsAt buf k (littleEndian 4 value)) :
    u32At buf k = value :=
  h.field rfl

theorem StandsAt.timeAt {time : Time} (h : StandsAt buf k (littleEndian 8 (BitVec.ofInt 64 time)))
    (hmin : -2 ^ 63 ≤ time) (hmax : time < 2 ^ 63) : timeAt buf k = time := by
  rw [Liteflow.timeAt, h.field rfl]
  exact BitVec.toInt_ofInt_eq_self (by decide) hmin hmax

theorem StandsAt.tokenAt {token : Token} (h : StandsAt buf k token) (htoken : token.length = 32) :
    tokenAt buf k = token :=
  h.data htoken

theorem StandsAt.ping {nodeId : U16} {pingId : U32} {timestamp : Time} {token : Token}
    (h : StandsAt buf 0 (pingBytes nodeId pingId timestamp token)) (htoken : token.length = 32)
    (hmin : -2 ^ 63 ≤ timestamp) (hmax : timestamp < 2 ^ 63) :
    Liteflow.u16At buf 0 = nodeId ∧ Liteflow.u32At buf 2 = pingId ∧
      Liteflow.timeAt buf 6 = timestamp ∧ Liteflow.tokenAt buf 14 = token := by
  have hnode := h.left.u16At
  have h := h.right
  have hping := h.left.u32At
  have h := h.right
  have htime := h.left.timeAt hmin hmax
  have htoken := h.right.tokenAt htoken
  simp only [length_littleEndian, Nat.reduceAdd] at hping htime htoken
  exact ⟨hnode, hping, htime, htoken⟩

theorem StandsAt.pairs (acks : List (U32 × U32)) : ∀ {k : Nat},
    StandsAt buf k (acks.flatMap (fun range => littleEndian 4 range.1 ++ littleEndian 4 range.2)) →
      (List.range acks.length).map (fun i =>
        (Liteflow.u32At buf (k + 8 * i), Liteflow.u32At buf (k + 8 * i + 4))) = acks := by
  induction acks with
  | nil => exact fun _ => rfl
  | cons range acks ih =>
      intro k h
      rw [List.flatMap_cons, List.append_assoc] at h
      have hstart := h.left.u32At
      have h := h.right
      have hend := h.left.u32At
      have hrest := ih h.right
      rw [length_littleEndian] at hend
      simp only [length_littleEndian] at hrest
      rw [List.length_cons, List.range_succ_eq_map, List.map_cons, List.map_map, Nat.mul_zero,
        Nat.add_zero, hstart, hend]
      congr 1
      rw [← hrest, List.length_map, List.length_range]
      apply List.map_congr_left
      intro i _
      simp only [Function.comp_apply]
      rw [show k + 8 * i.succ = k + 4 + 4 + 8 * i by omega]

theorem DataAck.ofBytes_eq {ack : DataAck} (hsize : ack.acks.length < 256)
    (h : StandsAt buf 0 ack.bytes) : ofBytes buf = ack ∧ (buf 8).toNat = ack.acks.length := by
  obtain ⟨winStart, winSize, acks⟩ := ack
  have hstart := h.left.u32At
  have h := h.right
  have hwin := h.left.u32At
  have h := h.right
  have hcount := h.left.byte
  have hacks := h.right.pairs
  simp only [length_littleEndian, List.length_singleton, Nat.reduceAdd] at hwin hcount hacks
  have hlength : (buf 8).toNat = acks.length := by
    rw [hcount, BitVec.toNat_ofNat, Nat.mod_eq_of_lt hsize]
  refine ⟨?_, hlength⟩
  rw [ofBytes, hlength, hstart, hwin, show sizeofDataAck = 9 from rfl, hacks]

theorem DataFec.ofBytes_eq {fec : DataFec} (hsize : fec.fecData.length < 65536)
    (h : StandsAt buf 0 fec.bytes) :
    ofBytes buf = fec ∧ (Liteflow.u16At buf 5).toNat = fec.fecData.length := by
  obtain ⟨fecSeq, fecMembers, fecData⟩ := fec
  have hseq := h.left.u32At
  have h := h.right
  have hmembers := h.left.byte
  have h := h.right
  have hcount := h.left.u16At
  simp only [length_littleEndian, List.length_singleton, Nat.reduceAdd] at hmembers hcount
  have hlength : (Liteflow.u16At buf 5).toNat = fecData.length := by
    rw [hcount, BitVec.toNat_ofNat, Nat.mod_eq_of_lt hsize]
  have hdata := h.right.data hlength.symm
  simp only [length_littleEndian, List.length_singleton, Nat.reduceAdd] at hdata
  refine ⟨?_, hlength⟩
  rw [ofBytes, hseq, hmembers, show sizeofDataFec = 7 from rfl, hdata]

end Structures

/-! ### Messages -/

/-- Every field is in the range of its type, and every length field is the length. -/
def Packet.Fits : Packet → Prop
  | pingReq req => req.token.length = 32 ∧ -2 ^ 63 ≤ req.timestamp ∧ req.timestamp < 2 ^ 63
  | pingRsp rsp => rsp.token.length = 32 ∧ -2 ^ 63 ≤ rsp.timestamp ∧ rsp.timestamp < 2 ^ 63
  | dataPost _ post => post.Sized
  | dataAck _ ack => ack.acks.length < 256
  | connectRsp _ status => -2 ^ 31 ≤ status ∧ status < 2 ^ 31
  | connectData _ _ post => post.Sized
  | dataFec _ fec => fec.fecData.length < 65536
  | connectReq _ _ | closeReq _ _ | closeRsp _ | connectRst _ => True

theorem Packet.length_bytes {packet : Packet} (h : packet.Fits) :
    packet.bytes.length = packet.extent := by
  rw [Packet.bytes, List.length_append, length_buildLitedtHeader]
  cases packet with
  | pingReq req | pingRsp rsp =>
      rw [Packet.body, length_pingBytes, h.1]
      rfl
  | dataPost flow post =>
      rw [Packet.body, DataPost.length_bytes, ← h]
      exact (Nat.add_assoc _ _ _).symm
  | dataAck flow ack =>
      rw [Packet.body, DataAck.length_bytes]
      exact (Nat.add_assoc _ _ _).symm
  | connectReq flow tunnelId | connectRsp flow status | closeReq flow lastSeq =>
      rw [Packet.body, length_littleEndian]; rfl
  | closeRsp flow | connectRst flow => rfl
  | connectData flow tunnelId post =>
      rw [Packet.body, List.length_append, length_littleEndian, DataPost.length_bytes, ← h]
      simp only [Packet.extent, sizeofDataConn, sizeofConnReq]
      omega
  | dataFec flow fec =>
      rw [Packet.body, DataFec.length_bytes]
      exact (Nat.add_assoc _ _ _).symm

theorem ifReceived_of_le {recvLen need : Nat} (h : need ≤ recvLen) (next : Option Packet) :
    ifReceived recvLen need next = next :=
  if_neg (Nat.not_lt.mpr h)

theorem ifReceived_eq_some {recvLen need : Nat} {next : Option Packet} {packet : Packet} :
    ifReceived recvLen need next = some packet ↔ need ≤ recvLen ∧ next = some packet := by
  unfold ifReceived
  split
  · simp only [reduceCtorEq, false_iff, not_and]
    omega
  · simp only [iff_and_self]
    omega

theorem litedtIoDispatch_eq {packet : Packet} (hfits : packet.Fits) {body : Nat → Byte}
    (hbody : StandsAt body 0 packet.body) {recvLen : Nat} (hlen : packet.extent ≤ recvLen) :
    litedtIoDispatch packet.cmd packet.flow body recvLen = some packet := by
  cases packet with
  | pingReq req =>
      obtain ⟨hnode, hping, htime, htoken⟩ := StandsAt.ping hbody hfits.1 hfits.2.1 hfits.2.2
      refine (ifReceived_of_le hlen _).trans ?_
      rw [PingReq.ofBytes, hnode, hping, htime, htoken]
  | pingRsp rsp =>
      obtain ⟨hnode, hping, htime, htoken⟩ := StandsAt.ping hbody hfits.1 hfits.2.1 hfits.2.2
      refine (ifReceived_of_le hlen _).trans ?_
      rw [PingRsp.ofBytes, hnode, hping, htime, htoken]
  | dataPost flow post =>
      have hpost := DataPost.ofBytes_eq hfits hbody
      change ifReceived _ _ (ifReceived _ _ _) = _
      simp only [Packet.extent] at hlen
      rw [hpost, ifReceived_of_le (by omega), ifReceived_of_le hlen]
      rfl
  | dataAck flow ack =>
      obtain ⟨hack, hcount⟩ := DataAck.ofBytes_eq hfits hbody
      change ifReceived _ _ (ifReceived _ _ _) = _
      simp only [Packet.extent] at hlen
      rw [hack, hcount, ifReceived_of_le (by omega), ifReceived_of_le (by omega)]
      rfl
  | connectReq flow tunnelId =>
      refine (ifReceived_of_le hlen _).trans ?_
      rw [StandsAt.u16At hbody]
      rfl
  | connectRsp flow status =>
      refine (ifReceived_of_le hlen _).trans ?_
      rw [StandsAt.u32At hbody, BitVec.toInt_ofInt_eq_self (by decide) hfits.1 hfits.2]
      rfl
  | closeReq flow lastSeq =>
      refine (ifReceived_of_le hlen _).trans ?_
      rw [StandsAt.u32At hbody]
      rfl
  | closeRsp flow => rfl
  | connectRst flow => rfl
  | connectData flow tunnelId post =>
      have htunnel := hbody.left.u16At
      have hpost := hbody.right
      rw [length_littleEndian] at hpost
      have hpost := DataPost.ofBytes_eq hfits hpost.shift
      change ifReceived _ _ (ifReceived _ _ _) = _
      simp only [Packet.extent] at hlen
      rw [htunnel, show (fun i => body (sizeofConnReq + i)) = fun i => body (0 + 2 + i) from rfl,
        hpost, ifReceived_of_le (by omega), ifReceived_of_le hlen]
      rfl
  | dataFec flow fec =>
      obtain ⟨hfec, hcount⟩ := DataFec.ofBytes_eq hfits hbody
      change ifReceived _ _ (ifReceived _ _ _) = _
      simp only [Packet.extent] at hlen
      rw [hfec, hcount, ifReceived_of_le (by omega), ifReceived_of_le hlen]
      rfl

theorem litedtIoDecode_eq {packet : Packet} (hfits : packet.Fits) {buf : Nat → Byte}
    (hbuf : StandsAt buf 0 packet.bytes) {recvLen : Nat} (hlen : packet.bytes.length ≤ recvLen) :
    litedtIoDecode buf recvLen = some packet := by
  have hextent : packet.extent ≤ recvLen := Packet.length_bytes hfits ▸ hlen
  have hheader := hbuf.left
  have hversion := hheader.left.u16At
  have hcmd := hheader.right.right.left.byte
  have hflow := hheader.right.right.right.u32At
  have hbody := hbuf.right
  simp only [length_littleEndian, List.length_singleton, Nat.reduceAdd,
    length_buildLitedtHeader] at hcmd hflow hbody
  have hlong : ¬(recvLen < sizeofLitedtHeader ∨ u16At buf 0 ≠ litedtVersion) := by
    rw [hversion]
    rintro (h | h)
    · rw [Packet.bytes, List.length_append, length_buildLitedtHeader] at hlen
      omega
    · exact h rfl
  rw [litedtIoDecode, if_neg hlong, hcmd, hflow]
  rw [Nat.zero_add] at hbody
  exact litedtIoDispatch_eq hfits hbody.shift hextent

/-! ### Nothing is read past the end -/

section Bounds

variable {buf buf' : Nat → Byte} {cmd : U8} {flow : U32} {body body' : Nat → Byte} {recvLen : Nat}
  {packet : Packet}

theorem extent_le_of_dispatch (h : litedtIoDispatch cmd flow body recvLen = some packet)
    (hheader : sizeofLitedtHeader ≤ recvLen) : packet.extent ≤ recvLen := by
  unfold litedtIoDispatch at h
  dsimp only at h
  split at h
  case h_1 | h_2 | h_3 | h_4 | h_7 =>
    obtain ⟨hlen, ⟨⟩⟩ := ifReceived_eq_some.mp h
    exact hlen
  case h_5 | h_10 =>
    obtain ⟨-, h⟩ := ifReceived_eq_some.mp h
    obtain ⟨hlen, ⟨⟩⟩ := ifReceived_eq_some.mp h
    exact hlen
  case h_6 =>
    obtain ⟨-, h⟩ := ifReceived_eq_some.mp h
    obtain ⟨hlen, ⟨⟩⟩ := ifReceived_eq_some.mp h
    simp only [Packet.extent, DataAck.ofBytes, List.length_map, List.length_range]
    omega
  case h_8 | h_9 =>
    obtain ⟨⟩ := h
    exact hheader
  case h_11 =>
    obtain ⟨-, h⟩ := ifReceived_eq_some.mp h
    obtain ⟨hlen, ⟨⟩⟩ := ifReceived_eq_some.mp h
    simp only [Packet.extent, DataFec.ofBytes, List.length_map, List.length_range]
    exact hlen
  case h_12 => cases h

theorem u16At_congr {k : Nat} (h : ∀ i, k ≤ i → i < k + 2 → buf' i = buf i) :
    u16At buf' k = u16At buf k := by
  rw [u16At, readLittleEndian_congr h, u16At]

theorem u32At_congr {k : Nat} (h : ∀ i, k ≤ i → i < k + 4 → buf' i = buf i) :
    u32At buf' k = u32At buf k := by
  rw [u32At, readLittleEndian_congr h, u32At]

theorem timeAt_congr {k : Nat} (h : ∀ i, k ≤ i → i < k + 8 → buf' i = buf i) :
    timeAt buf' k = timeAt buf k := by
  rw [timeAt, readLittleEndian_congr h, timeAt]

theorem map_range_congr {k n : Nat} (h : ∀ i, k ≤ i → i < k + n → buf' i = buf i) :
    (List.range n).map (fun i => buf' (k + i)) = (List.range n).map (fun i => buf (k + i)) := by
  apply List.map_congr_left
  intro i hi
  exact h _ (Nat.le_add_right _ _) (Nat.add_lt_add_left (List.mem_range.mp hi) k)

theorem ping_congr (h : ∀ i < 46, buf' i = buf i) :
    u16At buf' 0 = u16At buf 0 ∧ u32At buf' 2 = u32At buf 2 ∧ timeAt buf' 6 = timeAt buf 6 ∧
      tokenAt buf' 14 = tokenAt buf 14 := by
  refine ⟨u16At_congr ?_, u32At_congr ?_, timeAt_congr ?_, map_range_congr ?_⟩ <;>
    exact fun i _ hi => h i (by omega)

theorem DataAck.ofBytes_congr
    (h : ∀ i < sizeofDataAck + 8 * (ofBytes buf).acks.length, buf' i = buf i) :
    ofBytes buf' = ofBytes buf ∧ buf' 8 = buf 8 := by
  have hsize : sizeofDataAck = 9 := rfl
  have hcount : buf' 8 = buf 8 := h 8 (by omega)
  have hlength : (ofBytes buf).acks.length = (buf 8).toNat := by simp [ofBytes]
  refine ⟨?_, hcount⟩
  rw [ofBytes, ofBytes, hcount, u32At_congr (fun i _ hi => h i (by omega)),
    u32At_congr (fun i _ hi => h i (by omega))]
  congr 1
  apply List.map_congr_left
  intro i hi
  have hi := List.mem_range.mp hi
  rw [u32At_congr (fun j _ hj => h j (by omega)), u32At_congr (fun j _ hj => h j (by omega))]

theorem DataFec.ofBytes_congr
    (h : ∀ i < sizeofDataFec + (ofBytes buf).fecData.length, buf' i = buf i) :
    ofBytes buf' = ofBytes buf ∧ u16At buf' 5 = u16At buf 5 := by
  have hsize : sizeofDataFec = 7 := rfl
  have hcount : u16At buf' 5 = u16At buf 5 := u16At_congr fun i _ hi => h i (by omega)
  have hlength : (ofBytes buf).fecData.length = (u16At buf 5).toNat := by simp [ofBytes]
  refine ⟨?_, hcount⟩
  rw [ofBytes, ofBytes, hcount, u32At_congr (fun i _ hi => h i (by omega)), h 4 (by omega),
    map_range_congr (fun i _ hi => h i (by omega))]

theorem ifReceived_imp {need : Nat} {next next' : Option Packet}
    (h : ifReceived recvLen need next = some packet) (himp : next = some packet → next' = some packet) :
    ifReceived recvLen need next' = some packet := by
  rw [ifReceived_eq_some] at h ⊢
  exact h.imp_right himp

theorem litedtIoDispatch_congr (h : litedtIoDispatch cmd flow body recvLen = some packet)
    (hbody : ∀ i, sizeofLitedtHeader + i < packet.extent → body' i = body i) :
    litedtIoDispatch cmd flow body' recvLen = some packet := by
  unfold litedtIoDispatch at h ⊢
  dsimp only at h ⊢
  split at h
  case h_1 =>
    refine ifReceived_imp h ?_
    rintro ⟨⟩
    obtain ⟨hnode, hping, htime, htoken⟩ :=
      ping_congr fun i hi => hbody i (Nat.add_lt_add_left hi _)
    rw [PingReq.ofBytes, hnode, hping, htime, htoken]
    rfl
  case h_2 =>
    refine ifReceived_imp h ?_
    rintro ⟨⟩
    obtain ⟨hnode, hping, htime, htoken⟩ :=
      ping_congr fun i hi => hbody i (Nat.add_lt_add_left hi _)
    rw [PingRsp.ofBytes, hnode, hping, htime, htoken]
    rfl
  case h_3 =>
    refine ifReceived_imp h ?_
    rintro ⟨⟩
    rw [u16At_congr fun i _ hi => hbody i (Nat.add_lt_add_left hi _)]
  case h_4 =>
    refine ifReceived_imp h ?_
    rintro ⟨⟩
    rw [u32At_congr fun i _ hi => hbody i (Nat.add_lt_add_left hi _)]
  case h_5 =>
    refine ifReceived_imp h fun h => ?_
    obtain ⟨hlen, ⟨⟩⟩ := ifReceived_eq_some.mp h
    have hpost : DataPost.ofBytes body' = DataPost.ofBytes body :=
      DataPost.ofBytes_congr fun i hi => hbody i (by simp only [Packet.extent]; omega)
    rw [hpost]
    exact ifReceived_eq_some.mpr ⟨hlen, rfl⟩
  case h_6 =>
    refine ifReceived_imp h fun h => ?_
    obtain ⟨hlen, ⟨⟩⟩ := ifReceived_eq_some.mp h
    obtain ⟨hack, hcount⟩ : DataAck.ofBytes body' = DataAck.ofBytes body ∧ body' 8 = body 8 :=
      DataAck.ofBytes_congr fun i hi => hbody i (by simp only [Packet.extent]; omega)
    rw [hack, hcount]
    exact ifReceived_eq_some.mpr ⟨hlen, rfl⟩
  case h_7 =>
    refine ifReceived_imp h ?_
    rintro ⟨⟩
    rw [u32At_congr fun i _ hi => hbody i (Nat.add_lt_add_left hi _)]
  case h_8 =>
    exact h
  case h_9 =>
    exact h
  case h_10 =>
    refine ifReceived_imp h fun h => ?_
    obtain ⟨hlen, ⟨⟩⟩ := ifReceived_eq_some.mp h
    have hconn : sizeofDataConn = sizeofConnReq + sizeofDataPost := rfl
    have hpost : DataPost.ofBytes (fun i => body' (sizeofConnReq + i)) =
        DataPost.ofBytes (fun i => body (sizeofConnReq + i)) :=
      DataPost.ofBytes_congr fun i hi => hbody _ (by simp only [Packet.extent]; omega)
    have htunnel : u16At body' 0 = u16At body 0 := u16At_congr fun i _ hi =>
      hbody i (by simp only [Packet.extent, show sizeofDataConn = 13 from rfl]; omega)
    rw [hpost, htunnel]
    exact ifReceived_eq_some.mpr ⟨hlen, rfl⟩
  case h_11 =>
    refine ifReceived_imp h fun h => ?_
    obtain ⟨hlen, ⟨⟩⟩ := ifReceived_eq_some.mp h
    obtain ⟨hfec, hcount⟩ :
        DataFec.ofBytes body' = DataFec.ofBytes body ∧ u16At body' 5 = u16At body 5 :=
      DataFec.ofBytes_congr fun i hi => hbody i (by simp only [Packet.extent]; omega)
    rw [hfec, hcount]
    exact ifReceived_eq_some.mpr ⟨hlen, rfl⟩
  case h_12 => cases h

theorem litedtIoDecode_extent (h : litedtIoDecode buf recvLen = some packet) :
    packet.extent ≤ recvLen ∧
      ∀ buf', (∀ i < packet.extent, buf' i = buf i) → litedtIoDecode buf' recvLen = some packet := by
  have hsize : sizeofLitedtHeader = 8 := rfl
  unfold litedtIoDecode at h
  split at h
  · cases h
  · rename_i hheader
    rw [not_or, Nat.not_lt] at hheader
    have hextent : sizeofLitedtHeader ≤ packet.extent := by
      cases packet <;> simp only [Packet.extent] <;> omega
    refine ⟨extent_le_of_dispatch h hheader.1, ?_⟩
    intro buf' hbuf
    have hversion : u16At buf' 0 = u16At buf 0 := u16At_congr fun i _ hi => hbuf i (by omega)
    have hflow : u32At buf' 4 = u32At buf 4 := u32At_congr fun i _ hi => hbuf i (by omega)
    rw [litedtIoDecode, hversion, hflow, hbuf 3 (by omega), if_neg (not_or.mpr ⟨by omega, hheader.2⟩)]
    exact litedtIoDispatch_congr h fun i hi => hbuf _ hi

end Bounds

/-! ### What the sending functions build -/

section Length

open Rbuf

theorem length_copyFromBlocks (rb : Rbuf) (fuel : Nat) : ∀ {pos : U32} {n : Nat} {data : List Byte},
    n ≤ fuel → rb.copyFromBlocks fuel pos n = some data → data.length = n := by
  induction fuel with
  | zero =>
      intro pos n data hn hread
      obtain rfl : [] = data := by simpa [copyFromBlocks] using hread
      exact (Nat.le_zero.mp hn).symm
  | succ fuel ih =>
      intro pos n data hn hread
      unfold copyFromBlocks at hread
      split at hread
      · rename_i hzero
        obtain rfl : [] = data := by simpa using hread
        exact hzero.symm
      · dsimp only at hread
        split at hread
        · cases hread
        · obtain ⟨rest, hrest, rfl⟩ := Option.map_eq_some_iff.mp hread
          have hoffset : offset pos < rbufBlockSize := Nat.mod_lt _ (by decide)
          have hlength := ih (by omega) hrest
          rw [List.length_append, List.length_map, List.length_range, hlength]
          omega

theorem length_readPost {conn : Conn} {seq len : U32} {data : List Byte}
    (h : Build.readPost conn seq len = some data) : data.length = len.toNat := by
  unfold Build.readPost at h
  split at h
  · rename_i hzero
    obtain rfl : [] = data := by simpa using h
    rw [hzero]
    rfl
  · exact length_copyFromBlocks _ _ (Nat.le_refl _) h

theorem length_collectAcks (ackSize : U32) (fuel : Nat) :
    ∀ (cnt : Nat) (it : Option (U32 × SackInfo)) (sackMap : Treemap U32 SackInfo),
      (Stream.collectAcks ackSize fuel cnt it sackMap).1.length ≤ max 1 (ackSize.toNat - cnt) := by
  induction fuel with
  | zero =>
      intro cnt it sackMap
      exact Nat.zero_le _
  | succ fuel ih =>
      intro cnt it sackMap
      cases it with
      | none => exact Nat.zero_le _
      | some entry =>
          rw [Stream.collectAcks]
          dsimp only
          split
          · exact Nat.le_max_left _ _
          · rename_i hmore
            have hrest := ih (cnt + 1) (sackMap.treemapNext entry.1)
            rw [List.length_cons]
            refine (Nat.succ_le_succ (hrest _)).trans ?_
            omega

end Length

namespace Build

variable {env : Env} {h : Host} {b : Build} {packet : Packet} {plen : Nat}

/-- The times that a call gets from outside are of type `int64_t`. -/
def Typed (env : Env) : Build → Prop
  | pingReq => -2 ^ 63 ≤ env.realtime ∧ env.realtime < 2 ^ 63
  | pingRsp req => -2 ^ 63 ≤ req.timestamp ∧ req.timestamp < 2 ^ 63
  | _ => True

def AckFits (cfg : Config) : Prop :=
  sizeofLitedtHeader + sizeofDataAck + 8 * cfg.ackSize.toNat ≤ litedtMtuMax

theorem length_fittingAcks {cfg : Config} (hack : AckFits cfg) (fuel : Nat)
    (it : Option (U32 × SackInfo)) (sackMap : Treemap U32 SackInfo) :
    (Stream.collectAcks cfg.ackSize fuel 0 it sackMap).1.length < 256 := by
  have hle := length_collectAcks cfg.ackSize fuel 0 it sackMap
  have hsizes : sizeofLitedtHeader = 8 ∧ sizeofDataAck = 9 ∧ litedtMtuMax = 1428 := ⟨rfl, rfl, rfl⟩
  unfold AckFits at hack
  omega

theorem length_writtenAcks (hack : AckFits h.cfg) (conn : Conn) (ackList : Bool) :
    (writtenAcks h conn ackList).length < 256 := by
  unfold writtenAcks
  split
  · exact length_fittingAcks hack _ _ _
  · exact Nat.zero_lt_succ _

theorem takeAcks_of_fits {cfg : Config} (hack : AckFits cfg) (c : Stream) :
    c.takeAcks cfg.ackSize =
      Stream.collectAcks cfg.ackSize c.sackMap.treemapSize 0 c.sackMap.treemapFirst c.sackMap := by
  have hlength := length_fittingAcks hack c.sackMap.treemapSize c.sackMap.treemapFirst c.sackMap
  unfold Stream.takeAcks
  generalize Stream.collectAcks cfg.ackSize c.sackMap.treemapSize 0 c.sackMap.treemapFirst
    c.sackMap = collected at hlength ⊢
  change (collected.1.take (collected.1.length % 256), collected.2) = collected
  rw [Nat.mod_eq_of_lt hlength, List.take_length]

theorem message_fits
    (htoken : ∀ nodeId payload, (h.cfg.generateToken nodeId payload).length = 32)
    (hack : AckFits h.cfg) (htyped : b.Typed env) (hmsg : b.message env h = some (packet, plen)) :
    packet.Fits ∧ plen = packet.extent := by
  cases b with
  | pingReq =>
      cases hmsg
      exact ⟨⟨htoken _ _, htyped⟩, rfl⟩
  | pingRsp req =>
      cases hmsg
      exact ⟨⟨htoken _ _, htyped⟩, rfl⟩
  | connReq flow tunnelId =>
      cases hmsg
      exact ⟨trivial, rfl⟩
  | connRsp flow status =>
      cases hmsg
      exact ⟨⟨BitVec.le_toInt status, BitVec.toInt_lt⟩, rfl⟩
  | dataPost flow seq len fecSeq fecIndex =>
      simp only [message] at hmsg
      split at hmsg
      · cases hmsg
      · rename_i hchecks
        split at hmsg
        · cases hmsg
        · split at hmsg
          · cases hmsg
          · obtain ⟨data, hread, hpair⟩ := Option.map_eq_some_iff.mp hmsg
            have hmss : len.toNat ≤ 1400 := by
              have hle := h.cfg.mss_le
              rw [not_or, Nat.not_lt] at hchecks
              exact hchecks.2.trans hle
            have hlen : (len.setWidth 16).toNat = len.toNat := by
              rw [BitVec.toNat_setWidth, Nat.mod_eq_of_lt]
              omega
            have hsized : DataPost.Sized ⟨seq, len.setWidth 16, fecSeq, fecIndex, data⟩ :=
              hlen.trans (length_readPost hread).symm
            split at hpair
            · cases hpair
              exact ⟨hsized, by simp only [Packet.extent, hlen]⟩
            · cases hpair
              exact ⟨hsized, by simp only [Packet.extent, hlen]⟩
  | dataAck flow ackList =>
      obtain ⟨conn, -, hpair⟩ := Option.map_eq_some_iff.mp hmsg
      cases hpair
      have hlength := length_writtenAcks hack conn ackList
      exact ⟨hlength, by simp only [Packet.extent, Nat.mod_eq_of_lt hlength]⟩
  | closeReq flow lastSeq =>
      cases hmsg
      exact ⟨trivial, rfl⟩
  | closeRsp flow =>
      cases hmsg
      exact ⟨trivial, rfl⟩
  | connRst flow =>
      cases hmsg
      exact ⟨trivial, rfl⟩
  | fecPost flow =>
      simp only [message] at hmsg
      split at hmsg
      · cases hmsg
      · split at hmsg
        · cases hmsg
        · rename_i conn _ _
          cases hmsg
          have hlength : conn.fec.groupPacket.fecData.length = conn.fec.fecLen.toNat := by
            simp [FecMod.groupPacket]
          refine ⟨?_, by simp only [Packet.extent, hlength]⟩
          change conn.fec.groupPacket.fecData.length < 65536
          rw [hlength]
          exact conn.fec.fecLen.isLt

theorem out_emit (h : Host) (flight : Flight) (len : Nat) :
    (h.emit flight len).out = h.out ++ [flight] := by
  simp [Host.emit, Host.socketSend]

theorem out_modifyStream (h : Host) (flow : U32) (update : Stream → Stream) :
    (h.modifyStream flow update).out = h.out :=
  rfl

theorem out_socketSend (sent : Flight) (len : Nat) (force : Bool) :
    (h.socketSend sent len force).2.out = h.out ++ [sent] ∨
      force = false ∧ (h.socketSend sent len force).2.out = h.out := by
  unfold Host.socketSend
  split
  · rename_i hrefused
    exact .inr ⟨hrefused.1, rfl⟩
  · exact .inl rfl

theorem out_enterPost (h : Host) (flow : U32) (conn : Conn) (seq len fecSeq : U32) (fecIndex : U8) :
    (h.enterPost env flow conn seq len fecSeq fecIndex).out = h.out := by
  unfold Host.enterPost
  split
  · rfl
  · unfold Host.createPacketEntry
    split
    · rfl
    · split <;> rfl

theorem dataPost_eq {conn : Conn} {seq len : U32} {data : List Byte}
    (hread : readPost conn seq len = some data) (fecSeq : U32) (fecIndex : U8) :
    conn.dataPost seq len fecSeq fecIndex = ⟨seq, len.setWidth 16, fecSeq, fecIndex, data⟩ := by
  unfold readPost at hread
  unfold Stream.dataPost
  split at hread
  · rename_i hzero
    rw [if_pos hzero, Option.some.inj hread]
  · rename_i hzero
    rw [if_neg hzero, hread, Option.getD_some]

theorem takeAcks_eq (hack : AckFits h.cfg) (conn : Conn) :
    (conn.takeAcks h.cfg.ackSize).1 = writtenAcks h conn true := by
  rw [takeAcks_of_fits hack, writtenAcks, if_pos rfl]

/-- Whether the datagram is sent regardless of the credit. -/
def Forced : Build → Prop
  | dataPost _ _ len _ _ => len = 0
  | _ => True

/-- The blocks that `litedt_data_post` reads are there. -/
def Readable (h : Host) : Build → Prop
  | dataPost flow seq len _ _ => ∀ conn ∈ h.findConnection flow, (readPost conn seq len).isSome
  | _ => True

theorem out_run (env : Env) (b : Build) (hack : AckFits h.cfg) :
    match b.message env h with
    | some (packet, _) =>
        (∃ flight, (b.run env h).out = h.out ++ [flight] ∧ flight.packet = packet) ∨
          ¬b.Forced ∧ (b.run env h).out = h.out
    | none => b.Readable h → (b.run env h).out = h.out := by
  cases b with
  | pingReq | pingRsp req | connReq flow tunnelId | connRsp flow status | closeReq flow lastSeq
  | closeRsp flow | connRst flow => exact .inl ⟨_, out_emit .., rfl⟩
  | dataPost flow seq len fecSeq fecIndex =>
      simp only [message, run, Host.litedtDataPost, Bool.false_eq_true, and_false, if_false]
      by_cases honline : h.litedtOnlineStatus = false
      · rw [if_pos (.inl honline), if_pos honline]
        exact fun _ => rfl
      by_cases hmss : h.cfg.mss < len.toNat
      · rw [if_pos (.inr hmss), if_neg honline, if_pos hmss]
        exact fun _ => rfl
      rw [if_neg (not_or_intro honline hmss), if_neg honline, if_neg hmss]
      cases hfind : h.findConnection flow with
      | none => exact fun _ => rfl
      | some conn =>
          dsimp only
          by_cases hwindow : conn.swinSize < seq - conn.swinStart ∨
              conn.swinSize < seq + len - conn.swinStart
          · rw [if_pos hwindow, if_pos hwindow]
            exact fun _ => rfl
          · rw [if_neg hwindow, if_neg hwindow]
            cases hread : readPost conn seq len with
            | none => exact fun hreadable => absurd (hreadable conn hfind) (by simp [hread])
            | some data =>
                have hsent (plen : Nat) := out_socketSend
                  (h := h.enterPost env flow conn seq len fecSeq fecIndex)
                  (conn.dataFlight flow ⟨seq, len.setWidth 16, fecSeq, fecIndex, data⟩) plen (len = 0)
                simp only [out_enterPost] at hsent
                have hforced : decide (len = 0) = false →
                    ¬(dataPost flow seq len fecSeq fecIndex).Forced := of_decide_eq_false
                rw [dataPost_eq hread, Option.map_some]
                by_cases hstate : conn.state = .request
                · simp only [if_pos hstate]
                  exact (hsent _).imp (fun hout => ⟨_, hout, if_pos hstate⟩) (And.imp_left hforced)
                · simp only [if_neg hstate]
                  exact (hsent _).imp (fun hout => ⟨_, hout, if_neg hstate⟩) (And.imp_left hforced)
  | dataAck flow ackList =>
      simp only [message, run, Host.litedtDataAck]
      cases hfind : h.findConnection flow with
      | none => exact fun _ => rfl
      | some conn =>
          have hacks : (if ackList then conn.takeAcks h.cfg.ackSize else ([], conn.sackMap)).1 =
              writtenAcks h conn ackList := by
            cases ackList with
            | false => rfl
            | true => exact takeAcks_eq hack conn
          simp only [Option.map_some, out_emit]
          exact .inl ⟨_, rfl, by simp only [Stream.ackFlight, hacks]⟩
  | fecPost flow =>
      simp only [message, run, Host.fecPost]
      cases hfind : h.findConnection flow with
      | none => exact fun _ => rfl
      | some conn =>
          dsimp only
          by_cases hindex : conn.fec.currentFecIndex = 0
          · rw [if_pos hindex, if_pos hindex]
            exact fun _ => rfl
          · rw [if_neg hindex, if_neg hindex, out_modifyStream, out_emit]
            exact .inl ⟨_, rfl, rfl⟩

/-- With `fec_post` the same datagram is sent, and behind it the sum of a group that is full now. -/
theorem run_dataPost_fecPost (env : Env) (h : Host) (flow seq len fecSeq : U32) (fecIndex : U8) :
    ∃ pushed : Host, pushed.out = ((dataPost flow seq len fecSeq fecIndex).run env h).out ∧
      pushed.cfg = ((dataPost flow seq len fecSeq fecIndex).run env h).cfg ∧
      ((h.litedtDataPost env flow seq len fecSeq fecIndex true).2 = pushed ∨
        (h.litedtDataPost env flow seq len fecSeq fecIndex true).2 = (fecPost flow).run env pushed) := by
  have hpushes (h : Host) (post : DataPost) : ∃ pushed : Host, pushed.out = h.out ∧
      pushed.cfg = h.cfg ∧
      (h.fecPushData flow post = pushed ∨ h.fecPushData flow post = pushed.fecPost flow) := by
    refine ⟨h.modifyStream flow (fun c => c.setFec (c.fec.fecPushData post)), rfl, rfl, ?_⟩
    unfold Host.fecPushData
    dsimp only
    split
    · exact .inl rfl
    · split
      · exact .inr rfl
      · exact .inl rfl
  simp only [run, Host.litedtDataPost, Bool.false_eq_true, and_false, if_false, and_true]
  split
  · exact ⟨_, rfl, rfl, .inl rfl⟩
  · split
    · exact ⟨_, rfl, rfl, .inl rfl⟩
    · cases h.findConnection flow with
      | none => exact ⟨_, rfl, rfl, .inl rfl⟩
      | some conn =>
          dsimp only
          split
          · exact ⟨_, rfl, rfl, .inl rfl⟩
          · by_cases hfec : conn.fecEnabled ∧ h.cfg.fecGroupSize ≠ 0
            · simp only [if_pos hfec]
              exact hpushes _ _
            · simp only [if_neg hfec]
              exact ⟨_, rfl, rfl, .inl rfl⟩

end Build

/-- **The wire format.** A sending function hands one datagram to `socket_send`, unless it returns
before, and that datagram makes `litedt_io_event` handle the same message; and no datagram makes it
call a handler that depends on what is behind `recv_len`. -/
theorem datagram_roundTrip :
    (∀ (env : Env) (h : Host) (b : Build) (packet : Packet) (plen : Nat),
      (∀ nodeId payload, (h.cfg.generateToken nodeId payload).length = 32) →
      Build.AckFits h.cfg → b.Typed env → b.message env h = some (packet, plen) →
      ((∃ flight, (b.run env h).out = h.out ++ [flight] ∧ flight.packet = packet) ∨
        ¬b.Forced ∧ (b.run env h).out = h.out) ∧
      packet.bytes.length = plen ∧
      ∀ buf, StandsAt buf 0 packet.bytes → litedtIoDecode buf plen = some packet ∧
        ∀ (env' : Env) (h' : Host), h'.ioEvent env' buf plen = h'.litedtIoEvent env' packet) ∧
    (∀ (env : Env) (h : Host) (b : Build), Build.AckFits h.cfg → b.Readable h →
      b.message env h = none → (b.run env h).out = h.out) ∧
    (∀ (env : Env) (h : Host) (flow seq len fecSeq : U32) (fecIndex : U8), ∃ pushed : Host,
      pushed.out = ((Build.dataPost flow seq len fecSeq fecIndex).run env h).out ∧
      pushed.cfg = ((Build.dataPost flow seq len fecSeq fecIndex).run env h).cfg ∧
      ((h.litedtDataPost env flow seq len fecSeq fecIndex true).2 = pushed ∨
        (h.litedtDataPost env flow seq len fecSeq fecIndex true).2 =
          (Build.fecPost flow).run env pushed)) ∧
    ∀ (buf : Nat → Byte) (recvLen : Nat) (packet : Packet),
      litedtIoDecode buf recvLen = some packet →
      packet.extent ≤ recvLen ∧
      ∀ buf', (∀ i < packet.extent, buf' i = buf i) → litedtIoDecode buf' recvLen = some packet := by
  refine ⟨?_, fun env h b hack hread hmsg => ?_, Build.run_dataPost_fecPost, ?_⟩
  · intro env h b packet plen htoken hack htyped hmsg
    obtain ⟨hfits, hlen⟩ := Build.message_fits htoken hack htyped hmsg
    have hbytes : packet.bytes.length = plen := (Packet.length_bytes hfits).trans hlen.symm
    have hout := Build.out_run env b hack
    rw [hmsg] at hout
    refine ⟨hout, hbytes, ?_⟩
    intro buf hbuf
    have hdecode := litedtIoDecode_eq hfits hbuf hbytes.le
    exact ⟨hdecode, fun env' h' => by rw [Host.ioEvent, hdecode]⟩
  · have hout := Build.out_run env b hack
    rw [hmsg] at hout
    exact hout hread
  · exact fun buf recvLen packet => litedtIoDecode_extent

/-- A connection that has got its second byte and waits for the first. -/
def Host.oneMissing : Host :=
  ((Host.litedtInit (.globalConfigInit fun _ _ => List.replicate 32 0) 1 0).litedtIoEvent (.plain 0)
    (.connectReq 7 0)).litedtIoEvent (.plain 0) (.dataPost 7 ⟨1, 1, 0, 0, [98]⟩)

theorem datagram_roundTrip_dataAck :
    let packet := Packet.dataAck 7 ⟨0, 0xa00000, [(1, 2)]⟩
    litedtIoDecode (fun i => (packet.bytes[i]?).getD 0) 25 = some packet ∧
      ∃ flight, (Host.oneMissing.litedtDataAck 7 true).out = Host.oneMissing.out ++ [flight] ∧
        flight.packet = packet := by
  intro packet
  obtain ⟨hsent, -, hdecoded⟩ := datagram_roundTrip.1 (.plain 0) Host.oneMissing (.dataAck 7 true) packet 25
    (fun _ _ => rfl) (show _ ≤ _ by decide) trivial (by decide +kernel)
  refine ⟨(hdecoded _ ?_).1, hsent.resolve_right fun hrefused => hrefused.1 trivial⟩
  intro i hi
  rw [Nat.zero_add]
  dsimp only
  rw [List.getElem?_eq_getElem hi, Option.getD_some]

end Liteflow

import Liteflow.Proof.ConfigFile
import Liteflow.Proof.Datagram
import Liteflow.Proof.Keyed
import Liteflow.Proof.Receiver

/-!
# The ranges of an acknowledgement

`litedt_data_ack` walks over the front of `sack_map`, deletes while it iterates, and stops at
`ack_size` ranges. Whatever the map holds, a call writes its first `max 1 ack_size` records, each of
them once, and leaves the others alone.

`ack_size` is a 32-bit setting that no check bounds. The buffer of the message has room for 176
ranges, and the field that counts them has 8 bits.
-/

namespace Liteflow

def sackPair (entry : Nat × SackInfo) : U32 × U32 :=
  (wire entry.1, entry.2.seqEnd)

def sentSack (entry : Nat × SackInfo) : Option (Nat × SackInfo) :=
  if 2 ≤ (entry.2.sendTimes + 1).toNat then none
  else some (entry.1, { entry.2 with sendTimes := entry.2.sendTimes + 1 })

def ackRoom (ackSize : U32) (cnt : Nat) : Nat :=
  max 1 (ackSize.toNat - cnt)

theorem ackRoom_pos (ackSize : U32) (cnt : Nat) : 0 < ackRoom ackSize cnt :=
  lt_of_lt_of_le Nat.zero_lt_one (Nat.le_max_left _ _)

theorem filterMap_sentSack_cons (entry : Nat × SackInfo) (rest : List (Nat × SackInfo)) :
    (entry :: rest).filterMap sentSack = (sentSack entry).toList ++ rest.filterMap sentSack := by
  rw [List.filterMap_cons]
  cases sentSack entry <;> rfl

section Collect

variable {lo hi : Nat} {ackSize : U32}

theorem Keyed.sent {t : Treemap U32 SackInfo} {front rest : List (Nat × SackInfo)} {p : Nat}
    {sack : SackInfo} (hkeyed : Keyed t lo hi (front ++ (p, sack) :: rest)) :
    Keyed (if 2 ≤ (sack.sendTimes + 1).toNat then
        ((t.treemapSetValue (wire p) (fun s => { s with sendTimes := sack.sendTimes + 1 })).treemapDelete
          seqCmp (wire p)).2
      else t.treemapSetValue (wire p) (fun s => { s with sendTimes := sack.sendTimes + 1 })) lo hi
      ((front ++ (sentSack (p, sack)).toList) ++ rest) := by
  have hcounted := hkeyed.setValue_split (fun s => { s with sendTimes := sack.sendTimes + 1 })
  unfold sentSack
  split
  · rw [Option.toList_none, List.append_nil]
    exact hcounted.delete_split
  · rw [Option.toList_some, List.append_assoc]
    exact hcounted

theorem Keyed.collectAcks : ∀ (rest front : List (Nat × SackInfo)) (cnt : Nat) {fuel : Nat}
    {t : Treemap U32 SackInfo}, rest.length ≤ fuel → Keyed t lo hi (front ++ rest) →
    (Stream.collectAcks ackSize fuel cnt (wireEntries rest).head? t).1 =
        (rest.take (ackRoom ackSize cnt)).map sackPair ∧
      Keyed (Stream.collectAcks ackSize fuel cnt (wireEntries rest).head? t).2 lo hi
        (front ++ ((rest.take (ackRoom ackSize cnt)).filterMap sentSack ++
          rest.drop (ackRoom ackSize cnt))) := by
  intro rest
  induction rest with
  | nil =>
      intro front cnt fuel t _ hkeyed
      have hstop : Stream.collectAcks ackSize fuel cnt none t = ([], t) := by
        cases fuel <;> rfl
      rw [wireEntries, List.map_nil, List.head?_nil, hstop]
      simpa using hkeyed
  | cons entry rest ih =>
      obtain ⟨p, sack⟩ := entry
      intro front cnt fuel t hfuel hkeyed
      obtain ⟨fuel, rfl⟩ := Nat.exists_eq_succ_of_ne_zero (n := fuel) (by
        rw [List.length_cons] at hfuel
        omega)
      rw [wireEntries, List.map_cons, List.head?_cons, Stream.collectAcks]
      dsimp only
      rw [hkeyed.next_split]
      split
      · rename_i hfull
        have hroom : ackRoom ackSize cnt = 1 := Nat.max_eq_left (by omega)
        rw [hroom, List.take_succ_cons, List.take_zero, List.drop_succ_cons, List.drop_zero]
        refine ⟨rfl, ?_⟩
        rw [filterMap_sentSack_cons, List.filterMap_nil, List.append_nil, ← List.append_assoc]
        exact hkeyed.sent
      · rename_i hmore
        have hroom : ackRoom ackSize cnt = ackRoom ackSize (cnt + 1) + 1 := by
          unfold ackRoom
          omega
        obtain ⟨hacks, hleft⟩ := ih _ (cnt + 1) (Nat.le_of_succ_le_succ hfuel) hkeyed.sent
        rw [hroom, List.take_succ_cons, List.drop_succ_cons]
        refine ⟨congrArg _ hacks, ?_⟩
        rw [filterMap_sentSack_cons, List.append_assoc, ← List.append_assoc]
        exact hleft

theorem Keyed.collected {t : Treemap U32 SackInfo} {entries : List (Nat × SackInfo)}
    (hkeyed : Keyed t lo hi entries) (ackSize : U32) :
    (Stream.collectAcks ackSize t.treemapSize 0 t.treemapFirst t).1 =
        (entries.take (ackRoom ackSize 0)).map sackPair ∧
      Keyed (Stream.collectAcks ackSize t.treemapSize 0 t.treemapFirst t).2 lo hi
        ((entries.take (ackRoom ackSize 0)).filterMap sentSack ++
          entries.drop (ackRoom ackSize 0)) := by
  rw [hkeyed.first]
  exact Keyed.collectAcks entries [] 0 hkeyed.size.ge hkeyed

end Collect

/-! ### Room for the ranges -/

/-- The ranges that fit behind `data_ack_t` into the buffer of `litedt_data_ack`. -/
def ackCapacity : Nat :=
  (litedtMtuMax - (sizeofLitedtHeader + sizeofDataAck)) / 8

example : ackCapacity = 176 := rfl

def PairsFit (pairs : Nat) : Prop :=
  pairs ≤ 255 ∧ sizeofLitedtHeader + sizeofDataAck + 8 * pairs ≤ litedtMtuMax

theorem pairsFit_iff_le (pairs : Nat) : PairsFit pairs ↔ pairs ≤ ackCapacity := by
  have hcapacity : ackCapacity = 176 := rfl
  have hsizes : sizeofLitedtHeader = 8 ∧ sizeofDataAck = 9 ∧ litedtMtuMax = 1428 := ⟨rfl, rfl, rfl⟩
  unfold PairsFit
  omega

namespace Host

def ackPairs (h : Host) (flow : U32) (ackList : Bool) : List (U32 × U32) :=
  match h.findConnection flow with
  | none => []
  | some conn => Build.writtenAcks h conn ackList

variable {h : Host} {flow : U32}

theorem length_ackPairs (hordered : ∀ conn ∈ h.findConnection flow, conn.sackMap.Ordered) :
    (h.ackPairs flow true).length = min (max 1 h.cfg.ackSize.toNat) (h.sackCount flow) := by
  unfold ackPairs sackCount
  cases hfind : h.findConnection flow with
  | none => exact (Nat.min_zero _).symm
  | some conn =>
      obtain ⟨lo, hi, entries, hkeyed⟩ := (hordered conn hfind).keyed
      dsimp only
      rw [Build.writtenAcks, if_pos rfl, (hkeyed.collected _).1, List.length_map, List.length_take,
        hkeyed.size, ackRoom, Nat.sub_zero]

/-- With any file that `load_config_file` accepts and any records in `sack_map`, the ranges fit
exactly if none are asked for, or no more than 176 are configured, or no more than 176 are there. -/
theorem ackPairs_fit_iff (nodeId : U32) (file : FileContent) (rto : U32 → Int)
    (generateToken : U16 → List Byte → Token) :
    ∀ transport ∈ loadTransport nodeId file, ∀ h : Host,
      h.cfg = transport.config rto generateToken → ∀ flow : U32,
      (∀ conn ∈ h.findConnection flow, conn.sackMap.Ordered) → ∀ ackList : Bool,
        (PairsFit (h.ackPairs flow ackList).length ↔
          ackList = false ∨ transport.ackSize.toNat ≤ ackCapacity ∨
            h.sackCount flow ≤ ackCapacity) := by
  intro transport _ h hcfg flow hordered ackList
  rw [pairsFit_iff_le]
  cases ackList with
  | false =>
      have hnone : h.ackPairs flow false = [] := by
        unfold ackPairs
        split <;> rfl
      rw [hnone]
      exact ⟨fun _ => .inl rfl, fun _ => Nat.zero_le _⟩
  | true =>
      have hcapacity : ackCapacity = 176 := rfl
      have hsize : h.cfg.ackSize = transport.ackSize := by rw [hcfg]; rfl
      rw [length_ackPairs hordered, hsize, min_le_iff, max_le_iff]
      simp only [Bool.true_eq_false, false_or]
      refine or_congr_left ⟨fun hle => hle.2, fun hle => ⟨by omega, hle⟩⟩

end Host

/-! ### A wide list -/

def ackSizeFile (n : Nat) : FileContent :=
  .json (.object [("transport".toList, .object [("ack_size".toList, .integer n)])])

def oddSack (i : Nat) : Nat × SackInfo :=
  (2 * i + 1, { seqEnd := wire (2 * i + 2), sendTimes := 0 })

def oddSacks : Nat → Treemap U32 SackInfo
  | 0 => .nil
  | n + 1 => ((oddSacks n).treemapInsert seqCmp (wire (oddSack n).1) (oddSack n).2).2

theorem keyed_oddSacks {n : Nat} (hn : n ≤ 2 ^ 16) :
    Keyed (oddSacks n) 0 (2 ^ 17) ((List.range n).map oddSack) := by
  induction n with
  | zero => exact .nil (by decide)
  | succ n ih =>
      have hlast : ∀ entry ∈ (List.range n).map oddSack, entry.1 < (oddSack n).1 := by
        intro entry hentry
        obtain ⟨i, hi, rfl⟩ := List.mem_map.mp hentry
        have := List.mem_range.mp hi
        simp only [oddSack]
        omega
      rw [List.range_succ, List.map_append]
      exact ((ih (by omega)).insert_last (Nat.zero_le _) (by simp only [oddSack]; omega) hlast _).2

def wideTransport : TransportSettings :=
  (loadTransport 1 (ackSizeFile 300)).getD (globalConfigDefaults 1).transport

def Host.crowded (sackMap : Treemap U32 SackInfo) : Host :=
  ((litedtInit (wideTransport.config (fun rtt => rtt.toNat) Config.plainToken) 1 0).run
    [(.plain 0, .io (.connectReq 7 0))]).modifyConn 7 (fun c => { c with sackMap := sackMap })

theorem wideTransport_mem : wideTransport ∈ loadTransport 1 (ackSizeFile 300) := by
  have hload : (loadTransport 1 (ackSizeFile 300)).isSome := by decide +kernel
  obtain ⟨transport, htransport⟩ := Option.isSome_iff_exists.mp hload
  rw [wideTransport, htransport]
  rfl

section Crowded

variable (sackMap : Treemap U32 SackInfo)

theorem Host.cfg_crowded :
    (Host.crowded sackMap).cfg = wideTransport.config (fun rtt => rtt.toNat) Config.plainToken :=
  cfg_run _ _

theorem Host.findConnection_crowded :
    ∃ conn, (Host.crowded sackMap).findConnection 7 = some conn ∧ conn.sackMap = sackMap := by
  have hopen : (((litedtInit (wideTransport.config (fun rtt => rtt.toNat) Config.plainToken) 1 0).run
      [(.plain 0, .io (.connectReq 7 0))]).findConnection 7).isSome := by decide +kernel
  obtain ⟨conn, hconn⟩ := Option.isSome_iff_exists.mp hopen
  refine ⟨{ conn with sackMap := sackMap }, ?_, rfl⟩
  rw [Host.crowded, findConnection_modifyConn, if_pos rfl, hconn]
  rfl

theorem Host.sackCount_crowded : (Host.crowded sackMap).sackCount 7 = sackMap.treemapSize := by
  obtain ⟨conn, hfind, hmap⟩ := findConnection_crowded sackMap
  rw [sackCount, hfind]
  dsimp only
  rw [hmap]

theorem Host.ordered_crowded (hordered : sackMap.Ordered) :
    ∀ conn ∈ (Host.crowded sackMap).findConnection 7, conn.sackMap.Ordered := by
  obtain ⟨conn, hfind, rfl⟩ := findConnection_crowded sackMap
  intro other hother
  obtain rfl := Option.some.inj (hfind.symm.trans hother)
  exact hordered

end Crowded

theorem Host.length_ackPairs_crowded {n : Nat} (hn : n ≤ 300) :
    ((Host.crowded (oddSacks n)).ackPairs 7 true).length = n := by
  have hkeyed := keyed_oddSacks (n := n) (by omega)
  have hcount := hkeyed.size
  have hsize : wideTransport.ackSize.toNat = 300 := by decide +kernel
  rw [List.length_map, List.length_range] at hcount
  rw [length_ackPairs (ordered_crowded _ hkeyed.ordered), sackCount_crowded, hcount, cfg_crowded]
  change min (max 1 wideTransport.ackSize.toNat) n = n
  omega

/-- 176 ranges fill the buffer. -/
theorem Host.ackPairs_fit_full :
    ((Host.crowded (oddSacks 176)).ackPairs 7 true).length = 176 ∧
      PairsFit ((Host.crowded (oddSacks 176)).ackPairs 7 true).length := by
  have hkeyed := keyed_oddSacks (n := 176) (by decide)
  have hcount := hkeyed.size
  rw [List.length_map, List.length_range] at hcount
  exact ⟨length_ackPairs_crowded (by decide),
    (ackPairs_fit_iff 1 (ackSizeFile 300) (fun rtt => rtt.toNat) Config.plainToken wideTransport
      wideTransport_mem _ (cfg_crowded _) 7 (ordered_crowded _ hkeyed.ordered) true).mpr
      (.inr (.inr (by rw [sackCount_crowded, hcount]; decide)))⟩

/-- 177 ranges are written into a buffer with room for 176. -/
theorem Host.not_ackPairs_fit_crowded :
    wideTransport ∈ loadTransport 1 (ackSizeFile 300) ∧
      (Host.crowded (oddSacks 177)).cfg =
        wideTransport.config (fun rtt => rtt.toNat) Config.plainToken ∧
      (∀ conn ∈ (Host.crowded (oddSacks 177)).findConnection 7, conn.sackMap.Ordered) ∧
      ¬ PairsFit ((Host.crowded (oddSacks 177)).ackPairs 7 true).length := by
  have hkeyed := keyed_oddSacks (n := 177) (by decide)
  refine ⟨wideTransport_mem, cfg_crowded _, ordered_crowded _ hkeyed.ordered, ?_⟩
  rw [pairsFit_iff_le, length_ackPairs_crowded (by decide)]
  decide

end Liteflow

import Liteflow.Proof.Rbuffer
import Liteflow.Proof.Receiver

/-!
# Acknowledgements are truthful

A position is received when a packet that contains it has been written into `recv_buf`. The ranges
of `recv_buf` and the ranges waiting to be acknowledged are two maps that the code merges, trims and
expires separately. What keeps both of them truthful is only that each range they ever get is a part
of ranges they have or of the packet just written, so the order in which their trees keep them does
not matter here.

`rbuf_write` enters the range of a packet before it has the blocks to put the packet in. When there
is no block it returns -1 and leaves the range where it is, and the next packet that arrives makes
the host acknowledge bytes it does not have.
-/

namespace Liteflow

def Received (stored : List DataPost) (q : Nat) : Prop :=
  ∃ post ∈ stored, post.seq.toNat ≤ q ∧ q < post.seq.toNat + post.data.length

instance (stored : List DataPost) (q : Nat) : Decidable (Received stored q) :=
  inferInstanceAs (Decidable (∃ post ∈ stored, _))

/-- Everything an acknowledgement says has been received when it was sent. -/
def SentAck.Truthful (sent : SentAck) : Prop :=
  (∀ q < sent.ack.winStart.toNat, Received sent.stored q) ∧
    ∀ range ∈ sent.ack.acks, ∀ q < range.2.toNat, range.1.toNat ≤ q → Received sent.stored q

instance (sent : SentAck) : Decidable sent.Truthful :=
  inferInstanceAs (Decidable ((∀ q < sent.ack.winStart.toNat, _) ∧
    ∀ range ∈ sent.ack.acks, ∀ q < range.2.toNat, range.1.toNat ≤ q → Received sent.stored q))

def Stream.Short (c : Stream) : Prop :=
  ∀ post ∈ c.stored, post.seq.toNat + post.data.length < 2 ^ 31

instance (c : Stream) : Decidable c.Short :=
  inferInstanceAs (Decidable (∀ post ∈ c.stored, _))

/-! ### Ranges -/

structure Truthful (stored : List DataPost) (start fin : U32) : Prop where
  le : start.toNat ≤ fin.toNat
  small : fin.toNat < 2 ^ 31
  received : ∀ q, start.toNat ≤ q → q < fin.toNat → Received stored q

section Ranges

variable {stored stored' : List DataPost} {start fin start' fin' : U32}

theorem lessEqual_of_small (hstart : start.toNat < 2 ^ 31) (hfin : fin.toNat < 2 ^ 31) :
    lessEqual start fin = true ↔ start.toNat ≤ fin.toNat := by
  have hle := lessEqual_wire (m := start.toNat) (n := fin.toNat) (by omega) (by omega)
  rwa [wire_of_toNat, wire_of_toNat] at hle

theorem Received.mono (hsub : stored ⊆ stored') {q : Nat} (hq : Received stored q) :
    Received stored' q := by
  obtain ⟨post, hpost, hin⟩ := hq
  exact ⟨post, hsub hpost, hin⟩

namespace Truthful

theorem mono (h : Truthful stored start fin) (hsub : stored ⊆ stored') :
    Truthful stored' start fin :=
  ⟨h.le, h.small, fun q hq hq' => (h.received q hq hq').mono hsub⟩

theorem empty (stored : List DataPost) : Truthful stored 0 0 :=
  ⟨le_rfl, by decide, fun q _ hq => absurd hq (Nat.not_lt_zero q)⟩

theorem start_small (h : Truthful stored start fin) : start.toNat < 2 ^ 31 :=
  lt_of_le_of_lt h.le h.small

theorem join (h : Truthful stored start fin) (h' : Truthful stored start' fin')
    (hle : start'.toNat ≤ fin.toNat) (hends : start.toNat ≤ fin'.toNat) :
    Truthful stored start fin' := by
  refine ⟨hends, h'.small, fun q hq hq' => ?_⟩
  rcases Nat.lt_or_ge q fin.toNat with hlt | hge
  · exact h.received q hq hlt
  · exact h'.received q (by omega) hq'

theorem tail (h : Truthful stored start fin) (hstart : start.toNat ≤ start'.toNat)
    (hfin : start'.toNat ≤ fin.toNat) : Truthful stored start' fin :=
  ⟨hfin, h.small, fun q hq => h.received q (by omega)⟩

theorem front (h : Truthful stored start fin) (hstart : start.toNat ≤ fin'.toNat)
    (hfin : fin'.toNat ≤ fin.toNat) : Truthful stored start fin' :=
  ⟨hstart, lt_of_le_of_lt hfin h.small, fun q hq hq' => h.received q hq (by omega)⟩

theorem of_mem {post : DataPost} (hpost : post ∈ stored)
    (hshort : post.seq.toNat + post.data.length < 2 ^ 31) :
    Truthful stored post.seq (post.seq + BitVec.ofNat 32 post.data.length) := by
  have hend : (post.seq + BitVec.ofNat 32 post.data.length).toNat =
      post.seq.toNat + post.data.length := by
    rw [BitVec.toNat_add, BitVec.toNat_ofNat]
    omega
  rw [← hend] at hshort
  exact ⟨by omega, hshort, fun q hq hq' => ⟨post, hpost, hq, by omega⟩⟩

end Truthful

end Ranges

/-! ### Maps of ranges -/

def TruthfulMap {ν : Type} (fin : ν → U32) (stored : List DataPost) (t : Treemap U32 ν) : Prop :=
  ∀ entry ∈ t.toList, Truthful stored entry.1 (fin entry.2)

namespace TruthfulMap

section Map

variable {ν : Type} {fin : ν → U32} {stored stored' : List DataPost} {t : Treemap U32 ν}

theorem nil (fin : ν → U32) (stored : List DataPost) :
    TruthfulMap fin stored (.nil : Treemap U32 ν) := by
  simp [TruthfulMap]

theorem mono (h : TruthfulMap fin stored t) (hsub : stored ⊆ stored') :
    TruthfulMap fin stored' t :=
  fun entry hentry => (h entry hentry).mono hsub

theorem delete (h : TruthfulMap fin stored t) (key : U32) :
    TruthfulMap fin stored (t.treemapDelete seqCmp key).2 :=
  fun entry hentry => h entry (Treemap.treemapDelete_subset seqCmp t key hentry)

theorem insert (h : TruthfulMap fin stored t) {key : U32} {value : ν}
    (hnew : (t.treemapInsert seqCmp key value).1 = 0 → Truthful stored key (fin value)) :
    TruthfulMap fin stored (t.treemapInsert seqCmp key value).2 := by
  intro entry hentry
  have hsub := Treemap.treemapInsert_subset seqCmp t key value hentry
  split at hsub
  · rename_i hret
    rcases List.mem_cons.mp hsub with rfl | hold
    · exact hnew hret
    · exact h entry hold
  · exact h entry hsub

theorem setValue (h : TruthfulMap fin stored t) {key : U32} {update : ν → ν}
    (hnew : ∀ value, (key, value) ∈ t.toList → Truthful stored key (fin (update value))) :
    TruthfulMap fin stored (t.treemapSetValue key update) := by
  intro entry hentry
  obtain ⟨value, hold, heq⟩ := Treemap.mem_treemapSetValue hentry
  rw [heq]
  split
  · rename_i hkey
    rw [hkey] at hold ⊢
    exact hnew value hold
  · exact h _ hold

theorem extend (h : TruthfulMap fin stored t) {it nstart : U32} {pend nend : ν}
    (hvalue : t.treemapValue it = some pend) (hnext : t.treemapNext it = some (nstart, nend))
    (hle : lessEqual nstart (fin pend) = true) (update : ν → ν)
    (hupdate : ∀ value, fin (update value) = fin nend) :
    TruthfulMap fin stored
      (if lessEqual (fin pend) (fin nend) then t.treemapSetValue it update else t) := by
  have hit := h _ (Treemap.mem_of_treemapValue hvalue)
  have hlater := h _ (Treemap.mem_of_treemapNext hnext)
  split
  · rename_i hends
    refine h.setValue fun value _ => ?_
    rw [hupdate]
    rw [lessEqual_of_small hlater.start_small hit.small] at hle
    rw [lessEqual_of_small hit.small hlater.small] at hends
    exact hit.join hlater hle (hit.le.trans hends)
  · exact h

end Map

section Merge

variable {stored : List DataPost}

theorem mergeSuccessors : ∀ (fuel : Nat) {ranges : Treemap U32 U32} (it : U32),
    TruthfulMap id stored ranges → TruthfulMap id stored (Rbuf.mergeSuccessors fuel ranges it) := by
  intro fuel
  induction fuel with
  | zero => exact fun _ h => h
  | succ fuel ih =>
      intro ranges it h
      rw [Rbuf.mergeSuccessors]
      split
      · rename_i pend nstart nend hvalue hnext
        split
        · rename_i hle
          exact ih it ((h.extend hvalue hnext hle (fun _ => nend) fun _ => rfl).delete nstart)
        · exact h
      · exact h

theorem mergeSacks : ∀ (fuel : Nat) {sackMap : Treemap U32 SackInfo} (it : U32),
    TruthfulMap SackInfo.seqEnd stored sackMap →
      TruthfulMap SackInfo.seqEnd stored (Stream.mergeSacks fuel sackMap it) := by
  intro fuel
  induction fuel with
  | zero => exact fun _ h => h
  | succ fuel ih =>
      intro sackMap it h
      rw [Stream.mergeSacks]
      split
      · rename_i pend nstart nend hvalue hnext
        split
        · rename_i hle
          exact ih it ((h.extend hvalue hnext hle (fun sack => { sack with seqEnd := nend.seqEnd })
            fun _ => rfl).delete nstart)
        · exact h
      · exact h

end Merge

end TruthfulMap

/-! ### The two maps of a connection -/

section Maps

variable {stored : List DataPost}

theorem TruthfulMap.insertRange {nodeAlloc : Bool} {ranges tree : Treemap U32 U32}
    {pos fin it : U32} {ret : Int} (h : TruthfulMap id stored ranges)
    (hinsert : Rbuf.insertRange nodeAlloc ranges pos fin = .ok (ret, it, tree))
    (hnew : ret = 0 → Truthful stored pos fin) : TruthfulMap id stored tree := by
  rcases Rbuf.insertRange_cases nodeAlloc ranges pos fin with
    ⟨_, -, heq⟩ | ⟨rstart, rend, hmem, hfrom, hto, heq⟩ | heq
  · rw [heq] at hinsert
    cases hinsert
  · rw [heq] at hinsert
    cases hinsert
    have hpos := hnew rfl
    have hrange := h _ hmem
    refine h.setValue fun _ _ => hrange.join hpos ?_ ?_
    · exact (lessEqual_of_small hpos.start_small hrange.small).mp hto
    · have := (lessEqual_of_small hrange.start_small hpos.start_small).mp hfrom
      exact this.trans hpos.le
  · rw [heq] at hinsert
    cases hinsert
    exact h.insert hnew

theorem TruthfulMap.expireSacks (nodeAlloc : Bool) {rwinStart : U32}
    (hstart : rwinStart.toNat < 2 ^ 31) :
    ∀ (fuel : Nat) {sackMap : Treemap U32 SackInfo}, TruthfulMap SackInfo.seqEnd stored sackMap →
      TruthfulMap SackInfo.seqEnd stored (Stream.expireSacks nodeAlloc rwinStart fuel sackMap) := by
  intro fuel
  induction fuel with
  | zero => exact fun h => h
  | succ fuel ih =>
      intro sackMap h
      rw [Stream.expireSacks]
      split
      · exact h
      · rename_i seq sack hfirst
        have hrange := h _ (List.mem_of_mem_head? hfirst)
        split
        · exact h
        · rename_i hbefore
          dsimp only
          split
          · exact ih (h.delete seq)
          · rename_i hpast
            split
            · rw [lessEqual_of_small hstart hrange.start_small] at hbefore
              rw [lessEqual_of_small hrange.small hstart] at hpast
              exact (h.delete seq).insert fun _ => hrange.tail (by omega) (by omega)
            · exact h.delete seq

theorem TruthfulMap.insertSack {nodeAlloc : Bool} {sackMap : Treemap U32 SackInfo} {start fin : U32}
    (h : TruthfulMap SackInfo.seqEnd stored sackMap) (hrange : Truthful stored start fin) :
    TruthfulMap SackInfo.seqEnd stored (Stream.insertSack nodeAlloc sackMap start fin) := by
  unfold Stream.insertSack
  split
  · exact TruthfulMap.mergeSacks _ _ (h.insert fun _ => hrange)
  · exact h

theorem TruthfulMap.addSack {nodeAlloc : Bool} {sackMap : Treemap U32 SackInfo} {start fin : U32}
    (h : TruthfulMap SackInfo.seqEnd stored sackMap) (hrange : Truthful stored start fin) :
    TruthfulMap SackInfo.seqEnd stored (Stream.addSack nodeAlloc sackMap start fin) := by
  unfold Stream.addSack
  split
  · exact h.insertSack hrange
  · rename_i rstart sack hat
    have hsack := h _ (Rbuf.rangeAt_mem hat)
    split
    · exact h
    · split
      · rename_i hwithin
        obtain ⟨hfrom, hto⟩ := Bool.and_eq_true_iff.mp hwithin
        rw [lessEqual_of_small hsack.start_small hrange.start_small] at hfrom
        rw [lessEqual_of_small hrange.start_small hsack.small] at hto
        exact TruthfulMap.mergeSacks _ _
          (h.setValue fun _ _ => hsack.join hrange hto (hfrom.trans hrange.le))
      · exact h.insertSack hrange

theorem TruthfulMap.collectAcks (ackSize : U32) :
    ∀ (fuel cnt : Nat) {it : Option (U32 × SackInfo)} {sackMap : Treemap U32 SackInfo},
      TruthfulMap SackInfo.seqEnd stored sackMap →
      (∀ entry, it = some entry → Truthful stored entry.1 entry.2.seqEnd) →
      (∀ range ∈ (Stream.collectAcks ackSize fuel cnt it sackMap).1,
        Truthful stored range.1 range.2) ∧
      TruthfulMap SackInfo.seqEnd stored (Stream.collectAcks ackSize fuel cnt it sackMap).2 := by
  intro fuel
  induction fuel with
  | zero => exact fun _ _ _ h _ => ⟨by simp [Stream.collectAcks], h⟩
  | succ fuel ih =>
      intro cnt it sackMap h hit
      cases it with
      | none => exact ⟨by simp [Stream.collectAcks], h⟩
      | some entry =>
          obtain ⟨start, sack⟩ := entry
          have hfirst : Truthful stored start sack.seqEnd := hit _ rfl
          have hcounted : TruthfulMap SackInfo.seqEnd stored
              (sackMap.treemapSetValue start
                (fun s => { s with sendTimes := sack.sendTimes + 1 })) :=
            h.setValue fun value hvalue => h (start, value) hvalue
          have hleft : TruthfulMap SackInfo.seqEnd stored
              (if 2 ≤ (sack.sendTimes + 1).toNat then
                ((sackMap.treemapSetValue start
                  (fun s => { s with sendTimes := sack.sendTimes + 1 })).treemapDelete
                    seqCmp start).2
              else sackMap.treemapSetValue start
                (fun s => { s with sendTimes := sack.sendTimes + 1 })) := by
            split
            · exact hcounted.delete start
            · exact hcounted
          have hnext : ∀ entry, sackMap.treemapNext start = some entry →
              Truthful stored entry.1 entry.2.seqEnd :=
            fun entry hentry => h entry (Treemap.mem_of_treemapNext hentry)
          obtain ⟨hacks, hrest⟩ := ih (cnt + 1) hleft hnext
          rw [Stream.collectAcks]
          dsimp only
          split
          · exact ⟨by simpa using hfirst, hleft⟩
          · refine ⟨fun range hrange => ?_, hrest⟩
            rcases List.mem_cons.mp hrange with rfl | hrange
            · exact hfirst
            · exact hacks range hrange

end Maps

/-! ### The receiving half -/

/-- Everything the connection takes for received has been received, and so has everything it has
said to be. -/
structure Honest (c : Stream) : Prop where
  start : Truthful c.stored 0 c.recvBuf.startPos
  window : Truthful c.stored 0 c.rwinStart
  ranges : TruthfulMap id c.stored c.recvBuf.rangeMap
  sacks : TruthfulMap SackInfo.seqEnd c.stored c.sackMap
  acks : ∀ sent ∈ c.acks, sent.Truthful

section Honest

variable {c c' : Stream}

theorem honest_newConn (cfg : Config) (now : Time) (tunnelId : U16) (state : ConnState) :
    Honest (Host.newConn cfg now tunnelId state).toStream where
  start := .empty _
  window := .empty _
  ranges := .nil _ _
  sacks := .nil _ _
  acks := by simp [Host.newConn]

theorem Honest.of_same (hhonest : Honest c) (hsame : SameRecord c c') : Honest c' where
  start := by rw [hsame.stored_eq, hsame.recvBuf_eq]; exact hhonest.start
  window := by rw [hsame.stored_eq, hsame.rwinStart_eq]; exact hhonest.window
  ranges := by rw [hsame.stored_eq, hsame.recvBuf_eq]; exact hhonest.ranges
  sacks := by rw [hsame.stored_eq, hsame.sackMap_eq]; exact hhonest.sacks
  acks := by rw [hsame.acks_eq]; exact hhonest.acks

theorem Truthful.readable {stored : List DataPost} {rb : Rbuf}
    (hranges : TruthfulMap id stored rb.rangeMap) (hpos : rb.rbufReadableBytes ≠ 0) :
    ∃ fend, rb.rangeMap.treemapFirst = some (rb.startPos, fend) ∧
      rb.rbufReadableBytes = fend - rb.startPos ∧ Truthful stored rb.startPos fend := by
  unfold Rbuf.rbufReadableBytes at hpos ⊢
  split at hpos
  · exact absurd rfl hpos
  · rename_i fstart fend hfirst
    split at hpos
    · exact absurd rfl hpos
    · rename_i heq
      obtain rfl := not_not.mp heq
      refine ⟨fend, hfirst, ?_, hranges _ (List.mem_of_mem_head? hfirst)⟩
      simp

theorem Honest.window_eq {stored : List DataPost} {rb : Rbuf}
    (hstart : Truthful stored 0 rb.startPos) (hranges : TruthfulMap id stored rb.rangeMap) :
    Truthful stored 0 (rb.startPos + rb.rbufReadableBytes) := by
  by_cases hzero : rb.rbufReadableBytes = 0
  · rw [hzero]
    simpa using hstart
  · obtain ⟨fend, -, hreadable, hfirst⟩ := Truthful.readable hranges hzero
    rw [hreadable, BitVec.add_comm, BitVec.sub_add_cancel]
    exact hstart.join hfirst le_rfl (Nat.zero_le _)

theorem Honest.pushSackMap (hhonest : Honest c) (nodeAlloc : Bool) (seq : U32) :
    Honest (c.pushSackMap nodeAlloc seq) := by
  have hexpired := hhonest.sacks.expireSacks nodeAlloc hhonest.window.small c.sackMap.treemapSize
  unfold Stream.pushSackMap
  split
  · exact hhonest
  · dsimp only
    split
    · exact { hhonest with sacks := hexpired }
    · rename_i start fin hat
      exact { hhonest with sacks := hexpired.addSack (hhonest.ranges _ (Rbuf.rangeAt_mem hat)) }

theorem Honest.rbufWrite {alloc : Alloc} (halloc : ∀ i, (alloc.block i).isSome)
    (hhonest : Honest c) {post : DataPost} {stored : List DataPost} (hsub : c.stored ⊆ stored)
    (hnew : (c.recvBuf.rbufWrite alloc post.seq post.data).1 = 0 →
      Truthful stored post.seq (post.seq + BitVec.ofNat 32 post.data.length)) :
    (c.recvBuf.rbufWrite alloc post.seq post.data).2.startPos = c.recvBuf.startPos ∧
      TruthfulMap id stored (c.recvBuf.rbufWrite alloc post.seq post.data).2.rangeMap := by
  rcases Rbuf.rbufWrite_cases alloc c.recvBuf post.seq post.data with
    ⟨ret, -, heq⟩ | ⟨ret, it, tree, ret', blocks, hinsert, heq, hret⟩
  · rw [heq]
    exact ⟨rfl, hhonest.ranges.mono hsub⟩
  · rw [heq] at hnew ⊢
    refine ⟨rfl, TruthfulMap.mergeSuccessors _ it ?_⟩
    refine (hhonest.ranges.mono hsub).insertRange hinsert fun hzero => hnew ?_
    rcases hret with rfl | ⟨-, i, hnone⟩
    · exact hzero
    · exact absurd (halloc i) (by simp [hnone])

theorem stored_storeData (alloc : Alloc) (c : Stream) (post : DataPost) :
    (c.storeData alloc post).2.stored =
      if (c.recvBuf.rbufWrite alloc post.seq post.data).1 = 0 then c.stored ++ [post]
      else c.stored := by
  unfold Stream.storeData
  dsimp only
  split
  · rw [(recvFrame_pushSackMap _ _ _).stored_eq]
    rfl
  · rfl

theorem stored_subset_storeData (alloc : Alloc) (c : Stream) (post : DataPost) :
    c.stored ⊆ (c.storeData alloc post).2.stored := by
  rw [stored_storeData]
  split
  · exact List.subset_append_left _ _
  · exact fun _ h => h

theorem Honest.storeData {alloc : Alloc} (halloc : ∀ i, (alloc.block i).isSome)
    (hhonest : Honest c) {post : DataPost} (hshort : (c.storeData alloc post).2.Short) :
    Honest (c.storeData alloc post).2 := by
  have hsub := stored_subset_storeData alloc c post
  have hstored := stored_storeData alloc c post
  unfold Stream.Short at hshort
  rw [hstored] at hsub hshort
  obtain ⟨hstart, hranges⟩ := hhonest.rbufWrite halloc hsub fun hzero => by
    rw [if_pos hzero] at hshort ⊢
    exact .of_mem (by simp) (hshort post (by simp))
  have hstart' := hhonest.start.mono hsub
  rw [← hstart] at hstart'
  unfold Stream.storeData
  dsimp only
  split
  · refine Honest.pushSackMap ?_ _ _
    exact ⟨hstart', Honest.window_eq hstart' hranges, hranges, hhonest.sacks.mono hsub,
      hhonest.acks⟩
  · exact ⟨hstart', hhonest.window.mono hsub, hranges, hhonest.sacks.mono hsub, hhonest.acks⟩

theorem Honest.releaseRecv {nodeAlloc : Bool} {size : U32} (hhonest : Honest c) (hsize : size ≠ 0)
    (hreleased : c.releaseRecv nodeAlloc size = some c') : Honest c' := by
  obtain ⟨recvBuf, hrelease, rfl⟩ := Option.map_eq_some_iff.mp hreleased
  obtain ⟨hle, tree, startBlock, blocks, rfl, htree⟩ := Rbuf.rbufRelease_cases hrelease
  have hreadable : c.recvBuf.rbufReadableBytes ≠ 0 := by
    intro hzero
    rw [hzero] at hle
    exact hsize (BitVec.le_zero_iff.mp hle)
  obtain ⟨fend, hfirst, hbytes, hrange⟩ := Truthful.readable hhonest.ranges hreadable
  -- the released bytes are at the front of the first range
  have hlen : size.toNat ≤ fend.toNat - c.recvBuf.startPos.toNat := by
    rw [hbytes, BitVec.le_def, BitVec.toNat_sub_of_le hrange.le] at hle
    exact hle
  have hmoved : (c.recvBuf.startPos + size).toNat = c.recvBuf.startPos.toNat + size.toNat := by
    have := hrange.small
    have := hrange.le
    rw [BitVec.toNat_add]
    omega
  have hfront : Truthful c.stored 0 (c.recvBuf.startPos + size) := by
    have := hrange.le
    refine hhonest.start.join (hrange.front ?_ ?_) le_rfl (Nat.zero_le _) <;> omega
  have htail : Truthful c.stored (c.recvBuf.startPos + size) fend := by
    have := hrange.le
    apply hrange.tail <;> omega
  have hranges : TruthfulMap id c.stored tree := by
    rcases htree with rfl | ⟨fstart, fend', -, hfirst', rfl⟩
    · exact hhonest.ranges.delete _
    · rw [hfirst] at hfirst'
      cases hfirst'
      exact (hhonest.ranges.delete _).insert fun _ => htail
  exact ⟨hfront, Honest.window_eq hfront hranges, hranges, hhonest.sacks, hhonest.acks⟩

theorem Honest.acknowledged (hhonest : Honest c) {ackSize : U32} {acks : List (U32 × U32)}
    {sackMap : Treemap U32 SackInfo}
    (hacks : (acks, sackMap) = c.takeAcks ackSize ∨ (acks, sackMap) = ([], c.sackMap)) :
    Honest (c.acknowledged acks sackMap) := by
  have hsaid : (∀ range ∈ acks, Truthful c.stored range.1 range.2) ∧
      TruthfulMap SackInfo.seqEnd c.stored sackMap := by
    rcases hacks with hacks | hacks
    · obtain ⟨hranges, hleft⟩ := hhonest.sacks.collectAcks ackSize c.sackMap.treemapSize 0
        (fun entry hentry => hhonest.sacks entry (List.mem_of_mem_head? hentry))
      cases hacks
      exact ⟨fun range hrange => hranges range (List.mem_of_mem_take hrange), hleft⟩
    · cases hacks
      exact ⟨by simp, hhonest.sacks⟩
  refine ⟨hhonest.start, hhonest.window, hhonest.ranges, hsaid.2, fun sent hsent => ?_⟩
  rcases List.mem_append.mp hsent with hsent | hsent
  · exact hhonest.acks sent hsent
  · obtain rfl := List.mem_singleton.mp hsent
    exact ⟨fun q hq => hhonest.window.received q (Nat.zero_le q) hq,
      fun range hrange q hq hq' => (hsaid.1 range hrange).received q hq' hq⟩

theorem ReceiverStep.stored_subset {alloc : Alloc} {ackSize : U32}
    (hstep : ReceiverStep alloc ackSize c c') : c.stored ⊆ c'.stored := by
  cases hstep with
  | same hsame => rw [hsame.stored_eq]; exact fun _ h => h
  | store post hsized hlen => exact stored_subset_storeData alloc c post
  | read size hsize hreleased =>
      obtain ⟨-, recvBuf, rwinStart, rwinSize, rfl⟩ := Stream.releaseRecv_eq hreleased
      exact fun _ h => h
  | ack acks sackMap hacks => exact fun _ h => h

theorem Honest.step {alloc : Alloc} (halloc : ∀ i, (alloc.block i).isSome) {ackSize : U32}
    (hstep : ReceiverStep alloc ackSize c c') (hhonest : c.Short → Honest c) :
    c'.Short → Honest c' := by
  intro hshort
  have hhonest := hhonest fun post hpost => hshort post (hstep.stored_subset hpost)
  cases hstep with
  | same hsame => exact hhonest.of_same hsame
  | store post hsized hlen => exact hhonest.storeData halloc hshort
  | read size hsize hreleased => exact hhonest.releaseRecv hsize hreleased
  | ack acks sackMap hacks => exact hhonest.acknowledged hacks

end Honest

/-! ### Whole runs -/

def Host.TruthfulAcks (h : Host) (flow : U32) : Prop :=
  ∀ flight ∈ h.out, ∀ ack, flight.packet = .dataAck flow ack →
    ∃ c, h.Incarnation flow c ∧ ∃ sent ∈ c.acks, sent.ack = ack ∧ sent.Truthful

/-- Whatever arrives, as long as blocks can be had and less than `2 ^ 31` bytes of each stream have
been received: what an acknowledgement says had been written into `recv_buf` when it was sent. -/
theorem acks_truthful (cfg : Config) (nodeId : U16) (now : Time)
    {events : List (Env × HostEvent)} (halloc : ∀ e ∈ events, ∀ i, (e.1.alloc.block i).isSome)
    {flow : U32}
    (hshort : ∀ c, ((Host.litedtInit cfg nodeId now).run events).Incarnation flow c → c.Short) :
    ((Host.litedtInit cfg nodeId now).run events).TruthfulAcks flow := by
  have hrecorded : Recorded flow cfg (fun c => c.Short → Honest c)
      (((Host.litedtInit cfg nodeId now).run events).view flow) :=
    recorded_run nodeId now (fun now tunnelId state _ => honest_newConn cfg now tunnelId state)
      (fun e he _ _ hstep hhonest => Honest.step (halloc e he) hstep hhonest)
  intro flight hflight ack hack
  obtain ⟨c, hc, sent, hsent, -, rfl⟩ := hrecorded.sent flight hflight ack hack
  have hinc := Host.incarnation_iff_view.mpr hc
  exact ⟨c, hinc, sent, hsent, rfl, (hrecorded.incarnation c hc (hshort c hinc)).acks sent hsent⟩

/-- A peer opens a flow, sends a byte twice, first in `env`, and asks for an acknowledgement. -/
def byteTwice (env : Env) : List (Env × HostEvent) :=
  let post : DataPost := { seq := 0, len := 1, fecSeq := 0, fecIndex := 0, data := [97] }
  [(.plain 0, .io (.connectReq 7 0)),
    (env, .io (.dataPost 7 post)),
    (.plain 0, .io (.dataPost 7 post)),
    (.plain 0, .io (.dataPost 7 { seq := 1, len := 0, fecSeq := 0, fecIndex := 0, data := [] }))]

theorem acks_truthful_byteTwice :
    ((Host.litedtInit (.globalConfigInit Config.plainToken) 1 0).run
      (byteTwice (.plain 0))).TruthfulAcks 7 :=
  acks_truthful _ _ _
    (by simpa [byteTwice] using fun i => (Env.plain_succeeds 0).2 i) (by decide +kernel)

def Env.noBlock (now : Time) : Env :=
  { Env.plain now with alloc := { node := true, block := fun _ => none } }

/-- The acknowledgement of a byte that was never written. -/
theorem acks_truthful_noBlock :
    (∀ c, ((Host.litedtInit (.globalConfigInit Config.plainToken) 1 0).run
        (byteTwice (.noBlock 0))).Incarnation 7 c → c.Short) ∧
      ¬ ((Host.litedtInit (.globalConfigInit Config.plainToken) 1 0).run
        (byteTwice (.noBlock 0))).TruthfulAcks 7 := by
  refine ⟨by decide +kernel, fun htruthful => ?_⟩
  have hsent : ∃ flight ∈ ((Host.litedtInit (.globalConfigInit Config.plainToken) 1 0).run
      (byteTwice (.noBlock 0))).out,
      flight.packet = .dataAck 7 { winStart := 1, winSize := 0x9fffff, acks := [] } := by
    decide +kernel
  have hlies : ∀ c, ((Host.litedtInit (.globalConfigInit Config.plainToken) 1 0).run
      (byteTwice (.noBlock 0))).Incarnation 7 c →
        ∀ sent ∈ c.acks, sent.ack.winStart = 1 → ¬ sent.Truthful := by
    decide +kernel
  obtain ⟨flight, hflight, hpacket⟩ := hsent
  obtain ⟨c, hc, sent, hmem, hack, htrue⟩ := htruthful flight hflight _ hpacket
  exact hlies c hc sent hmem (by rw [hack]) htrue

end Liteflow

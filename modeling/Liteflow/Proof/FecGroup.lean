import Liteflow.FecChannel
import Liteflow.Lib.Parity
import Liteflow.Proof.Bytes

/-!
# A group at the receiver

The entry of a group in `fec_queue` represents the decoder of `Parity` over the packets of the
group: `fec_map` and `fec_sum` are its marks, `fec_finish` counts them, and `fec_buf` is the
exclusive or of what is marked. One call of `fec_insert` is one step of that decoder.
-/

namespace Liteflow

open HashQueue

namespace FecMod

/-! ### The queue of groups -/

theorem arrangeLoop_eq (fseq : U32) (entry : U32 × FecGroup) (before later : HashQueue U32 FecGroup) :
    arrangeLoop fseq entry before later =
      (before.dropWhile (fun prec => lessEqual fseq prec.2.fecSeq)).reverse ++
        entry :: ((before.takeWhile (fun prec => lessEqual fseq prec.2.fecSeq)).reverse ++ later) := by
  induction before generalizing later with
  | nil => rfl
  | cons prec before ih =>
      rw [arrangeLoop]
      split
      · rename_i hlater
        rw [ih]
        simp [hlater]
      · rename_i hstop
        simp [hstop]

/-- The new group goes behind the last group of the queue that it does not precede. -/
theorem arrange_eq (fseq : U32) (group : FecGroup) (queue : HashQueue U32 FecGroup) :
    arrange fseq group queue =
      (queue.reverse.dropWhile (fun prec => lessEqual fseq prec.2.fecSeq)).reverse ++
        (fseq, group) :: (queue.reverse.takeWhile (fun prec => lessEqual fseq prec.2.fecSeq)).reverse := by
  rw [arrange, arrangeLoop_eq, List.append_nil]

theorem arrange_perm_split (fseq : U32) (group : FecGroup) (queue : HashQueue U32 FecGroup) :
    ∃ front back, queue = front ++ back ∧ arrange fseq group queue = front ++ (fseq, group) :: back := by
  refine ⟨_, _, ?_, arrange_eq fseq group queue⟩
  rw [← List.reverse_append, List.takeWhile_append_dropWhile, List.reverse_reverse]

theorem queueGet_arrange {fseq : U32} {queue : HashQueue U32 FecGroup}
    (hnone : queueGet queue fseq = none) (group : FecGroup) (k : U32) :
    queueGet (arrange fseq group queue) k = if k = fseq then some group else queueGet queue k := by
  obtain ⟨front, back, hqueue, harrange⟩ := arrange_perm_split fseq group queue
  rw [harrange, queueGet_append, queueGet_cons]
  by_cases hk : k = fseq
  · have hfront : queueGet front k = none := by
      rw [hqueue, queueGet_append, Option.or_eq_none_iff] at hnone
      exact hk ▸ hnone.1
    rw [hfront, if_pos hk.symm, if_pos hk, Option.none_or]
  · rw [if_neg (Ne.symm hk), if_neg hk, hqueue, queueGet_append]

def opened (fm : FecMod) (fseq : U32) (fmems : U8) : FecMod :=
  match fm.fecQueue.queueGet fseq with
  | some _ => fm
  | none => { fm with fecQueue := arrange fseq (newGroup fseq fmems) fm.fecQueue }

theorem queueGet_opened (fm : FecMod) (fseq : U32) (fmems : U8) (k : U32) :
    (fm.opened fseq fmems).fecQueue.queueGet k =
      if k = fseq then some ((fm.fecQueue.queueGet fseq).getD (newGroup fseq fmems))
      else fm.fecQueue.queueGet k := by
  cases hget : fm.fecQueue.queueGet fseq with
  | some group =>
      have hopened : fm.opened fseq fmems = fm := by rw [opened, hget]
      rw [hopened, Option.getD_some]
      by_cases hk : k = fseq
      · rw [if_pos hk, hk, hget]
      · rw [if_neg hk]
  | none =>
      have hopened : (fm.opened fseq fmems).fecQueue =
          arrange fseq (newGroup fseq fmems) fm.fecQueue := by rw [opened, hget]
      rw [hopened]
      exact queueGet_arrange hget _ k

def counted (group : FecGroup) (buf : List Byte) : FecGroup :=
  { group with fecBuf := xorInto group.fecBuf buf, fecFinish := group.fecFinish + 1 }

theorem fecInsert_eq {fm : FecMod} {fseq : U32} {fidx fmems : U8} {buf : List Byte} {fin : U32}
    (hrange : fm.InRange fseq)
    (hvalid : ¬(fmems = 0 ∨ fecMembersMax < fmems ∨ (fidx < fecMembersMax ∧ fmems ≤ fidx) ∨
      buf.length = 0)) (hlen : buf.length ≤ litedtMtuMax) :
    fm.fecInsert true fseq fidx fmems buf fin =
      let group := (fm.fecQueue.queueGet fseq).getD (newGroup fseq fmems)
      if fecMembersMax < fidx then
        if group.fecSum then { fec := fm.opened fseq fmems }
        else (fm.opened fseq fmems).recover fseq
          (counted { group with fecMembers := fmems, fecSum := true } buf) []
      else if group.fecMap fidx then { fec := fm.opened fseq fmems, indices := [fidx] }
      else (fm.opened fseq fmems).recover fseq
        (counted (FecGroup.extend (FecGroup.mark group fidx) fin) buf) [fidx] := by
  have hget := queueGet_opened fm fseq fmems fseq
  rw [if_pos rfl] at hget
  rw [fecInsert, if_neg (BitVec.not_le.mpr hrange), if_neg hvalid, if_neg (Nat.not_lt.mpr hlen)]
  cases hfind : fm.fecQueue.queueGet fseq with
  | some group =>
      have hopened : fm.opened fseq fmems = fm := by rw [opened, hfind]
      rw [hopened]
      simp only [hfind, Option.getD_some]
      rfl
  | none =>
      have hopened : fm.opened fseq fmems =
          { fm with fecQueue := arrange fseq (newGroup fseq fmems) fm.fecQueue } := by
        rw [opened, hfind]
      rw [hopened, hfind] at hget
      rw [hopened]
      simp only [if_true, hget]
      rfl

/-- Without memory for a new group nothing is changed. -/
theorem fecInsert_node (nodeAlloc : Bool) (fm : FecMod) (fseq : U32) (fidx fmems : U8)
    (buf : List Byte) (fin : U32) :
    fm.fecInsert nodeAlloc fseq fidx fmems buf fin = { fec := fm } ∨
      fm.fecInsert nodeAlloc fseq fidx fmems buf fin = fm.fecInsert true fseq fidx fmems buf fin := by
  cases nodeAlloc with
  | true => exact .inr rfl
  | false =>
      cases hget : fm.fecQueue.queueGet fseq with
      | some group => exact .inr (by simp only [fecInsert, hget])
      | none =>
          refine .inl ?_
          simp only [fecInsert, hget, Bool.false_eq_true, if_false]
          split_ifs <;> rfl

theorem fecInsert_eq_of_not_inRange {nodeAlloc : Bool} {fm : FecMod} {fseq : U32}
    (hrange : ¬fm.InRange fseq) (fidx fmems : U8) (buf : List Byte) (fin : U32) :
    fm.fecInsert nodeAlloc fseq fidx fmems buf fin = { fec := fm } := by
  rw [fecInsert, if_pos (BitVec.not_lt.mp hrange)]

@[simp]
theorem fecSeq_extend (group : FecGroup) (fin : U32) :
    (FecGroup.extend group fin).fecSeq = group.fecSeq := by
  unfold FecGroup.extend
  split <;> rfl

theorem fecInsert_cases (nodeAlloc : Bool) (fm : FecMod) (fseq : U32) (fidx fmems : U8)
    (buf : List Byte) (fin : U32) :
    fm.fecInsert nodeAlloc fseq fidx fmems buf fin = { fec := fm } ∨
    (∃ used, fm.fecInsert nodeAlloc fseq fidx fmems buf fin =
      { fec := fm.opened fseq fmems, indices := used }) ∨
    ∃ group used, fm.fecInsert nodeAlloc fseq fidx fmems buf fin =
        (fm.opened fseq fmems).recover fseq group used ∧
      group.fecSeq = ((fm.fecQueue.queueGet fseq).getD (newGroup fseq fmems)).fecSeq := by
  rcases fecInsert_node nodeAlloc fm fseq fidx fmems buf fin with heq | heq
  · exact Or.inl heq
  rw [heq]
  by_cases hrange : fm.InRange fseq
  · by_cases hvalid : fmems = 0 ∨ fecMembersMax < fmems ∨ (fidx < fecMembersMax ∧ fmems ≤ fidx) ∨
        buf.length = 0
    · rw [fecInsert, if_neg (BitVec.not_le.mpr hrange), if_pos hvalid]
      exact Or.inl rfl
    · by_cases hlen : buf.length ≤ litedtMtuMax
      · rw [fecInsert_eq hrange hvalid hlen]
        dsimp only
        split_ifs
        · exact Or.inr (Or.inl ⟨[], rfl⟩)
        · exact Or.inr (Or.inr ⟨_, _, rfl, rfl⟩)
        · exact Or.inr (Or.inl ⟨[fidx], rfl⟩)
        · exact Or.inr (Or.inr ⟨_, _, rfl, fecSeq_extend _ _⟩)
      · rw [fecInsert, if_neg (BitVec.not_le.mpr hrange), if_neg hvalid,
          if_pos (Nat.not_le.mp hlen)]
        exact Or.inl rfl
  · exact Or.inl (fecInsert_eq_of_not_inRange hrange _ _ _ _)

theorem recover_cases (fm : FecMod) (fseq : U32) (group : FecGroup) (used : List U8) :
    (∃ written, (fm.recover fseq group used).fec.fecQueue =
      fm.fecQueue.queueModify fseq (fun _ => written) ∧ written.fecSeq = group.fecSeq) ∧
    ∀ post, (fm.recover fseq group used).recovered = some post → post.fecSeq = fseq := by
  unfold recover
  dsimp only
  split
  · split
    · exact ⟨⟨_, rfl, rfl⟩, by simp⟩
    · rename_i hseq
      split
      · exact ⟨⟨_, rfl, rfl⟩, by simp⟩
      · refine ⟨⟨_, rfl, fecSeq_extend _ _⟩, ?_⟩
        rintro post ⟨⟩
        exact not_not.mp hseq
  · exact ⟨⟨_, rfl, rfl⟩, by simp⟩

theorem queueGet_fecInsert_of_ne (nodeAlloc : Bool) (fm : FecMod) (fseq : U32) (fidx fmems : U8)
    (buf : List Byte) (fin : U32) {k : U32} (hk : k ≠ fseq) :
    (fm.fecInsert nodeAlloc fseq fidx fmems buf fin).fec.fecQueue.queueGet k = fm.fecQueue.queueGet k := by
  have hopened : (fm.opened fseq fmems).fecQueue.queueGet k = fm.fecQueue.queueGet k := by
    rw [queueGet_opened, if_neg hk]
  rcases fecInsert_cases _ fm fseq fidx fmems buf fin with heq | ⟨used, heq⟩ | ⟨group, used, heq, -⟩
  · rw [heq]
  · rw [heq]
    exact hopened
  · obtain ⟨⟨written, hwritten, -⟩, -⟩ := recover_cases (fm.opened fseq fmems) fseq group used
    rw [heq, hwritten, queueGet_queueModify, if_neg hk, hopened]

theorem fecSeq_of_recovered {nodeAlloc : Bool} {fm : FecMod} {fseq : U32} {fidx fmems : U8}
    {buf : List Byte} {fin : U32} {post : DataPost}
    (h : (fm.fecInsert nodeAlloc fseq fidx fmems buf fin).recovered = some post) : post.fecSeq = fseq := by
  rcases fecInsert_cases _ fm fseq fidx fmems buf fin with heq | ⟨used, heq⟩ | ⟨group, used, heq, -⟩
  · rw [heq] at h
    cases h
  · rw [heq] at h
    cases h
  · rw [heq] at h
    exact (recover_cases _ _ _ _).2 post h

theorem queueGet_fecCheckpoint (cfg : Config) (fm : FecMod) (recvStart k : U32) :
    (fm.fecCheckpoint cfg recvStart).fecQueue.queueGet k = none ∨
      (fm.fecCheckpoint cfg recvStart).fecQueue.queueGet k = fm.fecQueue.queueGet k := by
  have hloop : ∀ fuel (fm : FecMod),
      (checkpointLoop recvStart fuel fm).fecQueue.queueGet k = none ∨
        (checkpointLoop recvStart fuel fm).fecQueue.queueGet k = fm.fecQueue.queueGet k := by
    intro fuel
    induction fuel with
    | zero => exact fun fm => Or.inr rfl
    | succ fuel ih =>
        intro fm
        unfold checkpointLoop
        split
        · rename_i fec1 _ fec2 _ hqueue
          split
          · rcases ih { fm with
                fecRecvStart := fec2.fecSeq
                fecQueue := fm.fecQueue.queueDel fec1.fecSeq } with h | h
            · exact Or.inl h
            · rw [h]
              change HashQueue.queueGet (fm.fecQueue.queueDel fec1.fecSeq) k = none ∨
                HashQueue.queueGet (fm.fecQueue.queueDel fec1.fecSeq) k = _
              rw [queueGet_queueDel]
              split
              · exact Or.inl rfl
              · exact Or.inr rfl
          · exact Or.inr rfl
        · exact Or.inr rfl
  exact hloop _ fm

end FecMod

/-! ### The packets of one group -/

/-- The data packets of a group: numbered from 0, few enough, and each within the buffers. -/
structure Family (k : U32) (posts : List DataPost) : Prop where
  small : posts.length ≤ 127
  fecSeq : ∀ post ∈ posts, post.fecSeq = k
  index : ∀ i (hi : i < posts.length), posts[i].fecIndex.toNat = i
  sized : ∀ post ∈ posts, post.Sized
  fits : ∀ post ∈ posts, post.bytes.length ≤ litedtMtuMax

def byteOf (posts : List DataPost) (j i : Nat) : Byte :=
  ((posts[i]?.map (fun post => (post.bytes[j]?).getD 0))).getD 0

theorem byteOf_eq {posts : List DataPost} {i : Nat} {post : DataPost} (hpost : posts[i]? = some post)
    (j : Nat) : byteOf posts j i = (post.bytes[j]?).getD 0 := by
  rw [byteOf, hpost, Option.map_some, Option.getD_some]

def residue (posts : List DataPost) (d : Parity.Decoder) : Nat → Byte := fun j =>
  Parity.parity (byteOf posts j) d.marked ^^^
    if d.sum then Parity.parity (byteOf posts j) (Finset.range posts.length) else 0

structure Counted (posts : List DataPost) (d : Parity.Decoder) (group : FecGroup) : Prop where
  sub : d.marked ⊆ Finset.range posts.length
  map : ∀ i, group.fecMap i = true ↔ i.toNat ∈ d.marked
  sum : group.fecSum = d.sum
  members : group.fecSum = true → group.fecMembers.toNat = posts.length
  finish : group.fecFinish.toNat = d.marked.card + d.sum.toNat
  buf : group.fecBuf = residue posts d

structure Finished (posts : List DataPost) (d : Parity.Decoder) (group : FecGroup) : Prop where
  map : ∀ i, group.fecMap i = true ↔ i.toNat < posts.length
  fecSum : group.fecSum = true
  sum : d.sum = true
  marked : d.marked = Finset.range posts.length

def Decodes (posts : List DataPost) (d : Parity.Decoder) (group : FecGroup) : Prop :=
  Counted posts d group ∨ Finished posts d group

theorem Decodes.map {posts : List DataPost} {d : Parity.Decoder} {group : FecGroup}
    (h : Decodes posts d group) (i : U8) : group.fecMap i = true ↔ i.toNat ∈ d.marked := by
  rcases h with h | h
  · exact h.map i
  · rw [h.map, h.marked, Finset.mem_range]

theorem Decodes.fecSum {posts : List DataPost} {d : Parity.Decoder} {group : FecGroup}
    (h : Decodes posts d group) : group.fecSum = d.sum := by
  rcases h with h | h
  · exact h.sum
  · rw [h.fecSum, h.sum]

theorem counted_newGroup (posts : List DataPost) (fseq : U32) (fmems : U8) :
    Counted posts Parity.Decoder.empty (FecMod.newGroup fseq fmems) where
  sub := Finset.empty_subset _
  map := by simp [FecMod.newGroup, Parity.Decoder.empty]
  sum := rfl
  members := by simp [FecMod.newGroup]
  finish := rfl
  buf := by
    funext j
    simp [FecMod.newGroup, residue, Parity.Decoder.empty]

namespace FecMod

section Recover

variable {k : U32} {posts : List DataPost} {d : Parity.Decoder} {group : FecGroup}

theorem ofBytes_fecBuf (hfamily : Family k posts) (hcounted : Counted posts d group)
    (hsum : d.sum = true) {i : Nat} (hi : i < posts.length)
    (hmarked : d.marked = (Finset.range posts.length).erase i) :
    DataPost.ofBytes group.fecBuf = posts[i] := by
  apply DataPost.ofBytes_eq (hfamily.sized _ (List.getElem_mem hi))
  intro j hj
  rw [hcounted.buf, residue, hsum, if_pos rfl, hmarked,
    Parity.parity_erase_xor_parity _ (Finset.mem_range.mpr hi),
    byteOf_eq (List.getElem?_eq_getElem hi), Nat.zero_add, List.getElem?_eq_getElem hj,
    Option.getD_some]

theorem recover_spec (hfamily : Family k posts) (hcounted : Counted posts d group) (fm : FecMod)
    (used : List U8) :
    ∃ written, Decodes posts (d.settle posts.length).1 written ∧
      (fm.recover k group used).fec.fecQueue = fm.fecQueue.queueModify k (fun _ => written) ∧
      (fm.recover k group used).recovered =
        (d.settle posts.length).2.bind (fun i => posts[i]?) := by
  have hready : group.fecFinish = group.fecMembers ∧ group.fecSum = true ↔
      d.sum = true ∧ d.marked.card + 1 = posts.length := by
    rw [hcounted.sum]
    constructor
    · rintro ⟨hfinish, hsum⟩
      refine ⟨hsum, ?_⟩
      have hmembers := hcounted.members (hcounted.sum.trans hsum)
      rw [← hfinish, hcounted.finish, hsum] at hmembers
      exact hmembers
    · rintro ⟨hsum, hcard⟩
      refine ⟨?_, hsum⟩
      apply BitVec.eq_of_toNat_eq
      rw [hcounted.members (hcounted.sum.trans hsum), hcounted.finish, hsum]
      exact hcard
  rcases Parity.settle_cases hcounted.sub with ⟨i, hi, hsum, hmarked, heq⟩ | ⟨hnot, heq⟩
  · have hcard : d.marked.card + 1 = posts.length := by
      rw [hmarked, Finset.card_erase_of_mem (Finset.mem_range.mpr hi), Finset.card_range]
      omega
    have hpost := ofBytes_fecBuf hfamily hcounted hsum hi hmarked
    have hseq : posts[i].fecSeq = k := hfamily.fecSeq _ (List.getElem_mem hi)
    have hfree : group.fecMap posts[i].fecIndex = false := by
      rw [← Bool.not_eq_true, hcounted.map, hfamily.index i hi, hmarked]
      exact Finset.notMem_erase i _
    rw [recover, if_pos (hready.mpr ⟨hsum, hcard⟩)]
    dsimp only
    rw [hpost, if_neg (not_not.mpr hseq), if_neg (by rw [hfree]; exact Bool.false_ne_true), heq]
    refine ⟨_, Or.inr ⟨?_, ?_, rfl, rfl⟩, rfl, ?_⟩
    · intro idx
      have hmap : (FecGroup.extend (FecGroup.mark group posts[i].fecIndex)
          (posts[i].seq + posts[i].len.setWidth 32)).fecMap =
          Function.update group.fecMap posts[i].fecIndex true := by
        unfold FecGroup.extend
        split <;> rfl
      rw [hmap, Function.update_apply]
      split
      · rename_i hidx
        simp only [true_iff]
        rw [hidx, hfamily.index i hi]
        exact hi
      · rename_i hidx
        rw [hcounted.map, hmarked, Finset.mem_erase, Finset.mem_range]
        refine and_iff_right ?_
        intro h
        exact hidx (BitVec.eq_of_toNat_eq (h.trans (hfamily.index i hi).symm))
    · unfold FecGroup.extend
      split <;> exact hcounted.sum.trans hsum
    · exact (List.getElem?_eq_getElem hi).symm
  · rw [recover, if_neg (fun h => hnot (hready.mp h)), heq]
    exact ⟨group, Or.inl hcounted, rfl, rfl⟩

end Recover

/-! ### One call of `fec_insert` -/

/-- The group `k` of the receiver represents `d`; a group without an entry is the empty decoder. -/
def Stores (posts : List DataPost) (k : U32) (d : Parity.Decoder) (fm : FecMod) : Prop :=
  match fm.fecQueue.queueGet k with
  | some group => Decodes posts d group
  | none => d = Parity.Decoder.empty

section Insert

variable {k : U32} {posts : List DataPost} {d : Parity.Decoder} {fm : FecMod}

theorem Stores.decodes (h : Stores posts k d fm) (fmems : U8) :
    Decodes posts d ((fm.fecQueue.queueGet k).getD (newGroup k fmems)) := by
  unfold Stores at h
  cases hget : fm.fecQueue.queueGet k with
  | some group =>
      rw [hget] at h
      exact h
  | none =>
      rw [hget] at h
      rw [h]
      exact Or.inl (counted_newGroup posts k fmems)

theorem Stores.of_queueGet {fm' : FecMod} {group : FecGroup}
    (hget : fm'.fecQueue.queueGet k = some group) (h : Decodes posts d group) :
    Stores posts k d fm' := by
  unfold Stores
  rw [hget]
  exact h

theorem Stores.congr {fm' : FecMod} (h : Stores posts k d fm)
    (hget : fm'.fecQueue.queueGet k = fm.fecQueue.queueGet k) : Stores posts k d fm' := by
  unfold Stores at h ⊢
  rwa [hget]

theorem Stores.opened (h : Stores posts k d fm) (fmems : U8) :
    Stores posts k d (fm.opened k fmems) := by
  refine Stores.of_queueGet ?_ (h.decodes fmems)
  rw [queueGet_opened, if_pos rfl]

theorem stores_recover (hfamily : Family k posts) {group : FecGroup}
    (hcounted : Counted posts d group) (fmems : U8) (used : List U8) :
    Stores posts k (d.settle posts.length).1 ((fm.opened k fmems).recover k group used).fec ∧
      ((fm.opened k fmems).recover k group used).recovered =
        (d.settle posts.length).2.bind (fun i => posts[i]?) := by
  obtain ⟨written, hwritten, hqueue, hrecovered⟩ :=
    recover_spec hfamily hcounted (fm.opened k fmems) used
  refine ⟨Stores.of_queueGet ?_ hwritten, hrecovered⟩
  rw [hqueue, queueGet_queueModify, if_pos rfl, queueGet_opened, if_pos rfl, Option.map_some]

theorem xorInto_residue_word {i : Nat} {post : DataPost} (hpost : posts[i]? = some post)
    (hi : i ∉ d.marked) :
    xorInto (residue posts d) post.bytes = residue posts { d with marked := insert i d.marked } := by
  funext j
  simp only [xorInto, residue]
  rw [Parity.parity_insert _ hi, byteOf_eq hpost]
  ac_rfl

theorem toNat_fecFinish_succ {group : FecGroup} (hcounted : Counted posts d group)
    (hsmall : posts.length ≤ 127) :
    (group.fecFinish + 1).toNat = d.marked.card + d.sum.toNat + 1 := by
  have hcard := Finset.card_le_card hcounted.sub
  rw [Finset.card_range] at hcard
  have hsum := Bool.toNat_le d.sum
  rw [BitVec.toNat_add, hcounted.finish, show (1 : U8).toNat = 1 from rfl, Nat.mod_eq_of_lt]
  omega

theorem counted_word (hfamily : Family k posts) {group : FecGroup}
    (hcounted : Counted posts d group) {i : Nat} {post : DataPost} (hpost : posts[i]? = some post)
    (hi : i ∉ d.marked) (fin : U32) :
    Counted posts { d with marked := insert i d.marked }
      (counted (FecGroup.extend (FecGroup.mark group post.fecIndex) fin) post.bytes) := by
  obtain ⟨hlt, hget⟩ := List.getElem?_eq_some_iff.mp hpost
  have hidx : post.fecIndex.toNat = i := hget ▸ hfamily.index i hlt
  -- `fec_end` plays no part here
  have hextend : counted (FecGroup.extend (FecGroup.mark group post.fecIndex) fin) post.bytes =
      { counted (FecGroup.mark group post.fecIndex) post.bytes with
        fecEnd := (FecGroup.extend (FecGroup.mark group post.fecIndex) fin).fecEnd } := by
    unfold FecGroup.extend
    split <;> rfl
  rw [hextend]
  refine ⟨?_, ?_, hcounted.sum, hcounted.members, ?_, ?_⟩
  · exact Finset.insert_subset (Finset.mem_range.mpr hlt) hcounted.sub
  · intro idx
    change Function.update group.fecMap post.fecIndex true idx = true ↔ idx.toNat ∈ insert i d.marked
    rw [Function.update_apply, Finset.mem_insert, ← hcounted.map, ← hidx, BitVec.toNat_inj]
    split <;> simp_all
  · change (group.fecFinish + 1).toNat = (insert i d.marked).card + d.sum.toNat
    rw [toNat_fecFinish_succ hcounted hfamily.small, Finset.card_insert_of_notMem hi]
    omega
  · change xorInto group.fecBuf post.bytes = _
    rw [hcounted.buf, xorInto_residue_word hpost hi]

theorem Stores.fecInsertData (h : Stores posts k d fm) (hfamily : Family k posts)
    (hrange : fm.InRange k) {i : Nat} {post : DataPost} (hpost : posts[i]? = some post) :
    Stores posts k (d.feed posts.length (.word i)).1 (fm.fecInsertData true post).fec ∧
      (fm.fecInsertData true post).recovered =
        (d.feed posts.length (.word i)).2.bind (fun i => posts[i]?) := by
  obtain ⟨hi, hget⟩ := List.getElem?_eq_some_iff.mp hpost
  have hmem : post ∈ posts := hget ▸ List.getElem_mem hi
  have hseq : post.fecSeq = k := hfamily.fecSeq post hmem
  have hidx : post.fecIndex.toNat = i := hget ▸ hfamily.index i hi
  have hsmall := hfamily.small
  have hbelow : post.fecIndex < fecMembersMax := by
    rw [BitVec.lt_def, hidx, show fecMembersMax.toNat = 127 from rfl]
    omega
  have hvalid : ¬(fecMembersMax = 0 ∨ fecMembersMax < fecMembersMax ∨
      (post.fecIndex < fecMembersMax ∧ fecMembersMax ≤ post.fecIndex) ∨ post.bytes.length = 0) := by
    rintro (h | h | ⟨-, h⟩ | h)
    · exact absurd h (by decide)
    · exact absurd h (by decide)
    · exact BitVec.not_le.mpr hbelow h
    · rw [DataPost.length_bytes] at h
      exact absurd h (by simp [sizeofDataPost])
  unfold FecMod.fecInsertData
  rw [hseq, fecInsert_eq hrange hvalid (hfamily.fits post hmem)]
  have hdecodes := h.decodes fecMembersMax
  generalize (fm.fecQueue.queueGet k).getD (newGroup k fecMembersMax) = group at hdecodes
  dsimp only
  rw [if_neg (BitVec.not_lt.mpr (BitVec.le_of_lt hbelow))]
  have hmap : group.fecMap post.fecIndex = true ↔ i ∈ d.marked := by rw [hdecodes.map, hidx]
  by_cases hmarked : i ∈ d.marked
  · rw [if_pos (hmap.mpr hmarked), Parity.Decoder.feed, if_pos hmarked]
    exact ⟨h.opened fecMembersMax, rfl⟩
  · rw [if_neg (fun hset => hmarked (hmap.mp hset)), Parity.Decoder.feed, if_neg hmarked]
    have hcounted : Counted posts d group := by
      rcases hdecodes with hcounted | hfinished
      · exact hcounted
      · exact absurd (hfinished.marked ▸ Finset.mem_range.mpr hi) hmarked
    exact stores_recover hfamily (counted_word hfamily hcounted hpost hmarked _) fecMembersMax
      [post.fecIndex]

def SumOf (posts : List DataPost) (fec : DataFec) : Prop :=
  fec.fecMembers.toNat = posts.length ∧ 0 < posts.length ∧ 0 < fec.fecData.length ∧
    fec.fecData.length ≤ litedtMtuMax ∧
    ∀ j, (fec.fecData[j]?).getD 0 = Parity.parity (byteOf posts j) (Finset.range posts.length)

theorem counted_sum (hfamily : Family k posts) {group : FecGroup}
    (hcounted : Counted posts d group) {fec : DataFec} (hfec : SumOf posts fec)
    (hsum : d.sum = false) :
    Counted posts { d with sum := true }
      (counted { group with fecMembers := fec.fecMembers, fecSum := true } fec.fecData) := by
  refine ⟨hcounted.sub, hcounted.map, rfl, fun _ => hfec.1, ?_, ?_⟩
  · change (group.fecFinish + 1).toNat = _
    rw [toNat_fecFinish_succ hcounted hfamily.small, hsum]
    rfl
  · funext j
    change xorInto group.fecBuf fec.fecData j = _
    rw [hcounted.buf, xorInto, residue, residue, hsum, hfec.2.2.2.2 j]
    simp

theorem Stores.fecInsertSum (h : Stores posts k d fm) (hfamily : Family k posts)
    (hrange : fm.InRange k) {fec : DataFec} (hseq : fec.fecSeq = k) (hfec : SumOf posts fec) :
    Stores posts k (d.feed posts.length .sum).1 (fm.fecInsertSum true fec).fec ∧
      (fm.fecInsertSum true fec).recovered =
        (d.feed posts.length .sum).2.bind (fun i => posts[i]?) := by
  have hsmall := hfamily.small
  have hvalid : ¬(fec.fecMembers = 0 ∨ fecMembersMax < fec.fecMembers ∨
      (fecMembersMax + 1 < fecMembersMax ∧ fec.fecMembers ≤ fecMembersMax + 1) ∨
      fec.fecData.length = 0) := by
    rintro (h | h | ⟨h, -⟩ | h)
    · have hmembers := hfec.1
      rw [h] at hmembers
      exact absurd hfec.2.1 (by rw [← hmembers]; decide)
    · rw [BitVec.lt_def, hfec.1, show fecMembersMax.toNat = 127 from rfl] at h
      omega
    · exact absurd h (by decide)
    · exact absurd hfec.2.2.1 (by rw [h]; decide)
  unfold FecMod.fecInsertSum
  rw [hseq, fecInsert_eq hrange hvalid hfec.2.2.2.1]
  have hdecodes := h.decodes fec.fecMembers
  generalize (fm.fecQueue.queueGet k).getD (newGroup k fec.fecMembers) = group at hdecodes
  dsimp only
  rw [if_pos (by decide), hdecodes.fecSum, Parity.Decoder.feed]
  by_cases hsum : d.sum = true
  · rw [if_pos hsum, if_pos hsum]
    exact ⟨h.opened fec.fecMembers, rfl⟩
  · rw [if_neg hsum, if_neg hsum]
    have hcounted : Counted posts d group := by
      rcases hdecodes with hcounted | hfinished
      · exact hcounted
      · exact absurd hfinished.sum hsum
    exact stores_recover hfamily (counted_sum hfamily hcounted hfec (by simpa using hsum)) _ []

end Insert

end FecMod

end Liteflow

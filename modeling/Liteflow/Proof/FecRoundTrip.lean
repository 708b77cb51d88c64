import Liteflow.Proof.FecGroup

/-!
# The error correction gives back what was lost

The packets a sender emits fall into families of data packets with one packet that holds their
exclusive or. A receiver that is fed with them, in any order and with duplicates, hands over a packet
exactly when that packet is the only one missing, and it is the packet that was sent.
-/

namespace Liteflow

open FecMod

/-! ### What is sent -/

def FecPacket.member (k : U32) : FecPacket → Option DataPost
  | .data post => if post.fecSeq = k then some post else none
  | .sum _ => none

def family (sent : List FecPacket) (k : U32) : List DataPost :=
  sent.filterMap (FecPacket.member k)

theorem mem_family {sent : List FecPacket} {k : U32} {post : DataPost} :
    post ∈ family sent k ↔ .data post ∈ sent ∧ post.fecSeq = k := by
  simp only [family, List.mem_filterMap]
  constructor
  · rintro ⟨packet, hmem, hmember⟩
    cases packet with
    | data other =>
        simp only [FecPacket.member, Option.ite_none_right_eq_some, Option.some.injEq] at hmember
        obtain ⟨hseq, rfl⟩ := hmember
        exact ⟨hmem, hseq⟩
    | sum fec => cases hmember
  · rintro ⟨hmem, hseq⟩
    exact ⟨.data post, hmem, by simp [FecPacket.member, hseq]⟩

theorem family_append_data (sent : List FecPacket) (post : DataPost) (k : U32) :
    family (sent ++ [.data post]) k =
      if post.fecSeq = k then family sent k ++ [post] else family sent k := by
  rw [family, List.filterMap_append]
  by_cases hk : post.fecSeq = k
  · simp [FecPacket.member, hk, family]
  · simp [FecPacket.member, hk, family]

@[simp]
theorem family_append_sum (sent : List FecPacket) (fec : DataFec) (k : U32) :
    family (sent ++ [.sum fec]) k = family sent k := by
  simp [family, FecPacket.member]

/-- Every group is a family, and every packet with an exclusive or has that of its group. -/
structure Grouped (sent : List FecPacket) : Prop where
  families : ∀ k, Family k (family sent k)
  sums : ∀ fec, .sum fec ∈ sent → SumOf (family sent fec.fecSeq) fec

/-- The sender's buffer while `cur` has been pushed to the open group. -/
structure OpenGroup (fm : FecMod) (cur : List DataPost) : Prop where
  index : fm.currentFecIndex.toNat = cur.length
  small : cur.length ≤ 127
  buf : ∀ j, fm.fecBuf j = Parity.parity (byteOf cur j) (Finset.range cur.length)
  zero : ∀ j, fm.fecLen.toNat ≤ j → fm.fecBuf j = 0
  fits : fm.fecLen.toNat ≤ litedtMtuMax
  pos : cur ≠ [] → 0 < fm.fecLen.toNat

structure Sends (fm : FecMod) (sent : List FecPacket) : Prop where
  grouped : Grouped sent
  starts : ∀ post, .data post ∈ sent → post.fecSeq ∈ groupStarts sent
  members : fm.currentFecMembers.toNat ≤ 127
  current : ∃ cur, OpenGroup fm cur ∧ (cur ≠ [] → cur = family sent fm.currentFecSeq ∧
    ∀ fec, .sum fec ∈ sent → fec.fecSeq ≠ fm.currentFecSeq)

def FecMod.HasRoom (fm : FecMod) : Prop :=
  fm.currentFecIndex ≠ 0 → fm.currentFecIndex < fm.currentFecMembers

theorem toNat_fecGroupSize (cfg : Config) : (cfg.fecGroupSize.setWidth 8).toNat ≤ 127 := by
  have hle := cfg.fecGroupSize_le
  rw [BitVec.toNat_setWidth, Nat.mod_eq_of_lt] <;> omega

theorem openGroup_nil {fm : FecMod} (hindex : fm.currentFecIndex = 0) (hlen : fm.fecLen = 0)
    (hbuf : fm.fecBuf = fun _ => 0) : OpenGroup fm [] where
  index := by rw [hindex]; rfl
  small := by decide
  buf := by simp [hbuf]
  zero := by simp [hbuf]
  fits := by rw [hlen]; exact Nat.zero_le _
  pos := fun h => absurd rfl h

theorem sends_init (cfg : Config) : Sends (FecMod.init cfg) [] where
  grouped := by
    refine ⟨fun k => ⟨by simp [family], ?_, ?_, ?_, ?_⟩, by simp⟩ <;> simp [family]
  starts := by simp
  members := toNat_fecGroupSize cfg
  current := ⟨[], openGroup_nil rfl rfl rfl, fun h => absurd rfl h⟩

section Close

variable {cfg : Config} {fm : FecMod} {sent : List FecPacket} {cur : List DataPost}

theorem OpenGroup.sumOf (h : OpenGroup fm cur) (hcur : cur ≠ []) : SumOf cur fm.groupPacket := by
  have hlength : fm.groupPacket.fecData.length = fm.fecLen.toNat := by simp [groupPacket]
  refine ⟨h.index, List.length_pos_iff.mpr hcur, hlength ▸ h.pos hcur, hlength ▸ h.fits, ?_⟩
  intro j
  rw [← h.buf j]
  by_cases hj : j < fm.fecLen.toNat
  · simp [groupPacket, hj]
  · rw [h.zero j (Nat.not_lt.mp hj)]
    simp [groupPacket, hj]

theorem Sends.close (h : Sends fm sent) (hindex : fm.currentFecIndex ≠ 0) :
    Sends (fm.resetGroup cfg) (sent ++ [.sum fm.groupPacket]) := by
  obtain ⟨cur, hopen, hcurrent⟩ := h.current
  have hcur : cur ≠ [] := by
    rintro rfl
    exact hindex (BitVec.eq_of_toNat_eq hopen.index)
  refine ⟨⟨?_, ?_⟩, ?_, toNat_fecGroupSize cfg, ?_⟩
  · intro k
    rw [family_append_sum]
    exact h.grouped.families k
  · intro fec hfec
    rw [family_append_sum]
    rcases List.mem_append.mp hfec with hfec | hfec
    · exact h.grouped.sums fec hfec
    · obtain rfl : fec = fm.groupPacket := by simpa using hfec
      change SumOf (family sent fm.currentFecSeq) fm.groupPacket
      rw [← (hcurrent hcur).1]
      exact hopen.sumOf hcur
  · intro post hpost
    rw [groupStarts, List.filterMap_append, List.mem_append]
    exact Or.inl (h.starts post (by simpa using hpost))
  · exact ⟨[], openGroup_nil rfl rfl rfl, fun h => absurd rfl h⟩

end Close

section Push

variable {fm : FecMod} {sent : List FecPacket} {cur : List DataPost} {seq : U32} {data : List Byte}

theorem nextPost_sized (fm : FecMod) (seq : U32)
    (hsize : sizeofDataPost + data.length ≤ litedtMtuMax) :
    (fm.nextPost seq data).Sized ∧ (fm.nextPost seq data).bytes.length ≤ litedtMtuMax := by
  have hmtu : litedtMtuMax = 1428 := rfl
  refine ⟨?_, by rw [DataPost.length_bytes]; exact hsize⟩
  change (BitVec.ofNat 16 data.length).toNat = data.length
  rw [BitVec.toNat_ofNat, Nat.mod_eq_of_lt]
  omega

theorem byteOf_append_singleton {post : DataPost} {i : Nat} (j : Nat) (hi : i < cur.length) :
    byteOf (cur ++ [post]) j i = byteOf cur j i := by
  rw [byteOf, byteOf, List.getElem?_append_left hi]

theorem OpenGroup.push (h : OpenGroup fm cur) (seq : U32) (hroom : cur.length < 127)
    (hsize : sizeofDataPost + data.length ≤ litedtMtuMax) :
    OpenGroup (fm.fecPushData (fm.nextPost seq data)) (cur ++ [fm.nextPost seq data]) := by
  obtain ⟨hsized, hfits⟩ := nextPost_sized fm seq hsize
  generalize hpost : fm.nextPost seq data = post at hsized hfits
  have hmtu : litedtMtuMax = 1428 := rfl
  have hbytes : post.bytes.length = sizeofDataPost + post.len.toNat := by
    rw [DataPost.length_bytes, hsized]
  have hmax : (fm.fecPushData post).fecLen.toNat = max fm.fecLen.toNat post.bytes.length := by
    have hlen := h.fits
    rw [hbytes] at hfits ⊢
    simp only [fecPushData, BitVec.toNat_ofNat]
    rw [Nat.mod_eq_of_lt]
    omega
  refine ⟨?_, ?_, ?_, ?_, ?_, ?_⟩
  · change (fm.currentFecIndex + 1).toNat = _
    rw [BitVec.toNat_add, h.index, List.length_append, show (1 : U8).toNat = 1 from rfl,
      Nat.mod_eq_of_lt (by omega)]
    rfl
  · rw [List.length_append]
    exact hroom
  · intro j
    change xorInto fm.fecBuf post.bytes j = _
    rw [List.length_append, List.length_singleton, Finset.range_add_one,
      Parity.parity_insert _ Finset.notMem_range_self, xorInto, h.buf j, BitVec.xor_comm]
    congr 1
    · exact (byteOf_eq List.getElem?_concat_length j).symm
    · apply Parity.parity_congr
      intro i hi
      exact (byteOf_append_singleton j (Finset.mem_range.mp hi)).symm
  · intro j hj
    rw [hmax] at hj
    change fm.fecBuf j ^^^ (post.bytes[j]?).getD 0 = 0
    rw [h.zero j (by omega), List.getElem?_eq_none (by omega)]
    rfl
  · rw [hmax]
    have hlen := h.fits
    omega
  · intro _
    rw [hmax, hbytes, show sizeofDataPost = 11 from rfl]
    omega

theorem Sends.push (h : Sends fm sent) (hroom : fm.HasRoom)
    (hsize : sizeofDataPost + data.length ≤ litedtMtuMax)
    (hstarts : (groupStarts (sent ++ [.data (fm.nextPost seq data)])).Nodup) :
    Sends (fm.fecPushData (fm.nextPost seq data)) (sent ++ [.data (fm.nextPost seq data)]) := by
  obtain ⟨cur, hopen, hcurrent⟩ := h.current
  obtain ⟨hsized, hfits⟩ := nextPost_sized fm seq hsize
  set post := fm.nextPost seq data with hpost
  have hseq : post.fecSeq = fm.currentFecSeq := rfl
  have hindex : post.fecIndex = fm.currentFecIndex := rfl
  have hshort : cur.length < 127 := by
    by_cases hzero : fm.currentFecIndex = 0
    · rw [← hopen.index, hzero]
      decide
    · have hlt := hroom hzero
      have hmembers := h.members
      rw [BitVec.lt_def, hopen.index] at hlt
      omega
  -- an empty open group has no packets from earlier: its number is not used yet
  have hcur : cur = family sent fm.currentFecSeq := by
    by_cases hnil : cur = []
    · have hzero : fm.currentFecIndex = 0 := by
        apply BitVec.eq_of_toNat_eq
        rw [hopen.index, hnil]
        rfl
      have hnew : fm.currentFecSeq ∉ groupStarts sent := by
        have hopens : FecPacket.opens (.data post) = some fm.currentFecSeq := by
          rw [FecPacket.opens, hindex, if_pos hzero, hseq]
        rw [groupStarts, List.filterMap_append, List.nodup_append] at hstarts
        intro hmem
        exact hstarts.2.2 _ hmem fm.currentFecSeq (by simp [hopens]) rfl
      rw [hnil, eq_comm, List.eq_nil_iff_forall_not_mem]
      intro other hother
      obtain ⟨hsent, hotherSeq⟩ := mem_family.mp hother
      exact hnew (hotherSeq ▸ h.starts other hsent)
    · exact (hcurrent hnil).1
  have hnosum : ∀ fec, FecPacket.sum fec ∈ sent → fec.fecSeq ≠ fm.currentFecSeq := by
    intro fec hfec heq
    by_cases hnil : cur = []
    · have hpos := (h.grouped.sums fec hfec).2.1
      rw [heq, ← hcur, hnil] at hpos
      exact absurd hpos (by decide)
    · exact (hcurrent hnil).2 fec hfec heq
  have hfamily : ∀ k, family (sent ++ [.data post]) k =
      if fm.currentFecSeq = k then cur ++ [post] else family sent k := by
    intro k
    rw [family_append_data, hseq]
    split
    · rename_i hk
      rw [hcur, hk]
    · rfl
  have hpushed := hopen.push seq hshort hsize
  refine ⟨⟨?_, ?_⟩, ?_, h.members, cur ++ [post], hpushed, ?_⟩
  · intro k
    rw [hfamily]
    split
    · rename_i hk
      have hold := h.grouped.families fm.currentFecSeq
      rw [← hcur] at hold
      rw [← hk]
      refine ⟨hpushed.small, ?_, ?_, ?_, ?_⟩
      · exact List.forall_mem_append.mpr ⟨hold.fecSeq, by simp [hseq]⟩
      · intro i hi
        by_cases hlt : i < cur.length
        · rw [List.getElem_append_left hlt]
          exact hold.index i hlt
        · obtain rfl : i = cur.length := by
            rw [List.length_append, List.length_singleton] at hi
            omega
          rw [List.getElem_append_right (Nat.le_refl _)]
          simpa [hindex] using hopen.index
      · exact List.forall_mem_append.mpr ⟨hold.sized, by simp [hsized]⟩
      · exact List.forall_mem_append.mpr ⟨hold.fits, by simpa using hfits⟩
    · exact h.grouped.families k
  · intro fec hfec
    have hold : FecPacket.sum fec ∈ sent := by simpa using hfec
    rw [hfamily, if_neg (Ne.symm (hnosum fec hold))]
    exact h.grouped.sums fec hold
  · intro other hother
    rw [groupStarts, List.filterMap_append, List.mem_append]
    rcases List.mem_append.mp hother with hother | hother
    · exact Or.inl (h.starts other hother)
    · obtain rfl : other = post := by simpa using hother
      by_cases hzero : fm.currentFecIndex = 0
      · refine Or.inr ?_
        simp [FecPacket.opens, hindex, hzero]
      · refine Or.inl ?_
        -- the open group has an earlier packet
        have hne : cur ≠ [] := by
          rintro rfl
          exact hzero (BitVec.eq_of_toNat_eq hopen.index)
        obtain ⟨first, hfirst⟩ := List.exists_mem_of_ne_nil cur hne
        rw [hcur] at hfirst
        obtain ⟨hsent, hfirstSeq⟩ := mem_family.mp hfirst
        rw [hseq, ← hfirstSeq]
        exact h.starts first hsent
  · intro _
    refine ⟨?_, ?_⟩
    · change _ = family _ fm.currentFecSeq
      rw [hfamily, if_pos rfl]
    · intro fec hfec
      exact hnosum fec (by simpa using hfec)

end Push

/-! ### All that a sender sends -/

variable {cfg : Config}

theorem currentFecIndex_succ_ne_zero {fm : FecMod} (hroom : fm.HasRoom)
    (hmembers : fm.currentFecMembers.toNat ≤ 127) : fm.currentFecIndex + 1 ≠ 0 := by
  intro hwrap
  by_cases hzero : fm.currentFecIndex = 0
  · rw [hzero] at hwrap
    exact absurd hwrap (by decide)
  · have hlt := hroom hzero
    have hnat := congrArg BitVec.toNat hwrap
    rw [BitVec.lt_def] at hlt
    rw [BitVec.toNat_add, show (1 : U8).toNat = 1 from rfl, show (0 : U8).toNat = 0 from rfl] at hnat
    omega

theorem send_cases (cfg : Config) {fm : FecMod} (hroom : fm.HasRoom)
    (hmembers : fm.currentFecMembers.toNat ≤ 127)
    (op : FecSend) :
    (op = .post ∧ fm.currentFecIndex = 0 ∧ fm.send cfg op = (fm, [])) ∨
    (op = .post ∧ fm.currentFecIndex ≠ 0 ∧
      fm.send cfg op = (fm.resetGroup cfg, [.sum fm.groupPacket])) ∨
    ∃ seq data, op = .push seq data ∧
      let pushed := fm.fecPushData (fm.nextPost seq data)
      (pushed.HasRoom ∧ fm.send cfg op = (pushed, [.data (fm.nextPost seq data)])) ∨
      (pushed.currentFecIndex ≠ 0 ∧ fm.send cfg op =
        (pushed.resetGroup cfg, [.data (fm.nextPost seq data)] ++ [.sum pushed.groupPacket])) := by
  cases op with
  | post =>
      by_cases hzero : fm.currentFecIndex = 0
      · exact Or.inl ⟨rfl, hzero, if_pos hzero⟩
      · exact Or.inr (Or.inl ⟨rfl, hzero, if_neg hzero⟩)
  | push seq data =>
      have hindex : (fm.fecPushData (fm.nextPost seq data)).currentFecIndex ≠ 0 :=
        currentFecIndex_succ_ne_zero hroom hmembers
      refine Or.inr (Or.inr ⟨seq, data, rfl, ?_⟩)
      simp only [FecMod.send, FecMod.fecPost, if_neg hindex]
      split
      · exact Or.inr ⟨hindex, rfl⟩
      · rename_i hfull
        exact Or.inl ⟨fun _ => BitVec.not_le.mp hfull, rfl⟩

theorem hasRoom_resetGroup (fm : FecMod) : (fm.resetGroup cfg).HasRoom :=
  fun h => absurd rfl h

theorem Sends.send {fm : FecMod} {sent : List FecPacket} (h : Sends fm sent) (hroom : fm.HasRoom)
    (op : FecSend) (hsize : op.size ≤ litedtMtuMax)
    (hstarts : (groupStarts (sent ++ (fm.send cfg op).2)).Nodup) :
    Sends (fm.send cfg op).1 (sent ++ (fm.send cfg op).2) ∧ (fm.send cfg op).1.HasRoom := by
  rcases send_cases cfg hroom h.members op with ⟨rfl, -, heq⟩ | ⟨rfl, hindex, heq⟩ |
    ⟨seq, data, rfl, ⟨hpushed, heq⟩ | ⟨hindex, heq⟩⟩
  · rw [heq, List.append_nil]
    exact ⟨h, hroom⟩
  · rw [heq]
    exact ⟨h.close hindex, hasRoom_resetGroup fm⟩
  · rw [heq] at hstarts ⊢
    exact ⟨h.push hroom hsize hstarts, hpushed⟩
  · rw [heq, ← List.append_assoc, groupStarts, List.filterMap_append] at hstarts
    rw [heq, ← List.append_assoc]
    exact ⟨(h.push hroom hsize hstarts.of_append_left).close hindex, hasRoom_resetGroup _⟩

theorem sendAll_concat (fm : FecMod) (ops : List FecSend) (op : FecSend) :
    fm.sendAll cfg (ops ++ [op]) =
      (((fm.sendAll cfg ops).1.send cfg op).1,
        (fm.sendAll cfg ops).2 ++ ((fm.sendAll cfg ops).1.send cfg op).2) := by
  rw [sendAll, List.foldl_append]
  rfl

theorem sends_sendAll (ops : List FecSend)
    (hsize : ∀ op ∈ ops, op.size ≤ litedtMtuMax)
    (hstarts : (groupStarts ((FecMod.init cfg).sendAll cfg ops).2).Nodup) :
    Sends ((FecMod.init cfg).sendAll cfg ops).1 ((FecMod.init cfg).sendAll cfg ops).2 ∧
      ((FecMod.init cfg).sendAll cfg ops).1.HasRoom := by
  induction ops using List.reverseRecOn with
  | nil => exact ⟨sends_init cfg, fun h => absurd rfl h⟩
  | append_singleton ops op ih =>
      rw [sendAll_concat] at hstarts ⊢
      have hearlier : (groupStarts ((FecMod.init cfg).sendAll cfg ops).2).Nodup := by
        rw [groupStarts, List.filterMap_append] at hstarts
        exact hstarts.of_append_left
      obtain ⟨hsends, hroom⟩ := ih (fun op hmem => hsize op (List.mem_append_left _ hmem)) hearlier
      exact hsends.send hroom op (hsize op (List.mem_append_right _ List.mem_cons_self)) hstarts

/-! ### What is received -/

def FecArrival.toArrival (k : U32) : FecArrival → Option Parity.Arrival
  | .packet (.data post) => if post.fecSeq = k then some (.word post.fecIndex.toNat) else none
  | .packet (.sum fec) => if fec.fecSeq = k then some .sum else none
  | .checkpoint _ => none

def history (k : U32) (seen : List FecArrival) : List Parity.Arrival :=
  seen.filterMap (FecArrival.toArrival k)

section History

variable {sent : List FecPacket} {k : U32} {seen : List FecArrival}

theorem sum_mem_history :
    .sum ∈ history k seen ↔ ∃ fec : DataFec, .packet (.sum fec) ∈ seen ∧ fec.fecSeq = k := by
  simp only [history, List.mem_filterMap]
  constructor
  · rintro ⟨arrival, hmem, harrival⟩
    rcases arrival with (post | fec) | recvStart
    · simp [FecArrival.toArrival] at harrival
    · simp only [FecArrival.toArrival, Option.ite_none_right_eq_some] at harrival
      exact ⟨fec, hmem, harrival.1⟩
    · cases harrival
  · rintro ⟨fec, hmem, hseq⟩
    exact ⟨_, hmem, by simp [FecArrival.toArrival, hseq]⟩

theorem word_mem_history {i : Nat} : .word i ∈ history k seen ↔
    ∃ post : DataPost, .packet (.data post) ∈ seen ∧ post.fecSeq = k ∧ post.fecIndex.toNat = i := by
  simp only [history, List.mem_filterMap]
  constructor
  · rintro ⟨arrival, hmem, harrival⟩
    rcases arrival with (post | fec) | recvStart
    · simp only [FecArrival.toArrival, Option.ite_none_right_eq_some, Option.some.injEq,
        Parity.Arrival.word.injEq] at harrival
      exact ⟨post, hmem, harrival⟩
    · simp [FecArrival.toArrival] at harrival
    · cases harrival
  · rintro ⟨post, hmem, hseq, hidx⟩
    exact ⟨_, hmem, by simp [FecArrival.toArrival, hseq, hidx]⟩

theorem Grouped.getElem? (h : Grouped sent) {post : DataPost} (hsent : .data post ∈ sent) :
    (family sent post.fecSeq)[post.fecIndex.toNat]? = some post := by
  obtain ⟨i, hi, hget⟩ := List.getElem_of_mem (mem_family.mpr ⟨hsent, rfl⟩)
  have hindex := (h.families post.fecSeq).index i hi
  rw [hget] at hindex
  rw [hindex, List.getElem?_eq_getElem hi, hget]

theorem word_mem_history_iff (h : Grouped sent) (hseen : FromSender sent seen) {i : Nat}
    {post : DataPost} (hpost : (family sent k)[i]? = some post) :
    .word i ∈ history k seen ↔ .packet (.data post) ∈ seen := by
  obtain ⟨hi, hget⟩ := List.getElem?_eq_some_iff.mp hpost
  rw [word_mem_history]
  constructor
  · rintro ⟨other, hmem, rfl, rfl⟩
    have hother := h.getElem? (hseen _ hmem)
    rw [hpost, Option.some.injEq] at hother
    exact hother ▸ hmem
  · intro hmem
    have hseq : post.fecSeq = k := (h.families k).fecSeq post (hget ▸ List.getElem_mem hi)
    exact ⟨post, hmem, hseq, hget ▸ (h.families k).index i hi⟩

theorem lt_of_word_mem_history (h : Grouped sent) (hseen : FromSender sent seen) {i : Nat}
    (hi : .word i ∈ history k seen) : i < (family sent k).length := by
  obtain ⟨post, hmem, rfl, rfl⟩ := word_mem_history.mp hi
  exact (List.getElem?_eq_some_iff.mp (h.getElem? (hseen _ hmem))).1

theorem onlyMissing_iff (h : Grouped sent) (hseen : FromSender sent seen) (post : DataPost) :
    OnlyMissing sent k seen post ↔ ∃ i, (family sent k)[i]? = some post ∧
      Parity.Lacks (family sent k).length (history k seen) i := by
  constructor
  · rintro ⟨hsum, hsent, rfl, hmissing, hothers⟩
    have hget := h.getElem? hsent
    refine ⟨_, hget, sum_mem_history.mpr hsum, (List.getElem?_eq_some_iff.mp hget).1, ?_, ?_⟩
    · rwa [word_mem_history_iff h hseen hget]
    · intro j hj hne
      have hother := List.getElem?_eq_getElem hj
      rw [word_mem_history_iff h hseen hother]
      obtain ⟨hotherSent, hotherSeq⟩ := mem_family.mp (List.getElem_mem hj)
      refine hothers _ hotherSent hotherSeq ?_
      intro heq
      have hindex := (h.families post.fecSeq).index j hj
      rw [heq] at hindex
      exact hne hindex.symm
  · rintro ⟨i, hget, hsum, hi, hmissing, hothers⟩
    obtain ⟨hsent, hseq⟩ := mem_family.mp (List.mem_of_getElem? hget)
    refine ⟨sum_mem_history.mp hsum, hsent, hseq, ?_, ?_⟩
    · rwa [word_mem_history_iff h hseen hget] at hmissing
    · intro other hotherSent hotherSeq hne
      have hother := h.getElem? hotherSent
      rw [hotherSeq] at hother
      rw [← word_mem_history_iff h hseen hother]
      refine hothers _ (List.getElem?_eq_some_iff.mp hother).1 ?_
      intro heq
      rw [heq, hget, Option.some.injEq] at hother
      exact hne hother.symm

theorem FromSender.of_prefix {early : List FecArrival} (h : FromSender sent seen)
    (hearly : early <+: seen) : FromSender sent early :=
  fun packet hmem => h packet (hearly.mem hmem)

theorem undecided_history_iff (h : Grouped sent) (hseen : FromSender sent seen) :
    Parity.Undecided (family sent k).length (history k seen) ↔
      ∀ early, early <+: seen → ∀ post, ¬OnlyMissing sent k early post := by
  constructor
  · intro hundecided early hearly post hmissing
    obtain ⟨i, -, hlacks⟩ := (onlyMissing_iff h (hseen.of_prefix hearly) post).mp hmissing
    exact hundecided _ (hearly.filterMap _) i hlacks
  · intro hnone early hearly i hlacks
    obtain ⟨seen', hbegins, rfl⟩ := List.prefix_filterMap_iff.mp hearly
    have hget := List.getElem?_eq_getElem hlacks.2.1
    exact hnone seen' hbegins _
      ((onlyMissing_iff h (hseen.of_prefix hbegins) _).mpr ⟨i, hget, hlacks⟩)

end History

/-! ### The receiver -/

section Receive

variable {sent : List FecPacket} {k : U32} {fm : FecMod} {d : Parity.Decoder}

theorem receive_of_not_inRange {packet : FecPacket} (hrange : ¬fm.InRange packet.fecSeq) :
    fm.receive cfg (.packet packet) = { fec := fm } := by
  cases packet with
  | data post => exact fecInsert_eq_of_not_inRange hrange _ _ _ _
  | sum fec => exact fecInsert_eq_of_not_inRange hrange _ _ _ _

theorem FecMod.Stores.receive_of_ne (h : Stores (family sent k) k d fm) (packet : FecPacket)
    (hk : packet.fecSeq ≠ k ∨ ¬fm.InRange k) :
    Stores (family sent k) k d (fm.receive cfg (.packet packet)).fec := by
  apply h.congr
  by_cases hne : k = packet.fecSeq
  · rw [receive_of_not_inRange]
    exact hne ▸ hk.resolve_left (fun h => h hne.symm)
  · cases packet with
    | data post => exact queueGet_fecInsert_of_ne true fm _ _ _ _ _ hne
    | sum fec => exact queueGet_fecInsert_of_ne true fm _ _ _ _ _ hne

theorem FecMod.Stores.receive (cfg : Config) (hgrouped : Grouped sent) (h : Stores (family sent k) k d fm)
    {packet : FecPacket} (hsent : packet ∈ sent) (hseq : packet.fecSeq = k)
    (hrange : fm.InRange k) :
    ∃ a, FecArrival.toArrival k (.packet packet) = some a ∧
      (∀ i, a = .word i → i < (family sent k).length) ∧
      Stores (family sent k) k (d.feed (family sent k).length a).1
        (fm.receive cfg (.packet packet)).fec ∧
      (fm.receive cfg (.packet packet)).recovered =
        (d.feed (family sent k).length a).2.bind (fun i => (family sent k)[i]?) := by
  subst hseq
  cases packet with
  | data post =>
      have hget := hgrouped.getElem? hsent
      refine ⟨.word post.fecIndex.toNat, if_pos rfl, ?_, ?_⟩
      · rintro i ⟨⟩
        exact (List.getElem?_eq_some_iff.mp hget).1
      · exact h.fecInsertData (hgrouped.families _) hrange hget
  | sum fec =>
      refine ⟨.sum, if_pos rfl, fun i hi => Parity.Arrival.noConfusion hi, ?_⟩
      exact h.fecInsertSum (hgrouped.families _) hrange rfl (hgrouped.sums fec hsent)

theorem receive_fecSeq {arrival : FecArrival} {post : DataPost}
    (h : (fm.receive cfg arrival).recovered = some post) :
    ∃ packet, arrival = .packet packet ∧ packet.fecSeq = post.fecSeq := by
  rcases arrival with (data | fec) | recvStart
  · exact ⟨_, rfl, (fecSeq_of_recovered h).symm⟩
  · exact ⟨_, rfl, (fecSeq_of_recovered h).symm⟩
  · cases h

end Receive

theorem receiveAll_concat (fm : FecMod) (seen : List FecArrival) (arrival : FecArrival) :
    fm.receiveAll cfg (seen ++ [arrival]) = ((fm.receiveAll cfg seen).receive cfg arrival).fec := by
  rw [receiveAll, List.foldl_append]
  rfl

theorem stores_init (sent : List FecPacket) (k : U32) :
    Stores (family sent k) k Parity.Decoder.empty (FecMod.init cfg) :=
  rfl

theorem exists_stores (cfg : Config) {sent : List FecPacket} (hgrouped : Grouped sent) (k : U32)
    (seen : List FecArrival) (hseen : FromSender sent seen) :
    ∃ d, Stores (family sent k) k d ((FecMod.init cfg).receiveAll cfg seen) := by
  induction seen using List.reverseRecOn with
  | nil => exact ⟨_, stores_init sent k⟩
  | append_singleton seen arrival ih =>
      obtain ⟨d, hd⟩ := ih (hseen.of_prefix (List.prefix_append _ _))
      rw [receiveAll_concat]
      cases arrival with
      | packet packet =>
          by_cases hk : packet.fecSeq ≠ k ∨ ¬((FecMod.init cfg).receiveAll cfg seen).InRange k
          · exact ⟨d, hd.receive_of_ne packet hk⟩
          · rw [not_or, not_not, not_not] at hk
            have hsent := hseen packet (List.mem_append_right _ List.mem_cons_self)
            obtain ⟨a, -, -, hstores, -⟩ := hd.receive cfg hgrouped hsent hk.1 hk.2
            exact ⟨_, hstores⟩
      | checkpoint recvStart =>
          rcases queueGet_fecCheckpoint cfg ((FecMod.init cfg).receiveAll cfg seen) recvStart k
            with hget | hget
          · refine ⟨Parity.Decoder.empty, ?_⟩
            rw [Stores, show (receive cfg _ (.checkpoint recvStart)).fec.fecQueue.queueGet k = none
              from hget]
          · exact ⟨d, hd.congr hget⟩

theorem Attended.take {k : U32} {arrivals : List FecArrival} (h : Attended cfg k arrivals)
    (n : Nat) : Attended cfg k (arrivals.take n) := by
  intro m hm arrival harrival
  rw [List.length_take, Nat.lt_min] at hm
  rw [List.getElem?_take_of_lt hm.1] at harrival
  rw [receiverAt, List.take_take, Nat.min_eq_left hm.1.le]
  exact h m hm.2 arrival harrival

theorem Attended.last {k : U32} {seen : List FecArrival} {arrival : FecArrival}
    (h : Attended cfg k (seen ++ [arrival])) :
    ((FecMod.init cfg).receiveAll cfg seen).Attends cfg k arrival := by
  have hlast := h seen.length (by simp) arrival (by simp)
  rwa [receiverAt, List.take_left] at hlast

theorem exists_tracks {sent : List FecPacket} (hgrouped : Grouped sent) (k : U32)
    (seen : List FecArrival) (hseen : FromSender sent seen) (hattended : Attended cfg k seen) :
    ∃ d, Parity.Tracks (family sent k).length (history k seen) d ∧
      Stores (family sent k) k d ((FecMod.init cfg).receiveAll cfg seen) := by
  induction seen using List.reverseRecOn with
  | nil => exact ⟨_, Parity.tracks_empty, stores_init sent k⟩
  | append_singleton seen arrival ih =>
      have hearlier := hseen.of_prefix (List.prefix_append _ _)
      have hnow := hattended.last
      have hattended := hattended.take seen.length
      rw [List.take_left] at hattended
      obtain ⟨d, htracks, hd⟩ := ih hearlier hattended
      rw [receiveAll_concat]
      cases arrival with
      | packet packet =>
          by_cases hk : packet.fecSeq = k
          · have hsent := hseen packet (List.mem_append_right _ List.mem_cons_self)
            obtain ⟨a, ha, hbound, hstores, -⟩ :=
              hd.receive cfg hgrouped hsent hk (hnow hk)
            refine ⟨_, ?_, hstores⟩
            rw [history, List.filterMap_append, List.filterMap_cons_some ha, List.filterMap_nil]
            exact (htracks.feed (fun i => lt_of_word_mem_history hgrouped hearlier) hbound).1
          · refine ⟨d, ?_, hd.receive_of_ne packet (Or.inl hk)⟩
            have hnone : FecArrival.toArrival k (.packet packet) = none := by
              cases packet with
              | data post => exact if_neg hk
              | sum fec => exact if_neg hk
            rwa [history, List.filterMap_append, List.filterMap_cons_none hnone, List.filterMap_nil,
              List.append_nil]
      | checkpoint recvStart =>
          refine ⟨d, ?_, ?_⟩
          · rwa [history, List.filterMap_append, List.filterMap_cons_none rfl, List.filterMap_nil,
              List.append_nil]
          · apply hd.congr
            change (fecCheckpoint cfg _ recvStart).fecQueue.queueGet k = _
            rcases queueGet_fecCheckpoint cfg ((FecMod.init cfg).receiveAll cfg seen) recvStart k
              with hget | hget
            · cases hold : ((FecMod.init cfg).receiveAll cfg seen).fecQueue.queueGet k with
              | none => exact hget
              | some group =>
                  have hkept := hnow (by rw [hold]; rfl)
                  rw [hget] at hkept
                  cases hkept
            · exact hget

/-! ### The round trip -/

section RoundTrip

variable {sent : List FecPacket} {k : U32} {seen : List FecArrival} {arrival : FecArrival}

theorem history_concat (k : U32) (seen : List FecArrival) (arrival : FecArrival) :
    history k (seen ++ [arrival]) = history k seen ++ (FecArrival.toArrival k arrival).toList := by
  rw [history, List.filterMap_append, ← history]
  cases harrival : FecArrival.toArrival k arrival with
  | none => rw [List.filterMap_cons_none harrival]; rfl
  | some a => rw [List.filterMap_cons_some harrival]; rfl

theorem sent_of_recovered (hgrouped : Grouped sent) (hseen : FromSender sent (seen ++ [arrival]))
    {post : DataPost}
    (h : (((FecMod.init cfg).receiveAll cfg seen).receive cfg arrival).recovered = some post) :
    .data post ∈ sent := by
  obtain ⟨packet, rfl, hseq⟩ := receive_fecSeq h
  have hsent := hseen packet (List.mem_append_right _ List.mem_cons_self)
  obtain ⟨d, hd⟩ := exists_stores cfg hgrouped packet.fecSeq seen
    (hseen.of_prefix (List.prefix_append _ _))
  by_cases hrange : ((FecMod.init cfg).receiveAll cfg seen).InRange packet.fecSeq
  · obtain ⟨a, -, -, -, hrecovered⟩ := hd.receive cfg hgrouped hsent rfl hrange
    rw [hrecovered] at h
    obtain ⟨i, -, hget⟩ := Option.bind_eq_some_iff.mp h
    exact (mem_family.mp (List.mem_of_getElem? hget)).1
  · rw [receive_of_not_inRange hrange] at h
    cases h

theorem recovered_iff (hgrouped : Grouped sent) (hseen : FromSender sent (seen ++ [arrival]))
    (hattended : Attended cfg k (seen ++ [arrival])) (post : DataPost) :
    (((FecMod.init cfg).receiveAll cfg seen).receive cfg arrival).recovered = some post ∧
        post.fecSeq = k ↔
      OnlyMissing sent k (seen ++ [arrival]) post ∧
        ∀ early, early <+: seen → ∀ other, ¬OnlyMissing sent k early other := by
  have hearlier := hseen.of_prefix (List.prefix_append seen [arrival])
  have hbefore := hattended.take seen.length
  rw [List.take_left] at hbefore
  by_cases hk : ∃ packet, arrival = .packet packet ∧ packet.fecSeq = k
  · obtain ⟨packet, rfl, hseq⟩ := hk
    have hsent := hseen packet (List.mem_append_right _ List.mem_cons_self)
    obtain ⟨d, htracks, hd⟩ := exists_tracks hgrouped k seen hearlier hbefore
    obtain ⟨a, ha, hbound, -, hrecovered⟩ :=
      hd.receive cfg hgrouped hsent hseq (hattended.last hseq)
    have hfeed := (htracks.feed (fun i => lt_of_word_mem_history hgrouped hearlier) hbound).2
    rw [← undecided_history_iff hgrouped hearlier, onlyMissing_iff hgrouped hseen, hrecovered,
      history_concat, ha, Option.toList_some, Option.bind_eq_some_iff]
    constructor
    · rintro ⟨⟨i, hi, hget⟩, -⟩
      obtain ⟨hlacks, hundecided⟩ := (hfeed i).mp hi
      exact ⟨⟨i, hget, hlacks⟩, hundecided⟩
    · rintro ⟨⟨i, hget, hlacks⟩, hundecided⟩
      refine ⟨⟨i, (hfeed i).mpr ⟨hlacks, hundecided⟩, hget⟩, ?_⟩
      exact (mem_family.mp (List.mem_of_getElem? hget)).2
  · -- an arrival of another group changes nothing for this one
    have hnone : FecArrival.toArrival k arrival = none := by
      rcases arrival with (data | fec) | recvStart
      · exact if_neg fun h => hk ⟨_, rfl, h⟩
      · exact if_neg fun h => hk ⟨_, rfl, h⟩
      · rfl
    constructor
    · rintro ⟨hrecovered, hpost⟩
      obtain ⟨packet, harrival, hseq⟩ := receive_fecSeq hrecovered
      exact absurd ⟨packet, harrival, hseq.trans hpost⟩ hk
    · rintro ⟨hmissing, hfirst⟩
      refine absurd ?_ (hfirst seen List.prefix_rfl post)
      rw [onlyMissing_iff hgrouped hseen, history_concat, hnone, Option.toList_none,
        List.append_nil] at hmissing
      exact (onlyMissing_iff hgrouped hearlier post).mpr hmissing

theorem forall_prefix_take_iff {P : List FecArrival → Prop} (arrivals : List FecArrival) (n : Nat)
    (hn : n ≤ arrivals.length) :
    (∀ early, early <+: arrivals.take n → P early) ↔ ∀ m ≤ n, P (arrivals.take m) := by
  constructor
  · intro h m hm
    exact h _ (List.take_prefix_take_left hm)
  · intro h early hearly
    have hlength : early.length ≤ n := by
      simpa [hn] using hearly.length_le
    have htake := List.prefix_iff_eq_take.mp (hearly.trans (List.take_prefix n arrivals))
    rw [htake]
    exact h _ hlength

end RoundTrip

/-- **Round trip.** The packets that `ops` sends reach the receiver in some order, some of them
several times and others never, while its window moves. Whatever is handed over was sent; for a group
that is attended throughout, it is the missing packet, at the first moment at which only that is
missing. No two groups have the same number. -/
theorem fec_roundTrip (cfg cfg' : Config) (ops : List FecSend) (arrivals : List FecArrival)
    (hsize : ∀ op ∈ ops, op.size ≤ litedtMtuMax)
    (hgroups : (groupStarts ((FecMod.init cfg).sendAll cfg ops).2).Nodup)
    (harrivals : FromSender ((FecMod.init cfg).sendAll cfg ops).2 arrivals) :
    let sent := ((FecMod.init cfg).sendAll cfg ops).2
    (∀ n post, handedOver cfg' arrivals n = some post → FecPacket.data post ∈ sent) ∧
    ∀ k, Attended cfg' k arrivals →
      (∀ n < arrivals.length, ∀ post,
        handedOver cfg' arrivals n = some post ∧ post.fecSeq = k ↔
          OnlyMissing sent k (arrivals.take (n + 1)) post ∧
            ∀ m ≤ n, ∀ other, ¬OnlyMissing sent k (arrivals.take m) other) ∧
      ∀ m n post post', handedOver cfg' arrivals m = some post → post.fecSeq = k →
        handedOver cfg' arrivals n = some post' → post'.fecSeq = k → m = n := by
  intro sent
  have hgrouped : Grouped sent := (sends_sendAll ops hsize hgroups).1.grouped
  -- arrival `n` as the last one of its history
  have htake : ∀ {n} (hn : n < arrivals.length), arrivals.take (n + 1) = arrivals.take n ++ [arrivals[n]] :=
    fun hn => List.take_succ_eq_append_getElem hn
  have hhanded : ∀ {n} (hn : n < arrivals.length), handedOver cfg' arrivals n =
      (((FecMod.init cfg').receiveAll cfg' (arrivals.take n)).receive cfg' arrivals[n]).recovered := by
    intro n hn
    rw [handedOver, List.getElem?_eq_getElem hn]
    rfl
  have hlt : ∀ {n post}, handedOver cfg' arrivals n = some post → n < arrivals.length := by
    intro n post h
    obtain ⟨arrival, hget, -⟩ := Option.bind_eq_some_iff.mp h
    exact (List.getElem?_eq_some_iff.mp hget).1
  have hsent : ∀ n, FromSender sent (arrivals.take n) :=
    fun n => harrivals.of_prefix (List.take_prefix n arrivals)
  have hmoment : ∀ k, Attended cfg' k arrivals → ∀ n < arrivals.length, ∀ post,
      handedOver cfg' arrivals n = some post ∧ post.fecSeq = k ↔
        OnlyMissing sent k (arrivals.take (n + 1)) post ∧
          ∀ m ≤ n, ∀ other, ¬OnlyMissing sent k (arrivals.take m) other := by
    intro k hattended n hn post
    have hbegins := hsent (n + 1)
    have hattends := hattended.take (n + 1)
    rw [htake hn] at hbegins hattends
    rw [hhanded hn, recovered_iff hgrouped hbegins hattends, htake hn,
      forall_prefix_take_iff arrivals n hn.le]
  refine ⟨?_, ?_⟩
  · intro n post h
    have hn := hlt h
    have hbegins := hsent (n + 1)
    rw [htake hn] at hbegins
    rw [hhanded hn] at h
    exact sent_of_recovered hgrouped hbegins h
  · intro k hattended
    refine ⟨hmoment k hattended, ?_⟩
    intro m n post post' hm hmk hn hnk
    -- the later of two moments is not the first
    have hfirst : ∀ {m n post post'}, handedOver cfg' arrivals m = some post → post.fecSeq = k →
        handedOver cfg' arrivals n = some post' → post'.fecSeq = k → ¬m < n := by
      intro m n post post' hm hmk hn hnk hmn
      have hmissing := ((hmoment k hattended m (hlt hm) post).mp ⟨hm, hmk⟩).1
      exact ((hmoment k hattended n (hlt hn) post').mp ⟨hn, hnk⟩).2 (m + 1) hmn post hmissing
    have hle := hfirst hm hmk hn hnk
    have hge := hfirst hn hnk hm hmk
    omega

def pairsConfig : Config :=
  { Config.globalConfigInit Config.plainToken with
    fecGroupSize := 2
    fecGroupSize_le := by decide }

/-- The second packet of the first group is lost; the third packet is closed early. -/
theorem fec_roundTrip_lost :
    let sent := ((FecMod.init pairsConfig).sendAll pairsConfig
      [.push 0 [1, 2, 3], .push 3 [4], .push 4 [5], .post]).2
    let arrivals := (sent.eraseIdx 1).map FecArrival.packet
    handedOver pairsConfig arrivals 1 =
        some ⟨3, 1, 0, 1, [4]⟩ ∧
      ∀ n post, handedOver pairsConfig arrivals n = some post → post.fecSeq = 0 → n = 1 := by
  intro sent arrivals
  have hspec := fec_roundTrip pairsConfig pairsConfig
    [.push 0 [1, 2, 3], .push 3 [4], .push 4 [5], .post] arrivals (by decide +kernel)
    (by decide +kernel) ?_
  · have hmoment := (hspec.2 0 (by decide +kernel)).2
    have hhanded : handedOver pairsConfig arrivals 1 = some ⟨3, 1, 0, 1, [4]⟩ := by decide +kernel
    exact ⟨hhanded, fun n post h hk => hmoment n 1 post _ h hk hhanded rfl⟩
  · intro packet hpacket
    obtain ⟨other, hother, ⟨⟩⟩ := List.mem_map.mp hpacket
    exact List.mem_of_mem_eraseIdx hother

/-- Two groups with the same number: a packet of the first and the closing packet of the third make a
packet that was never sent. -/
theorem fec_roundTrip_sharedNumber :
    let sent := ((FecMod.init pairsConfig).sendAll pairsConfig
      [.push 0 [1], .push 1 [2], .push 2 [3], .push 0xffffffff [4], .push 0 [9], .push 1 [6]]).2
    ∃ first ∈ sent, ∃ closing ∈ sent, ∃ post,
      Attended pairsConfig 0 [.packet first, .packet closing] ∧
        handedOver pairsConfig [.packet first, .packet closing] 1 = some post ∧
        FecPacket.data post ∉ sent := by
  intro sent
  refine ⟨.data ⟨0, 1, 0, 0, [1]⟩, by decide +kernel,
    .sum ⟨0, 2, [1, 0, 0, 0, 0, 0, 0, 0, 0, 0, 1, 15]⟩, by decide +kernel, ⟨1, 1, 0, 1, [14]⟩, ?_⟩
  decide +kernel

end Liteflow

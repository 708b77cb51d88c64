import Liteflow.Proof.Receiver
import Liteflow.Proof.Release

/-!
# What the error correction hands over

The length and the index of a recovered packet are read off `fec_buf`, and nothing checks them. They
are the exclusive or of the same fields of what has come in for the group. Whether a datagram makes
`fec_insert` leave the buffer or the map can therefore be read off the entry of its group before the
call, and off the datagram.
-/

namespace Liteflow

/-! ### Fields of an exclusive or -/

theorem readLittleEndian_xor (a b : Nat → Byte) (n start : Nat) :
    readLittleEndian (fun i => a i ^^^ b i) start n =
      readLittleEndian a start n ^^^ readLittleEndian b start n := by
  induction n generalizing start with
  | zero => simp [readLittleEndian]
  | succ n ih =>
      have ha := (a start).isLt
      have hb := (b start).isLt
      have hab := (a start ^^^ b start).isLt
      have hbyte (x r : Nat) : x + 256 * r = 2 ^ 8 * r + x := by omega
      rw [readLittleEndian, readLittleEndian, readLittleEndian, ih, hbyte, hbyte, hbyte]
      refine Nat.eq_of_testBit_eq fun j => ?_
      rw [Nat.testBit_xor, Nat.testBit_two_pow_mul_add _ hab, Nat.testBit_two_pow_mul_add _ ha,
        Nat.testBit_two_pow_mul_add _ hb]
      split
      · rw [BitVec.toNat_xor, Nat.testBit_xor]
      · rw [Nat.testBit_xor]

/-- `(data_post_t *)buf` for a packet, or for the contents of a sum. -/
def headerOf (buf : List Byte) : DataPost :=
  DataPost.ofBytes (fun i => (buf[i]?).getD 0)

section Fields

variable (buf : Nat → Byte) (data : List Byte)

theorem fecSeq_xorInto : (DataPost.ofBytes (xorInto buf data)).fecSeq =
    (DataPost.ofBytes buf).fecSeq ^^^ (headerOf data).fecSeq := by
  change BitVec.ofNat 32 (readLittleEndian (fun i => buf i ^^^ (data[i]?).getD 0) 6 4) = _
  rw [readLittleEndian_xor, BitVec.ofNat_xor]
  rfl

theorem len_xorInto : (DataPost.ofBytes (xorInto buf data)).len =
    (DataPost.ofBytes buf).len ^^^ (headerOf data).len := by
  change BitVec.ofNat 16 (readLittleEndian (fun i => buf i ^^^ (data[i]?).getD 0) 4 2) = _
  rw [readLittleEndian_xor, BitVec.ofNat_xor]
  rfl

theorem fecIndex_xorInto : (DataPost.ofBytes (xorInto buf data)).fecIndex =
    (DataPost.ofBytes buf).fecIndex ^^^ (headerOf data).fecIndex := rfl

end Fields

/-! ### One call of `fec_insert` -/

/-- What is handed over lies inside `fec_buf`, and the indices inside `fec_map`. -/
def FecMod.Inserted.Bounded (inserted : FecMod.Inserted) : Prop :=
  (∀ post, inserted.recovered = some post → sizeofDataPost + post.len.toNat ≤ litedtMtuMax) ∧
    ∀ idx ∈ inserted.indices, idx.toNat < 128

namespace FecMod

/-- The entry of the group that the packet completes but for one packet. -/
def completed (fm : FecMod) (fseq : U32) (fidx fmems : U8) (buf : List Byte) : Option FecGroup :=
  let group := (fm.fecQueue.queueGet fseq).getD (newGroup fseq fmems)
  if ¬ fm.InRange fseq ∨ fmems = 0 ∨ fecMembersMax < fmems ∨ (fidx < fecMembersMax ∧ fmems ≤ fidx) ∨
      buf.length = 0 ∨ litedtMtuMax < buf.length then
    none
  else if fecMembersMax < fidx then
    if group.fecSum = false ∧ group.fecFinish + 1 = fmems then some group else none
  else
    if group.fecMap fidx = false ∧ group.fecSum ∧ group.fecFinish + 1 = group.fecMembers then
      some (FecGroup.mark group fidx)
    else none

/-- If the group numbers add up to that of the group, then the indices add up to one of `fec_map`,
and unless it is marked the lengths add up to one that fits. -/
def Fitting (fseq : U32) (group : FecGroup) (buf : List Byte) : Prop :=
  let sum := DataPost.ofBytes group.fecBuf
  let post := headerOf buf
  sum.fecSeq ^^^ post.fecSeq = fseq →
    (sum.fecIndex ^^^ post.fecIndex).toNat < 128 ∧
      (group.fecMap (sum.fecIndex ^^^ post.fecIndex) = false →
        sizeofDataPost + (sum.len ^^^ post.len).toNat ≤ litedtMtuMax)

def Plausible (fm : FecMod) (fseq : U32) (fidx fmems : U8) (buf : List Byte) : Prop :=
  ∀ group ∈ fm.completed fseq fidx fmems buf, Fitting fseq group buf

instance (fseq : U32) (group : FecGroup) (buf : List Byte) : Decidable (Fitting fseq group buf) :=
  inferInstanceAs (Decidable (_ → _ ∧ (_ → _)))

instance (fm : FecMod) (fseq : U32) (fidx fmems : U8) (buf : List Byte) :
    Decidable (fm.Plausible fseq fidx fmems buf) :=
  inferInstanceAs (Decidable (∀ group ∈ fm.completed fseq fidx fmems buf, _))

theorem recover_bounded_iff (fm : FecMod) (fseq : U32) (group : FecGroup) {used : List U8}
    (hused : ∀ idx ∈ used, idx.toNat < 128) :
    (fm.recover fseq group used).Bounded ↔
      (group.fecFinish = group.fecMembers ∧ group.fecSum →
        (DataPost.ofBytes group.fecBuf).fecSeq = fseq →
        (DataPost.ofBytes group.fecBuf).fecIndex.toNat < 128 ∧
          (group.fecMap (DataPost.ofBytes group.fecBuf).fecIndex = false →
            sizeofDataPost + (DataPost.ofBytes group.fecBuf).len.toNat ≤ litedtMtuMax)) := by
  have hindices (idx : U8) : (∀ i ∈ used ++ [idx], i.toNat < 128) ↔ idx.toNat < 128 := by
    rw [List.forall_mem_append, List.forall_mem_singleton]
    exact and_iff_right hused
  unfold recover
  dsimp only
  split
  · rename_i hcomplete
    split
    · rename_i hgroup
      simpa [Inserted.Bounded, hgroup] using hused
    · rename_i hgroup
      have hgroup' := not_not.mp hgroup
      split
      · rename_i hmarked
        simp only [Inserted.Bounded, hindices, hcomplete, hgroup', hmarked]
        simp
      · rename_i hfree
        simp only [Inserted.Bounded, hindices, hcomplete, hgroup', hfree]
        simp [and_comm]
  · rename_i hcomplete
    simpa [Inserted.Bounded, hcomplete] using hused

theorem recover_counted_bounded_iff (fm : FecMod) (fseq : U32) (group : FecGroup) (buf : List Byte)
    {used : List U8} (hused : ∀ idx ∈ used, idx.toNat < 128) :
    (fm.recover fseq (counted group buf) used).Bounded ↔
      (group.fecFinish + 1 = group.fecMembers ∧ group.fecSum → Fitting fseq group buf) := by
  rw [recover_bounded_iff fm fseq _ hused]
  dsimp only [counted]
  rw [fecSeq_xorInto, fecIndex_xorInto, len_xorInto]
  rfl

theorem fitting_extend (fseq : U32) (group : FecGroup) (fin : U32) (buf : List Byte) :
    Fitting fseq (FecGroup.extend group fin) buf ↔ Fitting fseq group buf := by
  unfold FecGroup.extend
  split <;> rfl

theorem forall_mem_some {P : FecGroup → Prop} {group : FecGroup} :
    (∀ g ∈ some group, P g) ↔ P group := by
  simp

theorem bounded_nothing (fm : FecMod) : (Inserted.mk fm none []).Bounded :=
  ⟨fun _ h => (by cases h), fun _ h => (by cases h)⟩

theorem fecInsert_bounded_iff (fm : FecMod) (fseq : U32) (fidx fmems : U8) (buf : List Byte)
    (fin : U32) :
    (fm.fecInsert true fseq fidx fmems buf fin).Bounded ↔ fm.Plausible fseq fidx fmems buf := by
  rw [Plausible, completed]
  by_cases hout : ¬ fm.InRange fseq ∨ fmems = 0 ∨ fecMembersMax < fmems ∨
      (fidx < fecMembersMax ∧ fmems ≤ fidx) ∨ buf.length = 0 ∨ litedtMtuMax < buf.length
  · have hnothing : fm.fecInsert true fseq fidx fmems buf fin = { fec := fm } := by
      rw [fecInsert]
      split
      · rfl
      · rename_i hrange
        split
        · rfl
        · rename_i hvalid
          split
          · rfl
          · rename_i hlen
            exact absurd hout (by rw [InRange, ← BitVec.not_le]; tauto)
    rw [hnothing, if_pos hout]
    exact iff_of_true (bounded_nothing fm) (by simp)
  · rw [if_neg hout]
    simp only [not_or, not_not] at hout
    obtain ⟨hrange, hzero, hmax, hidx, hbuf, hlen⟩ := hout
    rw [fecInsert_eq hrange (by tauto) (Nat.not_lt.mp hlen)]
    dsimp only
    generalize (fm.fecQueue.queueGet fseq).getD (newGroup fseq fmems) = group
    split
    · -- a sum, or a data packet whose index is taken for one
      split
      · rename_i hsum
        exact iff_of_true (bounded_nothing _) (by simp [hsum])
      · rename_i hsum
        have hsum' : group.fecSum = false := by simpa using hsum
        rw [recover_counted_bounded_iff _ _ _ _ (by simp)]
        by_cases hfinish : group.fecFinish + 1 = fmems
        · rw [if_pos ⟨hsum', hfinish⟩, forall_mem_some]
          exact ⟨fun h => h ⟨hfinish, rfl⟩, fun h _ => h⟩
        · rw [if_neg (fun h => hfinish h.2)]
          exact iff_of_true (fun h => absurd h.1 hfinish) (by simp)
    · rename_i hdata
      have hsmall : ∀ idx ∈ [fidx], idx.toNat < 128 := by
        rw [List.forall_mem_singleton]
        exact Nat.lt_succ_of_le (BitVec.not_lt.mp hdata)
      split
      · rename_i hmarked
        exact iff_of_true ⟨fun _ h => (by cases h), hsmall⟩ (by simp [hmarked])
      · rename_i hfree
        have hfree' : group.fecMap fidx = false := by simpa using hfree
        have hkept : (FecGroup.extend (FecGroup.mark group fidx) fin).fecFinish = group.fecFinish ∧
            (FecGroup.extend (FecGroup.mark group fidx) fin).fecMembers = group.fecMembers ∧
            (FecGroup.extend (FecGroup.mark group fidx) fin).fecSum = group.fecSum := by
          unfold FecGroup.extend
          split <;> exact ⟨rfl, rfl, rfl⟩
        rw [recover_counted_bounded_iff _ _ _ _ hsmall, hkept.1, hkept.2.1, hkept.2.2,
          fitting_extend]
        by_cases hcomplete : group.fecFinish + 1 = group.fecMembers ∧ group.fecSum
        · rw [if_pos ⟨hfree', hcomplete.2, hcomplete.1⟩, forall_mem_some]
          exact ⟨fun h => h hcomplete, fun h _ => h⟩
        · rw [if_neg (fun h => hcomplete ⟨h.2.2, h.2.1⟩)]
          exact iff_of_true (fun h => absurd h hcomplete) (by simp)

theorem bounded_fecInsert {nodeAlloc : Bool} {fm : FecMod} {fseq : U32} {fidx fmems : U8}
    {buf : List Byte} {fin : U32} (htrusted : fm.Plausible fseq fidx fmems buf) :
    (fm.fecInsert nodeAlloc fseq fidx fmems buf fin).Bounded := by
  rcases fecInsert_node nodeAlloc fm fseq fidx fmems buf fin with heq | heq
  · rw [heq]
    exact bounded_nothing fm
  · rw [heq]
    exact (fecInsert_bounded_iff fm fseq fidx fmems buf fin).mpr htrusted

end FecMod

/-! ### Whole runs -/

def Event.FecBounded (flow : U32) : Event → Prop
  | fecRecovered g post => g = flow → sizeofDataPost + post.len.toNat ≤ litedtMtuMax
  | fecIndices g indices => g = flow → ∀ idx ∈ indices, idx.toNat < 128
  | _ => True

instance (flow : U32) (event : Event) : Decidable (event.FecBounded flow) := by
  cases event <;> unfold Event.FecBounded <;> infer_instance

def Host.FecBounded (h : Host) (flow : U32) : Prop :=
  ∀ event ∈ h.log, event.FecBounded flow

instance (h : Host) (flow : U32) : Decidable (h.FecBounded flow) :=
  inferInstanceAs (Decidable (∀ event ∈ h.log, event.FecBounded flow))

def Host.fecOf (h : Host) (flow : U32) : FecMod :=
  match h.findConnection flow with
  | none => FecMod.init h.cfg
  | some conn => conn.fec

def FecPlausible (h : Host) (_ : Env) : HostEvent → Prop
  | .io (.dataPost flow sent) | .io (.connectData flow _ sent) =>
      h.cfg.fecDecode ≠ 0 → ∀ data ∈ Host.checkLength sent,
        (h.fecOf flow).Plausible data.fecSeq data.fecIndex fecMembersMax data.bytes
  | .io (.dataFec flow sum) =>
      h.cfg.fecDecode ≠ 0 →
        (h.fecOf flow).Plausible sum.fecSeq (fecMembersMax + 1) sum.fecMembers sum.fecData
  | _ => True

instance (h : Host) (env : Env) (event : HostEvent) : Decidable (FecPlausible h env event) := by
  unfold FecPlausible
  split <;> infer_instance

section Moves

variable {flow : U32} {env : Env} {event : HostEvent} {v v' : FlowState}

theorem bounded_of_ofSender {e : Event} (he : e.OfSender) : e.FecBounded flow := by
  cases e <;> trivial

theorem bounded_of_flow {e : Event} (he : e.flow? ≠ some flow) : e.FecBounded flow := by
  cases e with
  | fecRecovered g post => exact fun heq => absurd (congrArg some heq) he
  | fecIndices g indices => exact fun heq => absurd (congrArg some heq) he
  | _ => trivial

theorem bounded_senderFrame (hframe : SenderFrame flow event v v')
    (hlog : ∀ e ∈ v.log, e.FecBounded flow) : ∀ e ∈ v'.log, e.FecBounded flow := by
  obtain ⟨es, hes, hall⟩ := hframe.log
  rw [hes]
  exact List.forall_mem_append.mpr ⟨hlog, fun e he => bounded_of_ofSender (hall e he)⟩

theorem bounded_insert {h : Host} {c : Stream} {inserted : FecMod.Inserted}
    (hsane : FecPlausible h env event)
    (hinserted : Insertion flow event c.fec inserted)
    (huntouched : Untouched ((h.began env event).view flow) c) (hdecode : h.cfg.fecDecode ≠ 0) :
    inserted.Bounded := by
  have hfec : c.fec = h.fecOf flow := by
    have hfind : (h.began env event).findConnection flow = h.findConnection flow := by
      cases event <;> rfl
    have hcfg : (h.began env event).cfg = h.cfg := by
      cases event <;> rfl
    rw [Host.fecOf]
    cases hconn : h.findConnection flow with
    | none =>
        simp only [Untouched, Host.view, hfind, hconn, hcfg] at huntouched
        exact huntouched.2
    | some conn =>
        simp only [Untouched, Host.view, hfind, hconn] at huntouched
        exact huntouched.2
  rw [hfec] at hinserted
  cases hinserted with
  | data hbrings =>
      obtain ⟨sent, hcheck, rfl | ⟨tunnelId, rfl⟩⟩ := hbrings
      · exact FecMod.bounded_fecInsert (hsane hdecode _ hcheck)
      · exact FecMod.bounded_fecInsert (hsane hdecode _ hcheck)
  | sum hevent =>
      subst hevent
      exact FecMod.bounded_fecInsert (hsane hdecode)

theorem bounded_move {h : Host} (hsane : FecPlausible h env event)
    (hmove : Move flow env event ((h.began env event).view flow) v v') (hcfg : v.cfg = h.cfg)
    (hlog : ∀ e ∈ v.log, e.FecBounded flow) : ∀ e ∈ v'.log, e.FecBounded flow := by
  have hnote {e : Event} (he : e.FecBounded flow) : ∀ e' ∈ v.log ++ [e], e'.FecBounded flow :=
    List.forall_mem_append.mpr ⟨hlog, by simpa using he⟩
  cases hmove with
  | sender hmove =>
      have hframe : SenderFrame flow event v v' := hmove.frame
      exact bounded_senderFrame hframe hlog
  | ack hmove => exact bounded_senderFrame hmove.frame hlog
  | receiver hmove =>
      cases hmove with
      | insert hstream hinserted huntouched hstate hdecode =>
          obtain ⟨hpost, hindices⟩ := bounded_insert hsane hinserted huntouched (hcfg ▸ hdecode)
          refine List.forall_mem_append.mpr ⟨hnote (fun _ => hindices), fun e he => ?_⟩
          obtain ⟨post, hrecovered, rfl⟩ := Option.map_eq_some_iff.mp (Option.mem_toList.mp he)
          exact fun _ => hpost post hrecovered
      | read hstream hsize hreleased => exact hnote trivial
      | failed hstream hreleased => exact hnote trivial
      | store hstream hbrings hlen huntouched => exact hlog
      | checkpoint hstream => exact hlog
      | ack acks sackMap hstream hacks => exact hlog
  | control hmove =>
      cases hmove with
      | create tunnelId hstream hopens => exact hnote trivial
      | release hstream hreleases => exact hnote trivial
      | _ => exact hlog
  | session hmove =>
      cases hmove with
      | accept hevent hid htime hnode htoken => exact hnote trivial
      | _ => exact hlog
  | foreignSend flight hflow hping => exact hlog
  | foreignNote note hflow hping => exact hnote (bounded_of_flow hflow)

end Moves

/-- **What is handed over is within the bounds** in every run in which every datagram for the error
correction is plausible where it arrives. -/
theorem Host.fec_bounded (cfg : Config) (nodeId : U16) (now : Time)
    {events : List (Env × HostEvent)}
    (hsane : (litedtInit cfg nodeId now).Meets FecPlausible events) (flow : U32) :
    ((litedtInit cfg nodeId now).run events).FecBounded flow := by
  refine run_of_meets (P := fun h => h.FecBounded flow) (fun h env event hmeets hbounded => ?_)
    hsane (by simp [FecBounded, litedtInit])
  have hbegan : ((h.began env event).view flow).cfg = h.cfg ∧
      ∀ e ∈ ((h.began env event).view flow).log, e.FecBounded flow := by
    cases event <;> exact ⟨rfl, hbounded⟩
  have hstep : ((h.step env event).view flow).cfg = h.cfg ∧
      ∀ e ∈ ((h.step env event).view flow).log, e.FecBounded flow := by
    refine step_preserves (P := fun v => v.cfg = h.cfg ∧ ∀ e ∈ v.log, e.FecBounded flow)
      (fun v v' hmove hv => ?_) hbegan
    exact ⟨hmove.lived.cfg_eq.trans hv.1, bounded_move hmeets hmove hv.1 hv.2⟩
  exact hstep.2

def decodingConfig : Config :=
  { Config.globalConfigInit Config.plainToken with fecDecode := 1 }

def lostPost : List (Env × HostEvent) :=
  [(.plain 0, .io (.connectReq 7 0)),
    (.plain 0, .io (.dataFec 7 ⟨0, 1, (DataPost.mk 0 1 0 0 [65]).bytes⟩))]

theorem fec_bounded_lostPost :
    (Host.litedtInit decodingConfig 1 0).Meets FecPlausible lostPost ∧
      ((Host.litedtInit decodingConfig 1 0).run lostPost).FecBounded 7 := by
  have hsane : (Host.litedtInit decodingConfig 1 0).Meets FecPlausible lostPost := by
    decide +kernel
  exact ⟨hsane, Host.fec_bounded decodingConfig 1 0 hsane 7⟩

/-- A sum of a group of one packet, which claims a length that `fec_buf` does not have. -/
def forgedSum : List (Env × HostEvent) :=
  [(.plain 0, .io (.connectReq 7 0)),
    (.plain 0, .io (.dataFec 7 ⟨0, 1, (DataPost.mk 0 1418 0 0 []).bytes⟩))]

theorem not_fec_bounded_forgedSum :
    ¬ ((Host.litedtInit decodingConfig 1 0).run forgedSum).FecBounded 7 := by
  decide +kernel

end Liteflow

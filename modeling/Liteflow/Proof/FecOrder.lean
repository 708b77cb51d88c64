import Liteflow.Proof.FecGroup
import Mathlib.Data.List.TakeWhile

/-!
# The groups of a connection stay in order

A new group is put behind the groups that precede it, found from the end of the queue, and
`fec_checkpoint` takes groups off the front as long as the next one has begun. Sequence numbers compare
by the half range, which is an order in a window of half the range; there the distance from the start of
the window ranks them.
-/

namespace Liteflow

open HashQueue

def rank (base seq : U32) : Nat :=
  (seq - base).toNat

def InWindow (base seq : U32) : Prop :=
  rank base seq < 2 ^ 31

instance (base seq : U32) : Decidable (InWindow base seq) :=
  inferInstanceAs (Decidable (rank base seq < 2 ^ 31))

theorem lessEqual_iff_rank {base a b : U32} (ha : InWindow base a) (hb : InWindow base b) :
    lessEqual a b = true ↔ rank base a ≤ rank base b :=
  Serial.le_iff_of_window (by decide) ha hb

theorem rank_inj {base a b : U32} (heq : rank base a = rank base b) : a = b :=
  (BitVec.sub_left_inj base).mp (BitVec.eq_of_toNat_eq heq)

namespace FecMod

variable {base : U32} {queue : HashQueue U32 FecGroup} {fseq : U32} {group : FecGroup}

/-- Every group is filed under its own number, the numbers lie in the window, and they ascend. -/
structure Ascends (base : U32) (queue : HashQueue U32 FecGroup) : Prop where
  own : ∀ entry ∈ queue, entry.2.fecSeq = entry.1
  window : ∀ entry ∈ queue, InWindow base entry.1
  sorted : (queue.map Prod.fst).Pairwise (fun a b => rank base a < rank base b)

theorem ascends_nil : Ascends base [] :=
  ⟨by simp, by simp, List.Pairwise.nil⟩

theorem Ascends.sublist {rest : HashQueue U32 FecGroup} (hqueue : Ascends base queue)
    (hsub : rest.Sublist queue) : Ascends base rest :=
  ⟨fun entry hmem => hqueue.own entry (hsub.subset hmem),
    fun entry hmem => hqueue.window entry (hsub.subset hmem), hqueue.sorted.sublist (hsub.map _)⟩

/-! ### A new group -/

theorem arrange_split (hqueue : Ascends base queue) (hfseq : InWindow base fseq) (group : FecGroup) :
    ∃ front back, queue = front ++ back ∧ arrange fseq group queue = front ++ (fseq, group) :: back ∧
      (∀ entry ∈ front, rank base entry.1 < rank base fseq) ∧
      ∀ entry ∈ back, rank base fseq ≤ rank base entry.1 := by
  have hprecedes : ∀ entry ∈ queue,
      (lessEqual fseq entry.2.fecSeq = true ↔ rank base fseq ≤ rank base entry.1) := by
    intro entry hmem
    rw [hqueue.own entry hmem]
    exact lessEqual_iff_rank hfseq (hqueue.window entry hmem)
  refine ⟨(queue.reverse.dropWhile (fun prec => lessEqual fseq prec.2.fecSeq)).reverse,
    (queue.reverse.takeWhile (fun prec => lessEqual fseq prec.2.fecSeq)).reverse, ?_, ?_, ?_, ?_⟩
  · rw [← List.reverse_append, List.takeWhile_append_dropWhile, List.reverse_reverse]
  · exact arrange_eq fseq group queue
  · intro entry hmem
    rw [List.mem_reverse] at hmem
    have hsub := List.dropWhile_sublist (fun prec : U32 × FecGroup => lessEqual fseq prec.2.fecSeq)
      (l := queue.reverse)
    have hstop := List.head?_dropWhile_not (fun prec : U32 × FecGroup => lessEqual fseq prec.2.fecSeq)
      queue.reverse
    -- the groups before the one where the search stops rank below it
    have hdescends : (queue.reverse.dropWhile (fun prec => lessEqual fseq prec.2.fecSeq)).Pairwise
        (fun a b => rank base b.1 < rank base a.1) := by
      have hsorted := hqueue.sorted
      rw [List.pairwise_map] at hsorted
      exact (List.pairwise_reverse.mpr hsorted).sublist hsub
    generalize queue.reverse.dropWhile (fun prec => lessEqual fseq prec.2.fecSeq) = earlier at *
    cases earlier with
    | nil => exact absurd hmem List.not_mem_nil
    | cons last rest =>
        have hlast : rank base last.1 < rank base fseq := by
          have hin : last ∈ queue := List.mem_reverse.mp (hsub.subset (by simp))
          have hnot : ¬lessEqual fseq last.2.fecSeq = true := by simpa using hstop
          rw [hprecedes last hin] at hnot
          exact Nat.not_le.mp hnot
        rcases List.mem_cons.mp hmem with rfl | hmem
        · exact hlast
        · exact ((List.pairwise_cons.mp hdescends).1 entry hmem).trans hlast
  · intro entry hmem
    rw [List.mem_reverse] at hmem
    have hin : entry ∈ queue :=
      List.mem_reverse.mp ((List.takeWhile_sublist _).subset hmem)
    exact (hprecedes entry hin).mp (by simpa using List.mem_takeWhile_imp hmem)

theorem Ascends.arrange (hqueue : Ascends base queue) (hfseq : InWindow base fseq)
    (hnew : queueGet queue fseq = none) (hgroup : group.fecSeq = fseq) :
    Ascends base (arrange fseq group queue) := by
  obtain ⟨front, back, rfl, harrange, hfront, hback⟩ := arrange_split hqueue hfseq group
  have hnone := queueGet_eq_none_iff.mp hnew
  have hafter : ∀ entry ∈ back, rank base fseq < rank base entry.1 := fun entry hmem =>
    Nat.lt_of_le_of_ne (hback entry hmem) fun heq =>
      hnone entry (List.mem_append_right _ hmem) (rank_inj heq).symm
  rw [harrange]
  refine ⟨?_, ?_, ?_⟩
  · obtain ⟨hbefore, hafter⟩ := List.forall_mem_append.mp hqueue.own
    exact List.forall_mem_append.mpr ⟨hbefore, List.forall_mem_cons.mpr ⟨hgroup, hafter⟩⟩
  · obtain ⟨hbefore, hafter⟩ := List.forall_mem_append.mp hqueue.window
    exact List.forall_mem_append.mpr ⟨hbefore, List.forall_mem_cons.mpr ⟨hfseq, hafter⟩⟩
  · have hsorted := hqueue.sorted
    rw [List.pairwise_map, List.pairwise_append] at hsorted
    rw [List.pairwise_map, List.pairwise_append, List.pairwise_cons]
    refine ⟨hsorted.1, ⟨hafter, hsorted.2.1⟩, fun a ha b hb => ?_⟩
    rcases List.mem_cons.mp hb with rfl | hb
    · exact hfront a ha
    · exact hsorted.2.2 a ha b hb

theorem Ascends.queueModify (hqueue : Ascends base queue) (hgroup : group.fecSeq = fseq) :
    Ascends base (queue.queueModify fseq (fun _ => group)) := by
  have hkeys : (queue.queueModify fseq (fun _ => group)).map Prod.fst = queue.map Prod.fst := by
    clear hqueue
    induction queue with
    | nil => rfl
    | cons entry rest ih =>
        rw [HashQueue.queueModify]
        split
        · rfl
        · rw [List.map_cons, List.map_cons, ih]
  have hentries : ∀ entry ∈ queue.queueModify fseq (fun _ => group),
      entry ∈ queue ∨ entry = (fseq, group) := by
    clear hqueue hkeys
    induction queue with
    | nil => exact fun entry hmem => .inl hmem
    | cons first rest ih =>
        intro entry hmem
        rw [HashQueue.queueModify] at hmem
        split at hmem
        · rename_i hkey
          rcases List.mem_cons.mp hmem with rfl | hmem
          · exact .inr (by rw [hkey])
          · exact .inl (List.mem_cons_of_mem _ hmem)
        · rcases List.mem_cons.mp hmem with rfl | hmem
          · exact .inl List.mem_cons_self
          · exact (ih entry hmem).imp_left (List.mem_cons_of_mem _)
  refine ⟨fun entry hmem => ?_, fun entry hmem => ?_, hkeys ▸ hqueue.sorted⟩
  · rcases hentries entry hmem with hmem | rfl
    · exact hqueue.own entry hmem
    · exact hgroup
  · have hin : entry.1 ∈ queue.map Prod.fst := hkeys ▸ List.mem_map_of_mem hmem
    obtain ⟨old, hold, heq⟩ := List.mem_map.mp hin
    exact heq ▸ hqueue.window old hold

theorem Ascends.fecInsert {fm : FecMod} (hqueue : Ascends base fm.fecQueue) (hfseq : InWindow base fseq)
    (nodeAlloc : Bool) (fidx fmems : U8) (buf : List Byte) (fin : U32) :
    Ascends base (fm.fecInsert nodeAlloc fseq fidx fmems buf fin).fec.fecQueue := by
  have hopened : Ascends base (fm.opened fseq fmems).fecQueue := by
    unfold opened
    split
    · exact hqueue
    · rename_i hnone
      exact hqueue.arrange hfseq hnone rfl
  have hgroup : ((fm.fecQueue.queueGet fseq).getD (newGroup fseq fmems)).fecSeq = fseq := by
    cases hget : fm.fecQueue.queueGet fseq with
    | none => rfl
    | some found => exact hqueue.own _ (mem_of_queueGet hget)
  rcases fecInsert_cases nodeAlloc fm fseq fidx fmems buf fin with
    heq | ⟨used, heq⟩ | ⟨group, used, heq, hseq⟩
  · rw [heq]
    exact hqueue
  · rw [heq]
    exact hopened
  · obtain ⟨⟨written, hwritten, hsame⟩, -⟩ := recover_cases (fm.opened fseq fmems) fseq group used
    rw [heq, hwritten]
    exact hopened.queueModify (hsame.trans (hseq.trans hgroup))

/-! ### A checkpoint -/

def trim (recvStart : U32) : HashQueue U32 FecGroup → HashQueue U32 FecGroup
  | first :: second :: rest =>
      if lessEqual second.2.fecSeq recvStart then trim recvStart (second :: rest)
      else first :: second :: rest
  | queue => queue

theorem trim_suffix (recvStart : U32) (queue : HashQueue U32 FecGroup) :
    trim recvStart queue <:+ queue := by
  fun_induction trim recvStart queue with
  | case1 first second rest _ ih => exact ih.trans (List.suffix_cons _ _)
  | case2 => exact List.suffix_rfl
  | case3 => exact List.suffix_rfl

theorem checkpointLoop_queue (recvStart : U32) : ∀ (fuel : Nat) {fm : FecMod},
    Ascends base fm.fecQueue → fm.fecQueue.length ≤ fuel →
    (checkpointLoop recvStart fuel fm).fecQueue = trim recvStart fm.fecQueue := by
  intro fuel
  induction fuel with
  | zero =>
      intro fm _ hfuel
      rw [List.length_eq_zero_iff.mp (Nat.le_zero.mp hfuel), checkpointLoop,
        List.length_eq_zero_iff.mp (Nat.le_zero.mp hfuel)]
      rfl
  | succ fuel ih =>
      intro fm hqueue hfuel
      unfold checkpointLoop
      split
      · rename_i key1 fec1 key2 fec2 rest heq
        rw [heq] at hqueue hfuel ⊢
        rw [trim]
        split
        · -- the numbers differ, so only the first group is deleted
          have hdel : queueDel ((key1, fec1) :: (key2, fec2) :: rest) fec1.fecSeq =
              (key2, fec2) :: rest := by
            have hown : fec1.fecSeq = key1 := hqueue.own (key1, fec1) (by simp)
            have hlater := (List.pairwise_cons.mp hqueue.sorted).1
            rw [queueDel, hown, List.filter_cons_of_neg (by simp), List.filter_eq_self]
            intro entry hmem
            refine decide_eq_true fun hkey => ?_
            exact absurd (hlater entry.1 (List.mem_map_of_mem hmem)) (by rw [hkey]; exact lt_irrefl _)
          rw [ih]
          · dsimp only
            rw [hdel]
          · dsimp only
            rw [hdel]
            exact hqueue.sublist (List.sublist_cons_self _ _)
          · dsimp only
            rw [hdel]
            exact Nat.le_of_succ_le_succ hfuel
        · exact heq
      · rename_i hshort
        unfold trim
        split
        · rename_i first second rest heq
          exact absurd heq (hshort first.1 first.2 second.1 second.2 rest)
        · rfl

theorem mem_trim_iff {recvStart : U32} (hstart : InWindow base recvStart) (hqueue : Ascends base queue)
    {entry : U32 × FecGroup} {before after : HashQueue U32 FecGroup}
    (hsplit : queue = before ++ entry :: after) :
    entry ∈ trim recvStart queue ↔ ∀ next ∈ after, lessEqual next.2.fecSeq recvStart = false := by
  fun_induction trim recvStart queue generalizing before with
  | case1 first second rest hbegun ih =>
      cases before with
      | nil =>
          obtain ⟨rfl, rfl⟩ := List.cons.inj hsplit
          have hlater := (List.pairwise_cons.mp hqueue.sorted).1
          refine iff_of_false (fun hmem => ?_) fun hnone => ?_
          · have hin := (trim_suffix recvStart (second :: rest)).subset hmem
            exact lt_irrefl _ (hlater _ (List.mem_map_of_mem hin))
          · exact absurd hbegun (by simp [hnone second (by simp)])
      | cons _ before =>
          obtain ⟨rfl, htail⟩ := List.cons.inj hsplit
          exact ih (hqueue.sublist (List.sublist_cons_self _ _)) htail
  | case2 first second rest hwaits =>
      have hlater : ∀ next ∈ second :: rest, lessEqual next.2.fecSeq recvStart = false := by
        have hrank : rank base recvStart < rank base second.1 := by
          rw [hqueue.own second (by simp), lessEqual_iff_rank (hqueue.window second (by simp)) hstart]
            at hwaits
          exact Nat.not_le.mp hwaits
        intro next hmem
        have hin : next ∈ first :: second :: rest := List.mem_cons_of_mem _ hmem
        have hbehind : rank base second.1 ≤ rank base next.1 := by
          rcases List.mem_cons.mp hmem with rfl | hmem
          · exact Nat.le_refl _
          · have hsorted := (List.pairwise_cons.mp (List.pairwise_cons.mp hqueue.sorted).2).1
            exact Nat.le_of_lt (hsorted next.1 (List.mem_map_of_mem hmem))
        rw [Bool.eq_false_iff, hqueue.own next hin, ne_eq,
          lessEqual_iff_rank (hqueue.window next hin) hstart]
        omega
      have hafter : after ⊆ second :: rest := by
        cases before with
        | nil => exact (List.cons.inj hsplit).2 ▸ List.Subset.refl _
        | cons _ before =>
            rw [(List.cons.inj hsplit).2]
            exact fun next hmem => List.mem_append_right _ (List.mem_cons_of_mem _ hmem)
      refine iff_of_true ?_ fun next hmem => hlater next (hafter hmem)
      rw [hsplit]
      simp
  | case3 queue hshort =>
      have hlast : after = [] := by
        cases before with
        | nil =>
            cases after with
            | nil => rfl
            | cons next rest => exact absurd hsplit (hshort entry next rest)
        | cons first before =>
            cases before with
            | nil => exact absurd hsplit (hshort first entry after)
            | cons second before => exact absurd hsplit (hshort first second _)
      rw [hsplit, hlast]
      simp

theorem Ascends.fecCheckpoint_queue {fm : FecMod} (hqueue : Ascends base fm.fecQueue) (cfg : Config)
    (recvStart : U32) : (fm.fecCheckpoint cfg recvStart).fecQueue = trim recvStart fm.fecQueue :=
  checkpointLoop_queue recvStart _ hqueue (Nat.le_refl _)

theorem Ascends.rebase {other : U32} (hqueue : Ascends base queue)
    (hother : ∀ entry ∈ queue, InWindow other entry.1) : Ascends other queue := by
  refine ⟨hqueue.own, hother, ?_⟩
  have hsorted := hqueue.sorted
  rw [List.pairwise_map] at hsorted ⊢
  refine hsorted.imp_of_mem fun {a b} ha hb hlt => ?_
  have hnot := mt (lessEqual_iff_rank (hqueue.window b hb) (hqueue.window a ha)).mp (Nat.not_le.mpr hlt)
  exact Nat.not_le.mp (mt (lessEqual_iff_rank (hother b hb) (hother a ha)).mpr hnot)

end FecMod

/-! ### Runs of calls -/

/-- The calls that change the queue of groups. For a data packet `fin` is the end of its data. -/
inductive FecCall where
  | insert (nodeAlloc : Bool) (fseq : U32) (fidx fmems : U8) (buf : List Byte) (fin : U32)
  | checkpoint (recvStart : U32)

namespace FecCall

def apply (cfg : Config) (fm : FecMod) : FecCall → FecMod
  | insert nodeAlloc fseq fidx fmems buf fin => (fm.fecInsert nodeAlloc fseq fidx fmems buf fin).fec
  | checkpoint recvStart => fm.fecCheckpoint cfg recvStart

def Within (base : U32) : FecCall → Prop
  | insert _ fseq _ _ _ _ => InWindow base fseq
  | checkpoint _ => True

def applyAll (cfg : Config) (fm : FecMod) (calls : List FecCall) : FecMod :=
  calls.foldl (apply cfg) fm

end FecCall

namespace FecMod

theorem Ascends.apply {base : U32} {fm : FecMod} (hqueue : Ascends base fm.fecQueue) (cfg : Config)
    {call : FecCall} (hcall : call.Within base) : Ascends base (call.apply cfg fm).fecQueue := by
  cases call with
  | insert nodeAlloc fseq fidx fmems buf fin => exact hqueue.fecInsert hcall nodeAlloc fidx fmems buf fin
  | checkpoint recvStart =>
      rw [FecCall.apply, hqueue.fecCheckpoint_queue]
      exact hqueue.sublist (trim_suffix recvStart _).sublist

theorem Ascends.applyAll {base : U32} (cfg : Config) : ∀ (calls : List FecCall) {fm : FecMod},
    Ascends base fm.fecQueue → (∀ call ∈ calls, call.Within base) →
    Ascends base (FecCall.applyAll cfg fm calls).fecQueue := by
  intro calls
  induction calls with
  | nil => exact fun hqueue _ => hqueue
  | cons call rest ih =>
      intro fm hqueue hcalls
      exact ih (hqueue.apply cfg (hcalls call (by simp))) fun other hmem => hcalls other (by simp [hmem])

end FecMod

/-- **FEC groups stay ordered.** After any calls whose groups lie in a window of half the range, the
queue has at most one entry for each `fec_seq` and ascends in serial order. A checkpoint removes
exactly the groups that have a later one that begins at or before `recv_start`. -/
theorem fecQueue_ordered (cfg : Config) (base : U32) (calls : List FecCall)
    (hcalls : ∀ call ∈ calls, call.Within base) :
    let fm := FecCall.applyAll cfg (FecMod.init cfg) calls
    (∀ entry ∈ fm.fecQueue, entry.2.fecSeq = entry.1) ∧ (fm.fecQueue.map Prod.fst).Nodup ∧
    fm.fecQueue.Pairwise (fun a b =>
      lessEqual a.2.fecSeq b.2.fecSeq = true ∧ lessEqual b.2.fecSeq a.2.fecSeq = false) ∧
    ∀ window recvStart, InWindow window recvStart →
      (∀ entry ∈ fm.fecQueue, InWindow window entry.2.fecSeq) →
      (fm.fecCheckpoint cfg recvStart).fecQueue <:+ fm.fecQueue ∧
      (∀ before group after, fm.fecQueue = before ++ group :: after →
        (group ∈ (fm.fecCheckpoint cfg recvStart).fecQueue ↔
          ∀ next ∈ after, lessEqual next.2.fecSeq recvStart = false)) ∧
      ∀ group ∈ fm.fecQueue, lessEqual recvStart group.2.fecSeq = true →
        group ∈ (fm.fecCheckpoint cfg recvStart).fecQueue := by
  intro fm
  have hqueue : FecMod.Ascends base fm.fecQueue :=
    FecMod.Ascends.applyAll cfg calls FecMod.ascends_nil hcalls
  refine ⟨hqueue.own, ?_, ?_, fun window recvStart hstart hwindow => ?_⟩
  · exact hqueue.sorted.imp fun hlt heq => absurd hlt (by rw [heq]; exact lt_irrefl _)
  · have hsorted := hqueue.sorted
    rw [List.pairwise_map] at hsorted
    refine hsorted.imp_of_mem fun {a b} ha hb hlt => ?_
    rw [hqueue.own a ha, hqueue.own b hb, Bool.eq_false_iff, ne_eq,
      lessEqual_iff_rank (hqueue.window a ha) (hqueue.window b hb),
      lessEqual_iff_rank (hqueue.window b hb) (hqueue.window a ha)]
    exact ⟨Nat.le_of_lt hlt, Nat.not_le.mpr hlt⟩
  · have hqueue' := hqueue.rebase fun entry hmem => hqueue.own entry hmem ▸ hwindow entry hmem
    rw [hqueue.fecCheckpoint_queue]
    refine ⟨FecMod.trim_suffix recvStart _,
      fun before group after hsplit => FecMod.mem_trim_iff hstart hqueue' hsplit,
      fun group hmem hfrom => ?_⟩
    obtain ⟨before, after, hsplit⟩ := List.append_of_mem hmem
    refine (FecMod.mem_trim_iff hstart hqueue' hsplit).mpr fun next hnext => ?_
    have hin : next ∈ fm.fecQueue := hsplit ▸ List.mem_append_right _ (List.mem_cons_of_mem _ hnext)
    have hbehind : rank window group.1 < rank window next.1 := by
      have hsorted := hqueue'.sorted
      rw [hsplit, List.pairwise_map, List.pairwise_append, List.pairwise_cons] at hsorted
      exact hsorted.2.1.1 next hnext
    rw [hqueue'.own group hmem, lessEqual_iff_rank hstart (hqueue'.window group hmem)] at hfrom
    rw [hqueue'.own next hin, Bool.eq_false_iff, ne_eq, lessEqual_iff_rank (hqueue'.window next hin) hstart]
    omega

/-- Three groups come in out of order; the one that is over at position 7 goes. -/
theorem fecQueue_ordered_three :
    let cfg := Config.globalConfigInit Config.plainToken
    let calls : List FecCall :=
      [.insert true 10 0 3 [1] 11, .insert true 0 0 3 [1] 1, .insert true 5 1 3 [1] 6]
    let fm := FecCall.applyAll cfg (FecMod.init cfg) calls
    fm.fecQueue.map Prod.fst = [0, 5, 10] ∧
      (fm.fecCheckpoint cfg 7).fecQueue.map Prod.fst = [5, 10] ∧
      ∀ group ∈ fm.fecQueue, lessEqual 7 group.2.fecSeq = true →
        group ∈ (fm.fecCheckpoint cfg 7).fecQueue := by
  intro cfg calls fm
  have hordered := fecQueue_ordered cfg 0 calls (by simp [calls, FecCall.Within, InWindow, rank])
  have hkeys : fm.fecQueue.map Prod.fst = [0, 5, 10] := by decide +kernel
  refine ⟨hkeys, by decide +kernel, (hordered.2.2.2 0 7 (by decide) fun entry hmem => ?_).2.2⟩
  have hkey : entry.1 ∈ [0, 5, 10] := hkeys ▸ List.mem_map_of_mem hmem
  rw [hordered.1 entry hmem]
  simp only [List.mem_cons, List.not_mem_nil, or_false] at hkey
  rcases hkey with hkey | hkey | hkey <;> rw [hkey] <;> decide

end Liteflow

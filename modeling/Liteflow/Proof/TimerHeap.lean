import Liteflow.TimerTable
import Liteflow.Lib.BinaryHeap

/-!
# The heap of the timer list

What the timer list stands for is the list of its entries, each a node with its time, in the order
of the pushes (`TimerlistData.timers`). The heap part of every operation is reduced here to what it
does to that list and to the order of the heap.
-/

namespace Liteflow

open BinaryHeap

namespace TimerlistData

variable {κ ν : Type} {tq : TimerlistData κ ν}

def times (tq : TimerlistData κ ν) (i : Nat) : Int :=
  (tq.heap i).time

def timers (tq : TimerlistData κ ν) : List (TimerNode κ ν × Int) :=
  tq.nodes.map (fun n => (n, tq.timeOf n.id))

structure Sorted (tq : TimerlistData κ ν) : Prop where
  linked : Linked tq
  ordered : Ordered tq.nodeCount tq.times

/-! ### The sifts -/

theorem times_swap (a b : Nat) : (tq.swap a b).times = BinaryHeap.swap tq.times a b := by
  funext i
  rw [BinaryHeap.swap_apply, times, swap_heap]
  simp only [times]
  grind

theorem timers_congr {tq' : TimerlistData κ ν} (hnodes : tq'.nodes = tq.nodes)
    (htime : ∀ address ∈ tq.nodes.map TimerNode.id, tq'.timeOf address = tq.timeOf address) :
    tq'.timers = tq.timers := by
  rw [timers, timers, hnodes]
  apply List.map_congr_left
  intro n hn
  rw [htime n.id (List.mem_map_of_mem hn)]

theorem timers_swap (htq : Linked tq) {a b : Nat} (ha : a < tq.nodeCount) (hb : b < tq.nodeCount) :
    (tq.swap a b).timers = tq.timers := by
  refine timers_congr (sameNodes_swap a b).nodes_eq ?_
  intro address hmem
  have hida := htq.index a ha
  have hidb := htq.index b hb
  obtain ⟨-, hheap⟩ := htq.in_heap address hmem
  rw [timeOf, timeOf, swap_heapId, swap_heap]
  grind

theorem adjustUp_timers : ∀ (fuel : Nat) {tq : TimerlistData κ ν} {s : Nat}, Linked tq →
    s < tq.nodeCount → (tq.adjustUp fuel s).timers = tq.timers := by
  intro fuel
  induction fuel with
  | zero => exact fun _ _ => rfl
  | succ fuel ih =>
      intro tq s htq hs
      rw [adjustUp]
      split
      · dsimp only
        split
        · have ht : (s - 1) / 2 < tq.nodeCount := by omega
          rw [ih (htq.swap hs ht) ht, timers_swap htq hs ht]
        · rfl
      · rfl

theorem adjustDown_timers : ∀ (fuel : Nat) {tq : TimerlistData κ ν} {s : Nat}, Linked tq →
    (tq.adjustDown fuel s).timers = tq.timers := by
  intro fuel
  induction fuel with
  | zero => exact fun _ => rfl
  | succ fuel ih =>
      intro tq s htq
      rw [adjustDown]
      split
      · rename_i hs
        dsimp only
        split
        · have ht := smallerChild_lt hs.1 hs.2
          have hs' : s < tq.nodeCount := by omega
          rw [ih (htq.swap hs' ht), timers_swap htq hs' ht]
        · rfl
      · rfl

theorem adjustUp_ordered : ∀ (fuel : Nat) {tq : TimerlistData κ ν} {s : Nat}, s ≤ fuel →
    s < tq.nodeCount → OrderedOff tq.nodeCount tq.times s → FitsBelow tq.nodeCount tq.times s →
    Ordered tq.nodeCount (tq.adjustUp fuel s).times := by
  intro fuel
  induction fuel with
  | zero =>
      intro tq s hfuel hs hoff hbelow
      exact hoff.ordered (fun hpos => absurd hpos (by omega)) hbelow
  | succ fuel ih =>
      intro tq s hfuel hs hoff hbelow
      rw [adjustUp]
      split
      · rename_i hpos
        dsimp only
        split
        · rename_i hlt
          obtain ⟨hoff', hbelow'⟩ := hoff.moveUp hpos hs hlt
          rw [← times_swap] at hoff' hbelow'
          have hps := parent_lt hpos
          exact @ih (tq.swap s (parent s)) (parent s) (by omega) (hps.trans hs) hoff' hbelow'
        · rename_i hge
          exact hoff.ordered (fun _ => not_lt.mp hge) hbelow
      · rename_i hzero
        exact hoff.ordered (fun hpos => absurd hpos hzero) hbelow

theorem adjustUp_eq_self {fuel s : Nat} (habove : FitsAbove tq.times s) :
    tq.adjustUp fuel s = tq := by
  cases fuel with
  | zero => rfl
  | succ fuel =>
      rw [adjustUp]
      split
      · rename_i hpos
        exact if_neg (not_lt.mpr (habove hpos))
      · rfl

theorem smallerChild_spec (s : Nat) :
    0 < tq.smallerChild s ∧ parent (tq.smallerChild s) = s ∧
      ∀ i, 0 < i → i < tq.nodeCount → parent i = s → tq.times (tq.smallerChild s) ≤ tq.times i := by
  have hchild : ∀ i, 0 < i → parent i = s → i = 2 * s + 1 ∨ i = 2 * s + 1 + 1 := by
    intro i hpos hparent
    unfold parent at hparent
    omega
  unfold smallerChild
  dsimp only
  split
  · rename_i hright
    refine ⟨by omega, by unfold parent; omega, fun i hpos hi hparent => ?_⟩
    rcases hchild i hpos hparent with rfl | rfl
    · exact hright.2.le
    · exact le_rfl
  · rename_i hleft
    refine ⟨by omega, by unfold parent; omega, fun i hpos hi hparent => ?_⟩
    rcases hchild i hpos hparent with rfl | rfl
    · exact le_rfl
    · exact not_lt.mp (fun hlt => hleft ⟨hi, hlt⟩)

theorem adjustDown_ordered : ∀ (fuel : Nat) {tq : TimerlistData κ ν} {s : Nat},
    tq.nodeCount ≤ fuel + s → OrderedOff tq.nodeCount tq.times s → FitsAbove tq.times s →
    Ordered tq.nodeCount (tq.adjustDown fuel s).times := by
  intro fuel
  induction fuel with
  | zero =>
      intro tq s hfuel hoff habove
      refine hoff.ordered habove (fun i hpos hi hparent => ?_)
      have := parent_lt hpos
      omega
  | succ fuel ih =>
      intro tq s hfuel hoff habove
      rw [adjustDown]
      split
      · rename_i hs
        obtain ⟨hpos, hparent, hleast⟩ := tq.smallerChild_spec s
        have ht := smallerChild_lt hs.1 hs.2
        have hst := parent_lt hpos
        dsimp only
        split
        · rename_i hlt
          obtain ⟨hoff', habove'⟩ := hoff.moveDown hpos ht hparent hleast hlt
          rw [← times_swap] at hoff' habove'
          exact @ih (tq.swap s (tq.smallerChild s)) (tq.smallerChild s)
            (show tq.nodeCount ≤ fuel + tq.smallerChild s by omega) hoff' habove'
        · rename_i hge
          exact hoff.ordered habove
            (fun i hi hin hip => (not_lt.mp hge).trans (hleast i hi hin hip))
      · rename_i hs
        refine hoff.ordered habove (fun i hpos hi hparent => ?_)
        unfold parent at hparent
        omega

/-! ### The operations on the heap -/

theorem adjustUp_sorted {s : Nat} (htq : Linked tq) (hs : s < tq.nodeCount)
    (hoff : OrderedOff tq.nodeCount tq.times s) (hbelow : FitsBelow tq.nodeCount tq.times s) :
    Sorted (tq.adjustUp s s) := by
  obtain ⟨hlinked, hsame⟩ := adjustUp_spec s htq hs
  refine ⟨hlinked, ?_⟩
  rw [hsame.nodeCount_eq]
  exact adjustUp_ordered s le_rfl hs hoff hbelow

theorem adjustDown_sorted {s : Nat} (htq : Linked tq)
    (hoff : OrderedOff tq.nodeCount tq.times s) (habove : FitsAbove tq.times s) :
    Sorted (tq.adjustDown tq.nodeCount s) := by
  obtain ⟨hlinked, hsame⟩ := adjustDown_spec tq.nodeCount (s := s) htq
  refine ⟨hlinked, ?_⟩
  rw [hsame.nodeCount_eq]
  exact adjustDown_ordered tq.nodeCount (Nat.le_add_right _ _) hoff habove

theorem adjustBoth_sorted {s : Nat} (htq : Linked tq) (hs : s < tq.nodeCount)
    (hoff : OrderedOff tq.nodeCount tq.times s) :
    Sorted ((tq.adjustUp s s).adjustDown (tq.adjustUp s s).nodeCount s) := by
  by_cases habove : FitsAbove tq.times s
  · rw [adjustUp_eq_self habove]
    exact adjustDown_sorted htq hoff habove
  · obtain ⟨hpos, hlt⟩ : 0 < s ∧ tq.times s < tq.times (parent s) := by
      unfold FitsAbove at habove
      push Not at habove
      exact habove
    have hsorted := adjustUp_sorted htq hs hoff (hoff.fitsBelow hpos hlt)
    have hcount := (adjustUp_spec s htq hs).2.nodeCount_eq
    apply adjustDown_sorted hsorted.linked
    · exact hsorted.ordered.orderedOff le_rfl (fun _ _ _ => rfl) (hcount.symm ▸ hs)
    · exact hsorted.ordered.fitsAbove (hcount.symm ▸ hs)

theorem Sorted.push (htq : Sorted tq) (time : Int) (key : κ) (value : ν) :
    Sorted (tq.push time key value) ∧
      (tq.push time key value).timers =
        tq.timers ++ [({ id := tq.nextId, key := key, value := value }, time)] := by
  have hadded := htq.linked.added time key value
  have hs : tq.nodeCount < tq.nodeCount + 1 := Nat.lt_succ_self _
  refine ⟨adjustUp_sorted hadded hs ?_ ?_, ?_⟩
  · constructor
    · intro i hpos hi hne hparent
      have := parent_lt hpos
      have hold := htq.ordered i hpos (by dsimp only at hi; omega)
      simpa [times, hne, hparent] using hold
    · intro i hpos hi hparent _
      have := parent_lt hpos
      dsimp only at hi
      omega
  · intro i hpos hi hparent
    have := parent_lt hpos
    dsimp only at hi
    omega
  · rw [TimerlistData.push, adjustUp_timers tq.nodeCount hadded hs, timers, timers,
      List.map_append, List.map_singleton]
    congr 1
    · apply List.map_congr_left
      intro n hn
      have hmem := List.mem_map_of_mem (f := TimerNode.id) hn
      have hfresh := htq.linked.fresh n.id hmem
      have hin := (htq.linked.in_heap n.id hmem).1
      have hid : Function.update tq.heapId tq.nextId tq.nodeCount n.id = tq.heapId n.id :=
        Function.update_of_ne (by omega) _ _
      simp only [timeOf, hid]
      rw [Function.update_of_ne (by omega)]
    · simp [timeOf]

theorem timers_filter (address : Nat) :
    timers { tq with nodes := tq.nodes.filter (fun n => n.id ≠ address) } =
      tq.timers.filter (fun timer => timer.1.id ≠ address) := by
  rw [timers, timers, List.filter_map]
  rfl

theorem Sorted.dropLast (htq : Sorted tq) (hpos : 0 < tq.nodeCount) :
    Sorted { tq with
      nodeCount := tq.nodeCount - 1
      nodes := tq.nodes.filter (fun n => n.id ≠ (tq.heap (tq.nodeCount - 1)).node) } :=
  ⟨htq.linked.dropLast hpos,
    fun i hpos hi => htq.ordered i hpos (hi.trans_le (Nat.sub_le tq.nodeCount 1))⟩

theorem Sorted.unlink (htq : Sorted tq) {id address : Nat} (hid : id < tq.nodeCount)
    (haddress : (tq.heap id).node = address) {settle : TimerlistData κ ν → TimerlistData κ ν}
    (hsettle : ∀ tq' : TimerlistData κ ν, Linked tq' → id < tq'.nodeCount →
      OrderedOff tq'.nodeCount tq'.times id → Sorted (settle tq') ∧ (settle tq').timers = tq'.timers) :
    Sorted (tq.unlink id settle) ∧
      (tq.unlink id settle).timers =
        tq.timers.filter (fun timer => timer.1.id ≠ address) := by
  subst haddress
  unfold TimerlistData.unlink
  dsimp only
  split
  · rename_i hlast
    subst hlast
    exact ⟨htq.dropLast (by omega), timers_filter _⟩
  · rename_i hne
    have hlast : tq.nodeCount - 1 < tq.nodeCount := by omega
    have hnode : ((tq.swap id (tq.nodeCount - 1)).heap (tq.nodeCount - 1)).node =
        (tq.heap id).node := by
      rw [swap_heap, if_pos rfl]
    have hlinked := (htq.linked.swap hid hlast).dropLast (show 0 < tq.nodeCount by omega)
    have hoff : OrderedOff (tq.nodeCount - 1) (tq.swap id (tq.nodeCount - 1)).times id := by
      apply htq.ordered.orderedOff hlast.le _ hid
      intro i hi hne'
      rw [times, swap_heap, if_neg (by omega), if_neg hne', times]
    obtain ⟨hsorted, htimers⟩ := hsettle _ hlinked (show id < tq.nodeCount - 1 by omega) hoff
    rw [show (tq.swap id (tq.nodeCount - 1)).nodeCount = tq.nodeCount from rfl, hnode]
      at hsorted htimers
    refine ⟨hsorted, htimers.trans ?_⟩
    rw [← timers_swap htq.linked hid hlast]
    exact timers_filter _

theorem Sorted.pop (htq : Sorted tq) (hpos : 0 < tq.nodeCount) :
    Sorted tq.pop ∧
      tq.pop.timers = tq.timers.filter (fun timer => timer.1.id ≠ (tq.heap 0).node) := by
  rw [TimerlistData.pop, if_neg (by omega)]
  apply htq.unlink hpos rfl
  intro tq' hlinked _ hoff
  have habove : FitsAbove tq'.times 0 := fun h => absurd h (lt_irrefl 0)
  exact ⟨adjustDown_sorted hlinked hoff habove, adjustDown_timers _ hlinked⟩

theorem Sorted.delNode (htq : Sorted tq) {address : Nat}
    (hmem : address ∈ tq.nodes.map TimerNode.id) :
    Sorted (tq.delNode address) ∧
      (tq.delNode address).timers = tq.timers.filter (fun timer => timer.1.id ≠ address) := by
  obtain ⟨hlt, hheap⟩ := htq.linked.in_heap address hmem
  rw [TimerlistData.delNode]
  apply htq.unlink hlt hheap
  intro tq' hlinked hin hoff
  obtain ⟨hup, -⟩ := adjustUp_spec (tq.heapId address) hlinked hin
  refine ⟨adjustBoth_sorted hlinked hin hoff, ?_⟩
  rw [adjustDown_timers _ hup, adjustUp_timers _ hlinked hin]

def retimed (address : Nat) (time : Int) (timers : List (TimerNode κ ν × Int)) :
    List (TimerNode κ ν × Int) :=
  timers.map (fun timer => if timer.1.id = address then (timer.1, time) else timer)

theorem setTime_times (i j : Nat) (time : Int) :
    (tq.setTime i time).times j = if j = i then time else tq.times j := by
  simp only [times, setTime, Function.update_apply]
  split <;> rfl

theorem timers_setTime (htq : Linked tq) {address : Nat}
    (hmem : address ∈ tq.nodes.map TimerNode.id) (time : Int) :
    (tq.setTime (tq.heapId address) time).timers = retimed address time tq.timers := by
  rw [timers, retimed, timers, List.map_map]
  apply List.map_congr_left
  intro n hn
  have hheap := (htq.in_heap n.id (List.mem_map_of_mem hn)).2
  have haddress := (htq.in_heap address hmem).2
  have htimes := tq.setTime_times (tq.heapId address) (tq.heapId n.id) time
  simp only [Function.comp_apply, timeOf]
  by_cases hid : n.id = address
  · rw [if_pos hid]
    rw [if_pos (by rw [hid])] at htimes
    exact Prod.ext rfl htimes
  · have hne : tq.heapId n.id ≠ tq.heapId address := by
      intro heq
      rw [heq, haddress] at hheap
      exact hid hheap.symm
    rw [if_neg hid]
    rw [if_neg hne] at htimes
    exact Prod.ext rfl htimes

theorem Sorted.setTime_off (htq : Sorted tq) {id : Nat} (hid : id < tq.nodeCount) (time : Int) :
    OrderedOff tq.nodeCount (tq.setTime id time).times id := by
  apply htq.ordered.orderedOff le_rfl _ hid
  intro i _ hne
  rw [setTime_times, if_neg hne]

theorem Sorted.lower (htq : Sorted tq) {address : Nat}
    (hmem : address ∈ tq.nodes.map TimerNode.id) {time : Int} (hle : time ≤ tq.timeOf address) :
    Sorted ((tq.setTime (tq.heapId address) time).adjustUp (tq.heapId address)
        (tq.heapId address)) ∧
      ((tq.setTime (tq.heapId address) time).adjustUp (tq.heapId address)
        (tq.heapId address)).timers = retimed address time tq.timers := by
  obtain ⟨hlt, -⟩ := htq.linked.in_heap address hmem
  have hlinked := htq.linked.setTime (tq.heapId address) time
  refine ⟨adjustUp_sorted hlinked hlt (htq.setTime_off hlt time) ?_, ?_⟩
  · intro i hpos hi hparent
    have hne : i ≠ tq.heapId address := by
      have := parent_lt hpos
      omega
    rw [setTime_times, setTime_times, if_pos rfl, if_neg hne]
    exact hle.trans (htq.ordered.fitsBelow i hpos hi hparent)
  · rw [adjustUp_timers _ hlinked hlt, timers_setTime htq.linked hmem]

theorem Sorted.raise (htq : Sorted tq) {address : Nat}
    (hmem : address ∈ tq.nodes.map TimerNode.id) {time : Int} (hle : tq.timeOf address ≤ time) :
    Sorted ((tq.setTime (tq.heapId address) time).adjustDown tq.nodeCount (tq.heapId address)) ∧
      ((tq.setTime (tq.heapId address) time).adjustDown tq.nodeCount
        (tq.heapId address)).timers = retimed address time tq.timers := by
  obtain ⟨hlt, -⟩ := htq.linked.in_heap address hmem
  have hlinked := htq.linked.setTime (tq.heapId address) time
  refine ⟨adjustDown_sorted hlinked (htq.setTime_off hlt time) ?_, ?_⟩
  · intro hpos
    have := parent_lt hpos
    rw [setTime_times, setTime_times, if_pos rfl, if_neg (by omega)]
    exact (htq.ordered.fitsAbove hlt hpos).trans hle
  · rw [adjustDown_timers _ hlinked, timers_setTime htq.linked hmem]

theorem Linked.mem_timers (htq : Linked tq) {i : Nat} (hi : i < tq.nodeCount) :
    ∃ n ∈ tq.nodes, n.id = (tq.heap i).node ∧ (n, tq.times i) ∈ tq.timers := by
  obtain ⟨n, hn, hid⟩ := List.mem_map.mp (htq.mem_nodes i hi)
  refine ⟨n, hn, hid, List.mem_map.mpr ⟨n, hn, ?_⟩⟩
  rw [timeOf, hid, htq.index i hi, times]

theorem Sorted.top_le (htq : Sorted tq) {timer : TimerNode κ ν × Int} (hmem : timer ∈ tq.timers) :
    tq.times 0 ≤ timer.2 := by
  obtain ⟨n, hn, rfl⟩ := List.mem_map.mp hmem
  exact htq.ordered.root_le _ (htq.linked.in_heap n.id (List.mem_map_of_mem hn)).1

theorem Linked.nodeCount_eq_zero (htq : Linked tq) : tq.nodeCount = 0 ↔ tq.timers = [] := by
  rw [timers, List.map_eq_nil_iff]
  constructor
  · intro hzero
    apply List.eq_nil_iff_forall_not_mem.mpr
    intro n hn
    have := (htq.in_heap n.id (List.mem_map_of_mem hn)).1
    omega
  · intro hnil
    by_contra hpos
    have := htq.mem_nodes 0 (by omega)
    rw [hnil] at this
    exact absurd this (by simp)

theorem timers_map_fst : tq.timers.map Prod.fst = tq.nodes := by
  rw [timers, List.map_map]
  exact List.map_id' _

theorem Linked.node?_eq (htq : Linked tq) {n : TimerNode κ ν} (hn : n ∈ tq.nodes) :
    tq.node? n.id = some n := by
  obtain ⟨n', hfind⟩ : ∃ n', tq.node? n.id = some n' :=
    Option.isSome_iff_exists.mp (List.find?_isSome.mpr ⟨n, hn, by simp⟩)
  have hid : n'.id = n.id := by simpa using List.find?_some hfind
  rw [hfind, List.inj_on_of_nodup_map htq.nodup (List.mem_of_find?_eq_some hfind) hn hid]

theorem Linked.hasKey_eq [DecidableEq κ] (htq : Linked tq) {n : TimerNode κ ν} (hn : n ∈ tq.nodes)
    (key : κ) : tq.hasKey key n.id = decide (n.key = key) := by
  rw [hasKey, htq.node?_eq hn, Option.any_some]

theorem timeOf_of_mem {timer : TimerNode κ ν × Int} (hmem : timer ∈ tq.timers) :
    timer.1 ∈ tq.nodes ∧ tq.timeOf timer.1.id = timer.2 := by
  obtain ⟨n, hn, rfl⟩ := List.mem_map.mp hmem
  exact ⟨hn, rfl⟩

theorem Sorted.moveupNode (htq : Sorted tq) (time : Int) {address : Nat}
    (hmem : address ∈ tq.nodes.map TimerNode.id) :
    Sorted (moveupNode time tq address) ∧
      (moveupNode time tq address).timers =
        tq.timers.map (fun timer =>
          if timer.1.id = address then (timer.1, min timer.2 time) else timer) := by
  rw [TimerlistData.moveupNode]
  by_cases hle : tq.timeOf address ≤ time
  · -- The loop goes on: no entry with this address has a later time.
    refine (if_pos hle).symm ▸ ⟨htq, ?_⟩
    nth_rewrite 1 [← List.map_id tq.timers]
    apply List.map_congr_left
    intro timer htimer
    rw [id_eq]
    split
    · rename_i hid
      have htime := (timeOf_of_mem htimer).2
      rw [hid] at htime
      rw [min_eq_left (htime ▸ hle)]
    · rfl
  · obtain ⟨hsorted, htimers⟩ := htq.lower hmem (not_le.mp hle).le
    refine (if_neg hle).symm ▸ ⟨hsorted, htimers.trans ?_⟩
    apply List.map_congr_left
    intro timer htimer
    split
    · rename_i hid
      have htime := (timeOf_of_mem htimer).2
      rw [hid] at htime
      rw [min_eq_right (htime ▸ (not_le.mp hle).le)]
    · rfl

/-- One turn of `timerlist_resched`, when the comparison of the times as `uint64_t` comes out as the one
of the times themselves. -/
theorem Sorted.reschedNode (htq : Sorted tq) {time : Int} {address : Nat}
    (hmem : address ∈ tq.nodes.map TimerNode.id)
    (hfits : asUint64 time < asUint64 (tq.timeOf address) ↔ time < tq.timeOf address) :
    Sorted (reschedNode time tq address) ∧
      (reschedNode time tq address).timers = retimed address time tq.timers := by
  rw [TimerlistData.reschedNode]
  split
  · rename_i hsooner
    exact htq.lower hmem (hfits.mp hsooner).le
  · rename_i hlater
    exact htq.raise hmem (not_lt.mp (mt hfits.mpr hlater))

theorem Sorted.reschedTop (htq : Sorted tq) (hpos : 0 < tq.nodeCount) (time : Int) :
    Sorted ((tq.setTime 0 time).adjustDown tq.nodeCount 0) ∧
      ((tq.setTime 0 time).adjustDown tq.nodeCount 0).timers =
        retimed (tq.heap 0).node time tq.timers := by
  have hlinked := htq.linked.setTime 0 time
  refine ⟨adjustDown_sorted hlinked (htq.setTime_off hpos time) fun h => absurd h (lt_irrefl 0), ?_⟩
  have htimers := timers_setTime htq.linked (htq.linked.mem_nodes 0 hpos) time
  rw [htq.linked.index 0 hpos] at htimers
  rw [adjustDown_timers _ hlinked, htimers]

/-! ### Operations with a key -/

variable [DecidableEq κ]

omit [DecidableEq κ] in
theorem Sorted.foldl_delNode : ∀ (addresses : List Nat) {tq : TimerlistData κ ν}, Sorted tq →
    (∀ address ∈ addresses, address ∈ tq.nodes.map TimerNode.id) → addresses.Nodup →
    Sorted (addresses.foldl TimerlistData.delNode tq) ∧
      (addresses.foldl TimerlistData.delNode tq).timers =
        tq.timers.filter (fun timer => timer.1.id ∉ addresses) := by
  intro addresses
  induction addresses with
  | nil => exact fun htq _ _ => ⟨htq, by simp⟩
  | cons address rest ih =>
      intro tq htq hmem hnodup
      obtain ⟨hnotin, hnodup'⟩ := List.nodup_cons.mp hnodup
      obtain ⟨hsorted, htimers⟩ := htq.delNode (hmem address (by simp))
      have hnodes := (htq.linked.delNode (hmem address (by simp))).2
      obtain ⟨hsorted', htimers'⟩ := ih hsorted (fun other hother => by
        rw [hnodes, mem_ids_filter]
        exact ⟨hmem other (by simp [hother]), fun heq => hnotin (heq ▸ hother)⟩) hnodup'
      refine ⟨hsorted', htimers'.trans ?_⟩
      rw [htimers, List.filter_filter]
      refine List.filter_congr fun timer _ => ?_
      simp only [List.mem_cons, not_or, Bool.decide_and]
      rw [Bool.and_comm]

theorem Sorted.withKey_nodup (htq : Sorted tq) (key : κ) : (tq.withKey key).Nodup :=
  htq.linked.nodup.sublist (List.filter_sublist.map _)

theorem Sorted.del (htq : Sorted tq) (key : κ) :
    Sorted (tq.del key) ∧
      (tq.del key).timers = tq.timers.filter (fun timer => timer.1.key ≠ key) := by
  obtain ⟨hsorted, htimers⟩ := Sorted.foldl_delNode (tq.withKey key) htq
    (fun _ => mem_ids_of_withKey) (htq.withKey_nodup key)
  refine ⟨hsorted, htimers.trans (List.filter_congr fun timer htimer => ?_)⟩
  have hiff := htq.linked.mem_withKey_iff (timeOf_of_mem htimer).1 key
  simp only [hiff, ne_eq]

omit [DecidableEq κ] in
theorem Sorted.foldl_retime (node : TimerlistData κ ν → Nat → TimerlistData κ ν) (change : Int → Int)
    (fits : Int → Prop)
    (hnode : ∀ {tq : TimerlistData κ ν} {address : Nat}, Sorted tq →
      address ∈ tq.nodes.map TimerNode.id → fits (tq.timeOf address) →
      Sorted (node tq address) ∧ (node tq address).timers = tq.timers.map (fun timer =>
        if timer.1.id = address then (timer.1, change timer.2) else timer)) :
    ∀ (addresses : List Nat) {tq : TimerlistData κ ν}, Sorted tq →
      (∀ address ∈ addresses, address ∈ tq.nodes.map TimerNode.id) → addresses.Nodup →
      (∀ timer ∈ tq.timers, timer.1.id ∈ addresses → fits timer.2) →
      Sorted (addresses.foldl node tq) ∧
        (addresses.foldl node tq).timers = tq.timers.map (fun timer =>
          if timer.1.id ∈ addresses then (timer.1, change timer.2) else timer) := by
  intro addresses
  induction addresses with
  | nil => exact fun htq _ _ _ => ⟨htq, by simp⟩
  | cons address rest ih =>
      intro tq htq hmem hnodup hfits
      obtain ⟨hnotin, hnodup'⟩ := List.nodup_cons.mp hnodup
      obtain ⟨n, hn, hid⟩ := List.mem_map.mp (hmem address (by simp))
      have hfirst : fits (tq.timeOf address) := by
        have htimer : (n, tq.timeOf n.id) ∈ tq.timers := List.mem_map.mpr ⟨n, hn, rfl⟩
        rw [← hid]
        exact hfits _ htimer (by simp [hid])
      obtain ⟨hsorted, htimers⟩ := hnode htq (hmem address (by simp)) hfirst
      have hnodes : (node tq address).nodes = tq.nodes := by
        rw [← timers_map_fst, htimers, ← timers_map_fst, List.map_map]
        refine List.map_congr_left fun timer _ => ?_
        rw [Function.comp_apply]
        split <;> rfl
      have hrest : ∀ timer ∈ (node tq address).timers, timer.1.id ∈ rest → fits timer.2 := by
        intro timer htimer hin
        rw [htimers] at htimer
        obtain ⟨old, hold, rfl⟩ := List.mem_map.mp htimer
        split at hin
        · rename_i hsame
          exact absurd (hsame ▸ hin) hnotin
        · rename_i hother
          rw [if_neg hother]
          exact hfits old hold (by simp [hin])
      obtain ⟨hsorted', htimers'⟩ := ih hsorted (fun other hother => by
        rw [hnodes]
        exact hmem other (by simp [hother])) hnodup' hrest
      refine ⟨hsorted', htimers'.trans ?_⟩
      rw [htimers, List.map_map]
      refine List.map_congr_left fun timer _ => ?_
      simp only [Function.comp_apply, List.mem_cons]
      by_cases hsame : timer.1.id = address
      · simp [hsame, hnotin]
      · simp [hsame]

theorem Sorted.moveup (htq : Sorted tq) (time : Int) (key : κ) :
    Sorted (tq.moveup time key) ∧
      (tq.moveup time key).timers = tq.timers.map (fun timer =>
        if timer.1.key = key then (timer.1, min timer.2 time) else timer) := by
  obtain ⟨hsorted, htimers⟩ := Sorted.foldl_retime (TimerlistData.moveupNode time) (fun old => min old time)
    (fun _ => True) (fun hsorted hmem _ => hsorted.moveupNode time hmem) (tq.withKey key) htq
    (fun _ => mem_ids_of_withKey) (htq.withKey_nodup key) (fun _ _ _ => trivial)
  refine ⟨hsorted, htimers.trans (List.map_congr_left fun timer htimer => ?_)⟩
  have hiff := htq.linked.mem_withKey_iff (timeOf_of_mem htimer).1 key
  simp only [hiff]

omit [DecidableEq κ] in
theorem foldl_moveupNode_top (time : Int) : ∀ (addresses : List Nat) {tq : TimerlistData κ ν},
    (∀ address ∈ addresses, tq.heapId address = 0) →
    ((addresses.foldl (TimerlistData.moveupNode time) tq).heap 0).node = (tq.heap 0).node := by
  intro addresses
  induction addresses with
  | nil => exact fun _ => rfl
  | cons address rest ih =>
      intro tq hroot
      have hplace := hroot address (by simp)
      have hmoved : TimerlistData.moveupNode time tq address = tq ∨
          TimerlistData.moveupNode time tq address = tq.setTime 0 time := by
        unfold TimerlistData.moveupNode
        dsimp only
        rw [hplace]
        split
        · exact .inl rfl
        · exact .inr rfl
      rw [List.foldl_cons]
      rcases hmoved with heq | heq
      · rw [heq]
        exact ih fun other hother => hroot other (by simp [hother])
      · have hrest : ∀ other ∈ rest, (tq.setTime 0 time).heapId other = 0 :=
          fun other hother => hroot other (by simp [hother])
        rw [heq, ih hrest]
        simp [setTime]

end TimerlistData

end Liteflow

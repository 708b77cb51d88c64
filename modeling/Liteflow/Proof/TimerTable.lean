import Liteflow.Proof.TimerHeap
import Mathlib.Algebra.GroupWithZero.Nat

/-!
# The timer list is a priority multimap

The chains are the nodes in the order of the pushes, split by bucket. A loop over the chain of a
key's bucket then touches exactly the nodes with the key, each once, and what the operations return
is a count over the entries.
-/

namespace Liteflow

namespace TimerTable

open TimerlistData (timers)

variable {κ ν : Type} {tq : TimerTable κ ν}

structure Chained (tq : TimerTable κ ν) : Prop where
  sorted : tq.data.Sorted
  chains : ∀ hv, tq.hash hv =
    (tq.data.nodes.filter (fun n => tq.bucket n.key = hv)).map TimerNode.id

structure Sound (tq : TimerTable κ ν) : Prop extends Chained tq where
  timed : ∀ timer ∈ tq.data.timers, TimerOp.IsTime timer.2

structure SameHash (tq tq' : TimerTable κ ν) : Prop where
  hashFn_eq : tq'.hashFn = tq.hashFn
  bucketSize_eq : tq'.bucketSize = tq.bucketSize

theorem sound_init (bucketSize : Nat) (hashFn : κ → Nat) :
    Sound (timerlistInit bucketSize hashFn : TimerTable κ ν) where
  sorted := ⟨Timerlist.timerlistInit.linked, fun i _ hi => absurd hi (Nat.not_lt_zero i)⟩
  chains := fun _ => rfl
  timed := fun _ hmem => absurd hmem (List.not_mem_nil)

theorem Chained.push (htq : Chained tq) (time : Int) (key : κ) (value : ν) :
    Chained (tq.timerlistPush time key value) ∧
      (tq.timerlistPush time key value).data.timers =
        tq.data.timers ++ [({ id := tq.data.nextId, key := key, value := value }, time)] := by
  obtain ⟨hsorted, htimers⟩ := htq.sorted.push time key value
  refine ⟨⟨hsorted, fun hv => ?_⟩, htimers⟩
  have hnodes := (htq.sorted.linked.push time key value).2
  change Function.update tq.hash (tq.bucket key) (tq.chain key ++ [tq.data.nextId]) hv =
    ((tq.data.push time key value).nodes.filter (fun n => tq.bucket n.key = hv)).map TimerNode.id
  rw [hnodes, List.filter_append, List.map_append]
  by_cases hhv : tq.bucket key = hv
  · subst hhv
    rw [Function.update_self, chain, htq.chains]
    simp
  · rw [Function.update_of_ne (Ne.symm hhv), htq.chains]
    simp [hhv]

theorem Sound.push (htq : Sound tq) {time : Int} (htime : TimerOp.IsTime time) (key : κ)
    (value : ν) :
    Sound (tq.timerlistPush time key value) ∧
      (tq.timerlistPush time key value).data.timers =
        tq.data.timers ++ [({ id := tq.data.nextId, key := key, value := value }, time)] := by
  obtain ⟨hchained, htimers⟩ := htq.toChained.push time key value
  refine ⟨⟨hchained, fun timer hmem => ?_⟩, htimers⟩
  rw [htimers] at hmem
  rcases List.mem_append.mp hmem with hold | hnew
  · exact htq.timed timer hold
  · rw [List.mem_singleton.mp hnew]
    exact htime

theorem Sound.remove (htq : Sound tq) {data : TimerlistData κ ν} {address : Nat}
    (hsorted : data.Sorted)
    (htimers : data.timers = tq.data.timers.filter (fun timer => timer.1.id ≠ address)) :
    Sound ({ tq with data := data }.listDel address) := by
  refine ⟨⟨hsorted, fun hv => ?_⟩, fun timer hmem => ?_⟩
  · have hnodes : data.nodes = tq.data.nodes.filter (fun n => n.id ≠ address) := by
      rw [← data.timers_map_fst, htimers, ← tq.data.timers_map_fst, List.filter_map]
      rfl
    change (tq.hash hv).filter (fun other => other ≠ address) =
      (data.nodes.filter (fun n => tq.bucket n.key = hv)).map TimerNode.id
    rw [hnodes, htq.chains, List.filter_map, List.filter_filter, List.filter_filter]
    congr 1
    apply List.filter_congr
    intro n _
    simp only [Function.comp_apply, Bool.and_comm]
  · rw [listDel, htimers] at hmem
    exact htq.timed timer (List.mem_of_mem_filter hmem)

theorem Chained.retime (htq : Chained tq) {data : TimerlistData κ ν} (hsorted : data.Sorted)
    (hnodes : data.nodes = tq.data.nodes) : Chained { tq with data := data } := by
  refine ⟨hsorted, fun hv => ?_⟩
  change tq.hash hv = (data.nodes.filter (fun n => tq.bucket n.key = hv)).map TimerNode.id
  rw [hnodes]
  exact htq.chains hv

/-! ### The loops over a chain -/

/-- The entries after the times of the selected ones changed; a time changed to nothing removes its
entry. -/
def changed (selected : TimerNode κ ν → Bool) (change : Int → Option Int)
    (timers : List (TimerNode κ ν × Int)) : List (TimerNode κ ν × Int) :=
  timers.filterMap (fun timer =>
    if selected timer.1 then (change timer.2).map (fun time => (timer.1, time)) else some timer)

theorem changed_none (selected : TimerNode κ ν → Bool) (timers : List (TimerNode κ ν × Int)) :
    changed selected (fun _ => none) timers = timers.filter (fun timer => !selected timer.1) := by
  rw [changed, ← List.filterMap_eq_filter]
  congr 1
  funext timer
  cases hsel : selected timer.1 <;> simp [hsel, Option.guard]

theorem changed_some (selected : TimerNode κ ν → Bool) (time : Int → Int)
    (timers : List (TimerNode κ ν × Int)) :
    changed selected (fun old => some (time old)) timers =
      timers.map (fun timer => if selected timer.1 then (timer.1, time timer.2) else timer) := by
  rw [changed, ← List.filterMap_eq_map]
  congr 1
  funext timer
  cases hsel : selected timer.1 <;> simp [hsel]

theorem changed_congr {selected selected' : TimerNode κ ν → Bool} {change : Int → Option Int}
    {timers : List (TimerNode κ ν × Int)}
    (hsame : ∀ n ∈ timers.map Prod.fst, selected n = selected' n) :
    changed selected change timers = changed selected' change timers := by
  apply List.filterMap_congr
  intro timer hmem
  rw [hsame timer.1 (List.mem_map_of_mem hmem)]

theorem changed_changed {selected selected' : TimerNode κ ν → Bool} {change : Int → Option Int}
    (timers : List (TimerNode κ ν × Int)) (hdisjoint : ∀ n, selected n → ¬ selected' n) :
    changed selected' change (changed selected change timers) =
      changed (fun n => selected n || selected' n) change timers := by
  rw [changed, changed, List.filterMap_filterMap, changed]
  congr 1
  funext timer
  cases hsel : selected timer.1 with
  | false => simp
  | true =>
      have hother : selected' timer.1 = false := by simpa using hdisjoint timer.1 hsel
      cases hchange : change timer.2 <;> simp [hother]

theorem mem_changed_of_not {selected : TimerNode κ ν → Bool} {change : Int → Option Int}
    {timers : List (TimerNode κ ν × Int)} {timer : TimerNode κ ν × Int} (hmem : timer ∈ timers)
    (hsel : selected timer.1 = false) : timer ∈ changed selected change timers :=
  List.mem_filterMap.mpr ⟨timer, hmem, by simp [hsel]⟩

structure Touches (touch : TimerTable κ ν → Nat → TimerTable κ ν × Nat)
    (change : Int → Option Int) (count : Int → Nat) : Prop where
  sound : ∀ {tq : TimerTable κ ν} {n : TimerNode κ ν}, Sound tq → n ∈ tq.data.nodes →
    Sound (touch tq n.id).1 ∧ SameHash tq (touch tq n.id).1 ∧
      (touch tq n.id).1.data.timers = changed (fun m => m.id = n.id) change tq.data.timers ∧
      (touch tq n.id).2 = count (tq.data.timeOf n.id)

theorem Sound.mem_timers {n : TimerNode κ ν} (hn : n ∈ tq.data.nodes) :
    (n, tq.data.timeOf n.id) ∈ tq.data.timers :=
  List.mem_map.mpr ⟨n, hn, rfl⟩

theorem touches_del :
    Touches (κ := κ) (ν := ν)
      (fun tq address => ({ tq with data := tq.data.delNode address }.listDel address, 1))
      (fun _ => none) (fun _ => 1) := by
  constructor
  intro tq n htq hn
  obtain ⟨hsorted, htimers⟩ := htq.sorted.delNode (List.mem_map_of_mem hn)
  refine ⟨htq.remove hsorted htimers, ⟨rfl, rfl⟩, htimers.trans ?_, rfl⟩
  rw [changed_none]
  apply List.filter_congr
  intro timer _
  simp

theorem retimed_eq_changed (timers : List (TimerNode κ ν × Int)) (address : Nat) (time : Int) :
    TimerlistData.retimed address time timers =
      changed (fun n => n.id = address) (fun _ => some time) timers := by
  rw [changed_some]
  simp only [TimerlistData.retimed, decide_eq_true_eq]

theorem isTime_changed {timers : List (TimerNode κ ν × Int)} {selected : TimerNode κ ν → Bool}
    {change : Int → Option Int}
    (htimed : ∀ timer ∈ timers, TimerOp.IsTime timer.2)
    (hchange : ∀ old time, TimerOp.IsTime old → change old = some time → TimerOp.IsTime time) :
    ∀ timer ∈ changed selected change timers, TimerOp.IsTime timer.2 := by
  intro timer hmem
  obtain ⟨old, hold, heq⟩ := List.mem_filterMap.mp hmem
  split at heq
  · obtain ⟨time, htime, rfl⟩ := Option.map_eq_some_iff.mp heq
    exact hchange old.2 time (htimed old hold) htime
  · exact Option.some.inj heq ▸ htimed old hold

theorem nodes_of_retimed {data data' : TimerlistData κ ν} {address : Nat} {time : Int}
    (htimers : data'.timers = TimerlistData.retimed address time data.timers) :
    data'.nodes = data.nodes := by
  rw [← data'.timers_map_fst, htimers, ← data.timers_map_fst, TimerlistData.retimed, List.map_map]
  apply List.map_congr_left
  intro timer _
  rw [Function.comp_apply]
  split <;> rfl

theorem Sound.retimed (htq : Sound tq) {data : TimerlistData κ ν} {address : Nat} {time : Int}
    (htime : TimerOp.IsTime time) (hsorted : data.Sorted)
    (htimers : data.timers = TimerlistData.retimed address time tq.data.timers) :
    Sound { tq with data := data } := by
  refine ⟨htq.toChained.retime hsorted (nodes_of_retimed htimers), ?_⟩
  rw [htimers, retimed_eq_changed]
  exact isTime_changed htq.timed (fun _ _ _ heq => Option.some.inj heq ▸ htime)

theorem touches_moveup {time : Int} (htime : TimerOp.IsTime time) :
    Touches (κ := κ) (ν := ν)
      (fun tq address =>
        ({ tq with data := tq.data.moveupNode time address },
          if tq.data.timeOf address ≤ time then 0 else 1))
      (fun old => some (min old time)) (fun old => if old ≤ time then 0 else 1) := by
  constructor
  intro tq n htq hn
  obtain ⟨hsorted, htimers⟩ := htq.sorted.moveupNode time (List.mem_map_of_mem hn)
  have hchanged : (tq.data.moveupNode time n.id).timers =
      changed (fun m => m.id = n.id) (fun old => some (min old time)) tq.data.timers := by
    rw [htimers, changed_some]
    simp only [decide_eq_true_eq]
  refine ⟨⟨htq.toChained.retime hsorted ?_, ?_⟩, ⟨rfl, rfl⟩, hchanged, rfl⟩
  · exact (htq.sorted.linked.moveupNode time (List.mem_map_of_mem hn)).2.nodes_eq
  · rw [hchanged]
    refine isTime_changed htq.timed fun old new hold heq => ?_
    obtain rfl := Option.some.inj heq
    rcases le_total old time with hle | hle
    · rwa [min_eq_left hle]
    · rwa [min_eq_right hle]

theorem asUint64_of_isTime {time : Int} (htime : TimerOp.IsTime time) :
    (TimerlistData.asUint64 time : Int) = time := by
  obtain ⟨hpos, hlt⟩ := htime
  rw [TimerlistData.asUint64, Int.emod_eq_of_lt hpos (by omega), Int.toNat_of_nonneg hpos]

theorem touches_resched {time : Int} (htime : TimerOp.IsTime time) :
    Touches (κ := κ) (ν := ν)
      (fun tq address => ({ tq with data := tq.data.reschedNode time address }, 1))
      (fun _ => some time) (fun _ => 1) := by
  constructor
  intro tq n htq hn
  have hmem := List.mem_map_of_mem (f := TimerNode.id) hn
  have horig : (TimerlistData.asUint64 (tq.data.timeOf n.id) : Int) = tq.data.timeOf n.id :=
    asUint64_of_isTime (htq.timed _ (Sound.mem_timers hn))
  have hnew := asUint64_of_isTime htime
  have hfits : TimerlistData.asUint64 time < TimerlistData.asUint64 (tq.data.timeOf n.id) ↔
      time < tq.data.timeOf n.id := by
    omega
  have hresched := htq.sorted.reschedNode hmem hfits
  refine ⟨htq.retimed htime hresched.1 hresched.2, ⟨rfl, rfl⟩, ?_, rfl⟩
  rw [← retimed_eq_changed]
  exact hresched.2

section Keys

variable [DecidableEq κ]

theorem foldl_turn {touch : TimerTable κ ν → Nat → TimerTable κ ν × Nat}
    {change : Int → Option Int} {count : Int → Nat} (htouch : Touches touch change count)
    (key : κ) : ∀ (ns : List (TimerNode κ ν)) {tq : TimerTable κ ν} (num : Nat), Sound tq →
    (∀ n ∈ ns, n ∈ tq.data.nodes) → (ns.map TimerNode.id).Nodup →
    let result := (ns.map TimerNode.id).foldl (turn touch key) (tq, num)
    Sound result.1 ∧ SameHash tq result.1 ∧
      result.1.data.timers = changed
        (fun m => m.id ∈ (ns.filter (fun n => n.key = key)).map TimerNode.id) change
        tq.data.timers ∧
      result.2 = num +
        ((ns.filter (fun n => n.key = key)).map (fun n => count (tq.data.timeOf n.id))).sum := by
  intro ns
  induction ns with
  | nil =>
      intro tq num htq _ _
      exact ⟨htq, ⟨rfl, rfl⟩, by simp [changed], by simp⟩
  | cons n rest ih =>
      intro tq num htq hmem hnodup
      rw [List.map_cons, List.nodup_cons] at hnodup
      have hn := hmem n (by simp)
      rw [List.map_cons, List.foldl_cons, turn, htq.sorted.linked.hasKey_eq hn]
      by_cases hkey : n.key = key
      · obtain ⟨hsound, hsame, htimers, hcount⟩ := htouch.sound htq hn
        have hkept : ∀ m ∈ rest, m ∈ (touch tq n.id).1.data.nodes ∧
            (touch tq n.id).1.data.timeOf m.id = tq.data.timeOf m.id := by
          intro m hm
          have hne : m.id ≠ n.id := fun heq => hnodup.1 (heq ▸ List.mem_map_of_mem hm)
          refine TimerlistData.timeOf_of_mem
            (show (m, tq.data.timeOf m.id) ∈ (touch tq n.id).1.data.timers from ?_)
          rw [htimers]
          exact mem_changed_of_not (Sound.mem_timers (hmem m (by simp [hm]))) (by simpa using hne)
        obtain ⟨hsound', hsame', htimers', hcount'⟩ :=
          ih (num + (touch tq n.id).2) hsound (fun m hm => (hkept m hm).1) hnodup.2
        simp only [hkey, decide_true, if_true, List.filter_cons_of_pos, List.map_cons]
        refine ⟨hsound', ⟨hsame'.1.trans hsame.1, hsame'.2.trans hsame.2⟩, ?_, ?_⟩
        · rw [htimers', htimers, changed_changed]
          · congr 1
            funext m
            simp only [List.mem_cons, Bool.decide_or]
          · intro m hid hrest
            rw [decide_eq_true_eq] at hid hrest
            rw [hid] at hrest
            exact hnodup.1 ((List.filter_sublist.map _).subset hrest)
        · rw [hcount', hcount, List.sum_cons, Nat.add_assoc]
          congr 3
          apply List.map_congr_left
          intro m hm
          rw [(hkept m (List.mem_of_mem_filter hm)).2]
      · simp only [hkey, decide_false, Bool.false_eq_true, if_false, not_false_eq_true,
          List.filter_cons_of_neg]
        exact ih num htq (fun m hm => hmem m (by simp [hm])) hnodup.2

theorem filter_bucket_key (key : κ) :
    (tq.data.nodes.filter (fun n => tq.bucket n.key = tq.bucket key)).filter
      (fun n => n.key = key) = tq.data.nodes.filter (fun n => n.key = key) := by
  rw [List.filter_filter]
  apply List.filter_congr
  intro n _
  by_cases hkey : n.key = key <;> simp [hkey]

theorem walk_spec {touch : TimerTable κ ν → Nat → TimerTable κ ν × Nat}
    {change : Int → Option Int} {count : Int → Nat} (htouch : Touches touch change count)
    (htq : Sound tq) (key : κ) :
    Sound (tq.walk touch key).1 ∧
      (tq.walk touch key).1.data.timers =
        changed (fun n => n.key = key) change tq.data.timers ∧
      (tq.walk touch key).2 =
        ((tq.data.timers.filter (fun timer => timer.1.key = key)).map
          (fun timer => count timer.2)).sum := by
  have hnodup := htq.sorted.linked.nodup
  obtain ⟨hsound, -, htimers, hcount⟩ := foldl_turn htouch key
    (tq.data.nodes.filter (fun n => tq.bucket n.key = tq.bucket key)) 0 htq
    (fun n hn => List.mem_of_mem_filter hn) (hnodup.sublist (List.filter_sublist.map _))
  rw [← htq.chains, filter_bucket_key] at htimers hcount
  rw [← htq.chains] at hsound
  refine ⟨hsound, htimers.trans (changed_congr ?_), hcount.trans ?_⟩
  · intro n hn
    rw [TimerlistData.timers_map_fst] at hn
    have hiff : n.id ∈ (tq.data.nodes.filter (fun m => m.key = key)).map TimerNode.id ↔
        n.key = key := by
      simp only [List.mem_map, List.mem_filter, decide_eq_true_eq]
      constructor
      · rintro ⟨m, ⟨hm, hkey⟩, hid⟩
        rw [← List.inj_on_of_nodup_map hnodup hm hn hid]
        exact hkey
      · exact fun hkey => ⟨n, ⟨hn, hkey⟩, rfl⟩
    rw [decide_eq_decide]
    exact hiff
  · rw [Nat.zero_add, timers, List.filter_map, List.map_map]
    rfl

theorem sum_map_indicator {α : Type} (p q : α → Bool) (l : List α) :
    ((l.filter p).map (fun a => if q a then 0 else 1)).sum = l.countP (fun a => p a && !q a) := by
  induction l with
  | nil => rfl
  | cons a rest ih =>
      rw [List.countP_cons, ← ih]
      cases hp : p a <;> cases hq : q a <;> simp [hp, hq, Nat.add_comm]

/-- The entries before and after an operation, and what it returns; any entry with the least time may
be the top. -/
def Affects (op : TimerOp κ ν) (before after : List (TimerNode κ ν × Int)) (ret : Nat) : Prop :=
  match op with
  | .push time key value =>
      (∃ id, (∀ timer ∈ before, timer.1.id ≠ id) ∧
        after = before ++ [({ id := id, key := key, value := value }, time)]) ∧ ret = 0
  | .pop =>
      ((before = [] ∧ after = []) ∨
        ∃ top ∈ before, (∀ timer ∈ before, top.2 ≤ timer.2) ∧
          after = before.filter (fun timer => timer.1.id ≠ top.1.id)) ∧ ret = 0
  | .moveup time key =>
      after = before.map (fun timer =>
        if timer.1.key = key then (timer.1, min timer.2 time) else timer) ∧
      ret = before.countP (fun timer => timer.1.key = key ∧ time < timer.2)
  | .resched time key =>
      after = before.map (fun timer => if timer.1.key = key then (timer.1, time) else timer) ∧
      ret = before.countP (fun timer => timer.1.key = key)
  | .reschedTop time =>
      (before = [] ∧ after = [] ∧ ret = 0) ∨
        ∃ top ∈ before, (∀ timer ∈ before, top.2 ≤ timer.2) ∧
          after = before.map (fun timer =>
            if timer.1.id = top.1.id then (timer.1, time) else timer) ∧ ret = 1
  | .del key =>
      after = before.filter (fun timer => timer.1.key ≠ key) ∧
      ret = before.countP (fun timer => timer.1.key = key)
  | .clear => after = [] ∧ ret = 0

omit [DecidableEq κ] in
theorem Sound.top (htq : Sound tq) (hpos : 0 < tq.data.nodeCount) :
    ∃ top ∈ tq.data.timers, top.1.id = (tq.data.heap 0).node ∧ top.2 = tq.data.times 0 ∧
      ∀ timer ∈ tq.data.timers, top.2 ≤ timer.2 := by
  obtain ⟨n, -, hid, hmem⟩ := htq.sorted.linked.mem_timers hpos
  exact ⟨(n, tq.data.times 0), hmem, hid, rfl, fun timer htimer => htq.sorted.top_le htimer⟩

theorem Sound.pop (htq : Sound tq) :
    Sound tq.timerlistPop ∧ Affects .pop tq.data.timers tq.timerlistPop.data.timers 0 := by
  rw [timerlistPop]
  split
  · rename_i hzero
    have hnil := htq.sorted.linked.nodeCount_eq_zero.mp hzero
    exact ⟨htq, Or.inl ⟨hnil, hnil⟩, rfl⟩
  · rename_i hpos
    obtain ⟨top, hmem, hid, -, hleast⟩ := htq.top (Nat.pos_of_ne_zero hpos)
    obtain ⟨hsorted, htimers⟩ := htq.sorted.pop (Nat.pos_of_ne_zero hpos)
    refine ⟨htq.remove hsorted htimers, Or.inr ⟨top, hmem, hleast, ?_⟩, rfl⟩
    rw [hid]
    exact htimers

theorem Sound.reschedTop (htq : Sound tq) {time : Int} (htime : TimerOp.IsTime time) :
    Sound (tq.timerlistReschedTop time).1 ∧
      Affects (.reschedTop time) tq.data.timers (tq.timerlistReschedTop time).1.data.timers
        (tq.timerlistReschedTop time).2 := by
  rw [timerlistReschedTop]
  split
  · rename_i hzero
    have hnil := htq.sorted.linked.nodeCount_eq_zero.mp hzero
    exact ⟨htq, Or.inl ⟨hnil, hnil, rfl⟩⟩
  · rename_i hpos
    have hroot : 0 < tq.data.nodeCount := Nat.pos_of_ne_zero hpos
    obtain ⟨top, hmem, hid, -, hleast⟩ := htq.top hroot
    obtain ⟨hsorted, htimers⟩ := htq.sorted.reschedTop hroot time
    rw [← hid] at htimers
    exact ⟨htq.retimed htime hsorted htimers, Or.inr ⟨top, hmem, hleast, htimers, rfl⟩⟩

omit [DecidableEq κ] in
theorem Sound.clear (htq : Sound tq) :
    Sound tq.timerlistClear ∧ tq.timerlistClear.data.timers = [] := by
  have hlinked := htq.sorted.linked
  have hfreed : ∀ n ∈ tq.data.nodes,
      n.id ∈ (List.range tq.data.nodeCount).map (fun i => (tq.data.heap i).node) := by
    intro n hn
    obtain ⟨hlt, hheap⟩ := hlinked.in_heap n.id (List.mem_map_of_mem hn)
    exact List.mem_map.mpr ⟨tq.data.heapId n.id, List.mem_range.mpr hlt, hheap⟩
  have hnodes : tq.timerlistClear.data.nodes = [] := by
    apply List.filter_eq_nil_iff.mpr
    intro n hn
    simpa using hfreed n hn
  have htimers : tq.timerlistClear.data.timers = [] := by
    rw [timers, hnodes, List.map_nil]
  refine ⟨⟨⟨⟨?_, ?_⟩, fun hv => ?_⟩, ?_⟩, htimers⟩
  · constructor
    · exact fun i hi => absurd hi (Nat.not_lt_zero i)
    · exact fun i hi => absurd hi (Nat.not_lt_zero i)
    · simp [hnodes]
    · simp [hnodes]
    · simp [hnodes]
  · exact fun i _ hi => absurd hi (Nat.not_lt_zero i)
  · rw [hnodes, List.filter_nil, List.map_nil]
    apply List.filter_eq_nil_iff.mpr
    intro address haddress
    rw [htq.chains, List.mem_map] at haddress
    obtain ⟨n, hn, rfl⟩ := haddress
    simpa using hfreed n (List.mem_of_mem_filter hn)
  · rw [htimers]
    exact fun _ hmem => absurd hmem List.not_mem_nil

theorem Sound.apply (htq : Sound tq) (op : TimerOp κ ν) (hop : op.Timed) :
    Sound (op.apply tq).1 ∧
      Affects op tq.data.timers (op.apply tq).1.data.timers (op.apply tq).2 := by
  cases op with
  | push time key value =>
      obtain ⟨hsound, htimers⟩ := htq.push hop key value
      refine ⟨hsound, ⟨tq.data.nextId, fun timer hmem => ?_, htimers⟩, rfl⟩
      obtain ⟨n, hn, rfl⟩ := List.mem_map.mp hmem
      exact Nat.ne_of_lt (htq.sorted.linked.fresh n.id (List.mem_map_of_mem hn))
  | pop => exact htq.pop
  | moveup time key =>
      obtain ⟨hsound, htimers, hcount⟩ := walk_spec (touches_moveup hop) htq key
      refine ⟨hsound, htimers.trans ?_, hcount.trans ?_⟩
      · simp only [changed_some, decide_eq_true_eq]
      · rw [show (fun timer : TimerNode κ ν × Int => if timer.2 ≤ time then 0 else 1) =
          (fun timer => if decide (timer.2 ≤ time) then 0 else 1) by
            funext timer
            simp only [decide_eq_true_eq], sum_map_indicator]
        apply List.countP_congr
        intro timer _
        simp
  | resched time key =>
      obtain ⟨hsound, htimers, hcount⟩ := walk_spec (touches_resched hop) htq key
      refine ⟨hsound, htimers.trans ?_, hcount.trans ?_⟩
      · simp only [changed_some, decide_eq_true_eq]
      · simp [List.map_const', List.countP_eq_length_filter]
  | reschedTop time => exact htq.reschedTop hop
  | del key =>
      obtain ⟨hsound, htimers, hcount⟩ := walk_spec touches_del htq key
      refine ⟨hsound, htimers.trans ?_, hcount.trans ?_⟩
      · rw [changed_none]
        apply List.filter_congr
        intro timer _
        simp
      · simp [List.map_const', List.countP_eq_length_filter]
  | clear => exact ⟨htq.clear.1, htq.clear.2, rfl⟩

theorem Sound.applyAll : ∀ (ops : List (TimerOp κ ν)) {tq : TimerTable κ ν}, Sound tq →
    (∀ op ∈ ops, op.Timed) → Sound (TimerOp.applyAll tq ops) := by
  intro ops
  induction ops with
  | nil => exact fun htq _ => htq
  | cons op rest ih =>
      intro tq htq hops
      exact ih (htq.apply op (hops op (by simp))).1 (fun other hother => hops other (by simp [hother]))

/-! ### Looking a key up -/

theorem Sound.chain_filter (htq : Sound tq) (key : κ) :
    (tq.chain key).filter (tq.data.hasKey key) =
      (tq.data.nodes.filter (fun n => n.key = key)).map TimerNode.id := by
  rw [chain, htq.chains, List.filter_map, ← filter_bucket_key]
  congr 1
  apply List.filter_congr
  intro n hn
  exact htq.sorted.linked.hasKey_eq (List.mem_of_mem_filter hn) key

omit [DecidableEq κ] in
theorem Sound.chain_nodup (htq : Sound tq) (hv : Nat) : (tq.hash hv).Nodup := by
  rw [htq.chains]
  exact htq.sorted.linked.nodup.sublist (List.filter_sublist.map _)

def visited (tq : TimerTable κ ν) : Nat → Option Nat → List Nat
  | 0, _ => []
  | _ + 1, none => []
  | fuel + 1, some address => address :: visited tq fuel (tq.timerlistFindNext address)

theorem Sound.findNext_eq (htq : Sound tq) {key : κ} {before rest : List Nat} {address : Nat}
    (hchain : tq.chain key = before ++ address :: rest) (hkey : tq.data.hasKey key address) :
    tq.timerlistFindNext address = rest.find? (tq.data.hasKey key) := by
  have hnodup := htq.chain_nodup (tq.bucket key)
  rw [← chain, hchain, List.nodup_middle, List.nodup_cons] at hnodup
  obtain ⟨n, hnode, hn⟩ : ∃ n, tq.data.node? address = some n ∧ n.key = key := by
    rw [TimerlistData.hasKey] at hkey
    cases hnode : tq.data.node? address with
    | none => simp [hnode] at hkey
    | some n => exact ⟨n, rfl, by simpa [hnode] using hkey⟩
  have hbefore : ∀ other ∈ before, decide (other ≠ address) = true := by
    intro other hother
    rw [decide_eq_true_eq]
    rintro rfl
    exact hnodup.1 (List.mem_append_left _ hother)
  rw [timerlistFindNext, hnode]
  dsimp only
  rw [hn, hchain, List.dropWhile_append_of_pos hbefore, List.dropWhile_cons_of_neg (by simp),
    List.tail_cons]

theorem Sound.visited_eq (htq : Sound tq) {key : κ} : ∀ (fuel : Nat) {before rest : List Nat},
    tq.chain key = before ++ rest → rest.length ≤ fuel →
    tq.visited (fuel + 1) (rest.find? (tq.data.hasKey key)) =
      rest.filter (tq.data.hasKey key) := by
  intro fuel
  induction fuel with
  | zero =>
      intro before rest _ hfuel
      rw [List.length_eq_zero_iff.mp (Nat.le_zero.mp hfuel)]
      rfl
  | succ fuel ih =>
      intro before rest hchain hfuel
      cases hfind : rest.find? (tq.data.hasKey key) with
      | none =>
          rw [List.find?_eq_none] at hfind
          rw [List.filter_eq_nil_iff.mpr hfind]
          rfl
      | some address =>
          obtain ⟨hkey, skipped, rest', rfl, hskipped⟩ := List.find?_eq_some_iff_append.mp hfind
          rw [← List.append_assoc] at hchain
          have hlength : rest'.length ≤ fuel := by
            simp only [List.length_append, List.length_cons] at hfuel
            omega
          have hnone : skipped.filter (tq.data.hasKey key) = [] :=
            List.filter_eq_nil_iff.mpr (fun other hother => by simpa using hskipped other hother)
          have hchain' : tq.chain key = (before ++ skipped ++ [address]) ++ rest' := by
            rw [hchain, List.append_assoc _ [address], List.singleton_append]
          rw [visited, htq.findNext_eq hchain hkey, ih hchain' hlength, List.filter_append, hnone,
            List.nil_append, List.filter_cons_of_pos hkey]

theorem Sound.enumerates (htq : Sound tq) (key : κ) {fuel : Nat}
    (hfuel : tq.data.nodes.length < fuel) :
    tq.visited fuel (tq.timerlistFindFirst key) =
      (tq.data.nodes.filter (fun n => n.key = key)).map TimerNode.id := by
  obtain ⟨fuel, rfl⟩ : ∃ k, fuel = k + 1 := ⟨fuel - 1, by omega⟩
  rw [timerlistFindFirst, htq.visited_eq fuel (List.nil_append _).symm, htq.chain_filter]
  rw [chain, htq.chains, List.length_map]
  have := List.length_filter_le (fun n => decide (tq.bucket n.key = tq.bucket key)) tq.data.nodes
  omega

theorem Sound.get_eq (htq : Sound tq) (key : κ) :
    tq.timerlistGet key =
      (tq.data.timers.find? (fun timer => timer.1.key = key)).map
        (fun timer => (timer.2, timer.1.value)) := by
  have hfind : (tq.chain key).find? (tq.data.hasKey key) =
      (tq.data.nodes.find? (fun n => n.key = key)).map TimerNode.id := by
    rw [← List.head?_filter, htq.chain_filter, List.head?_map, List.head?_filter]
  rw [timerlistGet, hfind, timers, List.find?_map]
  cases hnode : tq.data.nodes.find? (fun n => n.key = key) with
  | none =>
      simp only [Function.comp_def, hnode]
      rfl
  | some n =>
      simp only [Function.comp_def, hnode, Option.map_some,
        htq.sorted.linked.node?_eq (List.mem_of_find?_eq_some hnode)]

/-- The heap is in order, every node knows its place in it, and the chains hold its nodes, each in
the chain of its key's hash and once. -/
structure Consistent (tq : TimerTable κ ν) : Prop where
  min_heap : ∀ i, 0 < i → i < tq.data.nodeCount →
    (tq.data.heap ((i - 1) / 2)).time ≤ (tq.data.heap i).time
  heap_id : ∀ i < tq.data.nodeCount, tq.data.heapId (tq.data.heap i).node = i
  chained : ∀ address, (∃ hv, address ∈ tq.hash hv) ↔
    ∃ i < tq.data.nodeCount, (tq.data.heap i).node = address
  own_chain : ∀ hv, ∀ address ∈ tq.hash hv,
    ∃ n, tq.data.node? address = some n ∧ tq.hashFn n.key % tq.bucketSize = hv
  once : ∀ hv, (tq.hash hv).Nodup

omit [DecidableEq κ] in
theorem Sound.consistent (htq : Sound tq) : Consistent tq where
  min_heap := htq.sorted.ordered
  heap_id := htq.sorted.linked.index
  chained := by
    intro address
    constructor
    · rintro ⟨hv, hmem⟩
      rw [htq.chains, List.mem_map] at hmem
      obtain ⟨n, hn, rfl⟩ := hmem
      have hid := List.mem_map_of_mem (f := TimerNode.id) (List.mem_of_mem_filter hn)
      exact ⟨tq.data.heapId n.id, htq.sorted.linked.in_heap n.id hid⟩
    · rintro ⟨i, hi, rfl⟩
      obtain ⟨n, hn, hid⟩ := List.mem_map.mp (htq.sorted.linked.mem_nodes i hi)
      refine ⟨tq.bucket n.key, ?_⟩
      rw [htq.chains, ← hid]
      exact List.mem_map_of_mem (List.mem_filter.mpr ⟨hn, by simp⟩)
  own_chain := by
    intro hv address hmem
    rw [htq.chains, List.mem_map] at hmem
    obtain ⟨n, hn, rfl⟩ := hmem
    obtain ⟨hn, hbucket⟩ := List.mem_filter.mp hn
    exact ⟨n, htq.sorted.linked.node?_eq hn, of_decide_eq_true hbucket⟩
  once := htq.chain_nodup

def TopIsLeast (tq : TimerTable κ ν) : Prop :=
  match tq.timerlistTop with
  | none => tq.data.timers = []
  | some (address, time) =>
      ∃ top ∈ tq.data.timers, top.1.id = address ∧ top.2 = time ∧
        ∀ timer ∈ tq.data.timers, time ≤ timer.2

omit [DecidableEq κ] in
theorem Sound.topIsLeast (htq : Sound tq) : TopIsLeast tq := by
  rw [TopIsLeast, timerlistTop]
  split
  · rename_i hnone
    split at hnone
    · rename_i hzero
      exact htq.sorted.linked.nodeCount_eq_zero.mp hzero
    · exact absurd hnone (by simp)
  · rename_i address time hsome
    split at hsome
    · exact absurd hsome (by simp)
    · rename_i hpos
      obtain ⟨rfl, rfl⟩ := Prod.mk.inj (Option.some.inj hsome)
      obtain ⟨top, hmem, hid, htime, hleast⟩ := htq.top (Nat.pos_of_ne_zero hpos)
      exact ⟨top, hmem, hid, htime, fun timer htimer => htime.symm.trans_le (hleast timer htimer)⟩

end Keys

end TimerTable

/-- After any run of operations with non-negative times, whatever the hash function, the timer list
is a priority multimap, and one more operation does to the entries what it is for. -/
theorem timerlist_multimap {κ ν : Type} [DecidableEq κ] (bucketSize : Nat) (hashFn : κ → Nat)
    (ops : List (TimerOp κ ν)) (hops : ∀ op ∈ ops, op.Timed) :
    let tq := TimerOp.applyAll (TimerTable.timerlistInit bucketSize hashFn) ops
    tq.Consistent ∧ tq.TopIsLeast ∧
      (∀ key, tq.timerlistGet key =
        (tq.data.timers.find? (fun timer => timer.1.key = key)).map
          (fun timer => (timer.2, timer.1.value))) ∧
      (∀ key fuel, tq.data.nodes.length < fuel →
        tq.visited fuel (tq.timerlistFindFirst key) =
          (tq.data.nodes.filter (fun n => n.key = key)).map TimerNode.id) ∧
      ∀ op : TimerOp κ ν, op.Timed →
        TimerTable.Affects op tq.data.timers (op.apply tq).1.data.timers (op.apply tq).2 := by
  intro tq
  have hsound : tq.Sound :=
    TimerTable.Sound.applyAll ops (TimerTable.sound_init bucketSize hashFn) hops
  exact ⟨hsound.consistent, hsound.topIsLeast, hsound.get_eq,
    fun key _ hfuel => hsound.enumerates key hfuel, fun op hop => (hsound.apply op hop).2⟩

/-- Keys 1 and 3 share a bucket; moving key 1 passes key 3 by. -/
theorem timerlist_multimap_collision :
    let ops : List (TimerOp Nat Nat) :=
      [.push 5 1 10, .push 7 3 30, .push 9 1 11, .push 2 2 20, .pop, .resched 8 1]
    (∀ op ∈ ops, op.Timed) ∧
      (TimerOp.applyAll (TimerTable.timerlistInit 2 id) ops).Consistent ∧
      (TimerOp.applyAll (TimerTable.timerlistInit 2 id) ops).timerlistTop = some (1, 7) := by
  have hops : ∀ op ∈ ([.push 5 1 10, .push 7 3 30, .push 9 1 11, .push 2 2 20, .pop,
      .resched 8 1] : List (TimerOp Nat Nat)), op.Timed := by
    simp [TimerOp.Timed, TimerOp.IsTime]
  exact ⟨hops, (timerlist_multimap 2 id _ hops).1, by decide⟩

end Liteflow

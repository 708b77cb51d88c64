import Liteflow.Proof.TimerTable

/-!
# Rescheduling and the sign of the times

`timerlist_resched` keeps the old time of an entry as a `uint64_t` and compares the new one with it to
choose the direction of the sift. The conversion puts the negative times above all others, so the choice
is right when the two times have the same sign, and wrong when they do not: an entry that goes from a
negative time to a later one is sifted up, and one that goes to a negative time is sifted down. Either
way it stays where it is.
-/

namespace Liteflow

namespace TimerTable

open TimerlistData (asUint64 reschedNode)

variable {κ ν : Type} {tq : TimerTable κ ν} {old time : Int}

def IsInt64 (time : Int) : Prop :=
  -2 ^ 63 ≤ time ∧ time < 2 ^ 63

structure Valid (tq : TimerTable κ ν) : Prop extends Chained tq where
  int64 : ∀ timer ∈ tq.data.timers, IsInt64 timer.2

theorem asUint64_lt_iff (hold : IsInt64 old) (htime : IsInt64 time) (hsign : old < 0 ↔ time < 0) :
    asUint64 time < asUint64 old ↔ time < old := by
  unfold IsInt64 at hold htime
  unfold asUint64
  omega

theorem asUint64_lt_iff_of_ne (hold : IsInt64 old) (htime : IsInt64 time)
    (hsign : ¬(old < 0 ↔ time < 0)) : asUint64 time < asUint64 old ↔ old < time := by
  unfold IsInt64 at hold htime
  unfold asUint64
  omega

theorem Linked.reschedNode {tq : TimerlistData κ ν} (htq : tq.Linked) (time : Int) {address : Nat}
    (hmem : address ∈ tq.nodes.map TimerNode.id) :
    (tq.reschedNode time address).Linked ∧ (tq.reschedNode time address).nodes = tq.nodes := by
  have hlinked := htq.setTime (tq.heapId address) time
  unfold TimerlistData.reschedNode
  dsimp only
  split
  · obtain ⟨hup, hsame⟩ := TimerlistData.adjustUp_spec (tq.heapId address) hlinked
      (show tq.heapId address < tq.nodeCount from (htq.in_heap address hmem).1)
    exact ⟨hup, hsame.nodes_eq⟩
  · obtain ⟨hdown, hsame⟩ := TimerlistData.adjustDown_spec tq.nodeCount (s := tq.heapId address) hlinked
    exact ⟨hdown, hsame.nodes_eq⟩

section Keys

variable [DecidableEq κ]

structure Rescheduled (tq : TimerTable κ ν) (time : Int) (key : κ) : Prop where
  valid : Valid (tq.timerlistResched time key).1
  timers : (tq.timerlistResched time key).1.data.timers = tq.data.timers.map (fun timer =>
    if timer.1.key = key then (timer.1, time) else timer)

theorem foldl_turn_resched (time : Int) (key : κ) : ∀ (ns : List (TimerNode κ ν))
    (tq : TimerTable κ ν) (num : Nat), tq.data.Linked → (∀ n ∈ ns, n ∈ tq.data.nodes) →
    ((ns.map TimerNode.id).foldl (turn (fun tq address =>
        ({ tq with data := tq.data.reschedNode time address }, 1)) key) (tq, num)).1 =
      { tq with
        data := ((ns.filter (fun n => n.key = key)).map TimerNode.id).foldl
          (TimerlistData.reschedNode time) tq.data } := by
  intro ns
  induction ns with
  | nil => exact fun _ _ _ _ => rfl
  | cons n rest ih =>
      intro tq num htq hmem
      have hn := hmem n (by simp)
      rw [List.map_cons, List.foldl_cons, turn, htq.hasKey_eq hn]
      by_cases hkey : n.key = key
      · obtain ⟨hlinked, hnodes⟩ := Linked.reschedNode htq time (List.mem_map_of_mem hn)
        simp only [hkey, decide_true, if_true, List.filter_cons_of_pos, List.map_cons, List.foldl_cons]
        rw [ih]
        · exact hlinked
        · exact fun m hm => hnodes ▸ hmem m (by simp [hm])
      · simp only [hkey, decide_false, Bool.false_eq_true, if_false, not_false_eq_true,
          List.filter_cons_of_neg]
        exact ih tq num htq fun m hm => hmem m (by simp [hm])

theorem Chained.resched_eq (htq : Chained tq) (time : Int) (key : κ) :
    (tq.timerlistResched time key).1 =
      { tq with data := (tq.data.withKey key).foldl (TimerlistData.reschedNode time) tq.data } := by
  have hfold := foldl_turn_resched time key
    (tq.data.nodes.filter (fun n => tq.bucket n.key = tq.bucket key)) tq 0 htq.sorted.linked
    (fun n hn => List.mem_of_mem_filter hn)
  rw [← htq.chains, filter_bucket_key] at hfold
  exact hfold

theorem Valid.rescheduled (htq : Valid tq) (htime : IsInt64 time) {key : κ}
    (hsign : ∀ timer ∈ tq.data.timers, timer.1.key = key → (timer.2 < 0 ↔ time < 0)) :
    Rescheduled tq time key := by
  obtain ⟨hsorted, htimers⟩ := TimerlistData.Sorted.foldl_retime (TimerlistData.reschedNode time)
    (fun _ => time) (fun old => IsInt64 old ∧ (old < 0 ↔ time < 0))
    (fun hsorted hmem hfits => hsorted.reschedNode hmem (asUint64_lt_iff hfits.1 htime hfits.2))
    (tq.data.withKey key) htq.sorted (fun _ => TimerlistData.mem_ids_of_withKey)
    (htq.sorted.withKey_nodup key)
    (fun timer hmem hin => ⟨htq.int64 timer hmem, hsign timer hmem
      ((htq.sorted.linked.mem_withKey_iff (TimerlistData.timeOf_of_mem hmem).1 key).mp hin)⟩)
  have hresult : ((tq.data.withKey key).foldl (TimerlistData.reschedNode time) tq.data).timers =
      tq.data.timers.map (fun timer => if timer.1.key = key then (timer.1, time) else timer) := by
    refine htimers.trans (List.map_congr_left fun timer hmem => ?_)
    simp only [htq.sorted.linked.mem_withKey_iff (TimerlistData.timeOf_of_mem hmem).1 key]
  have hnodes : ((tq.data.withKey key).foldl (TimerlistData.reschedNode time) tq.data).nodes =
      tq.data.nodes := by
    rw [← TimerlistData.timers_map_fst, hresult, ← TimerlistData.timers_map_fst, List.map_map]
    refine List.map_congr_left fun timer _ => ?_
    rw [Function.comp_apply]
    split <;> rfl
  refine ⟨?_, ?_⟩
  · rw [htq.resched_eq]
    refine ⟨htq.toChained.retime hsorted hnodes, fun timer hmem => ?_⟩
    rw [hresult] at hmem
    obtain ⟨before, hbefore, rfl⟩ := List.mem_map.mp hmem
    split
    · exact htime
    · exact htq.int64 before hbefore
  · rw [htq.resched_eq]
    exact hresult

/-! ### Times of different signs -/

def pair (time : Int) (first second : κ) (value : ν) : TimerTable κ ν :=
  ((timerlistInit 1 (fun _ => 0)).timerlistPush time first value).timerlistPush time second value

omit [DecidableEq κ] in
theorem pair_data (time : Int) (first second : κ) (value : ν) :
    (pair time first second value).data =
      { nodeCount := 2
        heap := Function.update (Function.update
          (timerlistInit 1 (fun _ => 0) : TimerTable κ ν).data.heap 0 { time := time, node := 0 }) 1
          { time := time, node := 1 }
        heapId := Function.update (Function.update
          (timerlistInit 1 (fun _ => 0) : TimerTable κ ν).data.heapId 0 0) 1 1
        nodes := [{ id := 0, key := first, value := value },
          { id := 1, key := second, value := value }]
        nextId := 2 } := by
  simp [pair, timerlistPush, TimerlistData.push, TimerlistData.adjustUp, timerlistInit,
    Timerlist.timerlistInit]

omit [DecidableEq κ] in
theorem valid_pair (hold : IsInt64 old) (first second : κ) (value : ν) :
    Valid (pair old first second value) ∧
      ∀ timer ∈ (pair old first second value).data.timers, timer.2 = old := by
  have hinit := (sound_init 1 (fun _ => 0) : Sound (timerlistInit 1 (fun _ => 0) : TimerTable κ ν))
  obtain ⟨hone, htimers⟩ := hinit.toChained.push old first value
  obtain ⟨htwo, htimers'⟩ := hone.push old second value
  have htimes : ∀ timer ∈ (pair old first second value).data.timers, timer.2 = old := by
    intro timer hmem
    rw [pair, htimers', htimers] at hmem
    have hempty : (timerlistInit 1 (fun _ => 0) : TimerTable κ ν).data.timers = [] := rfl
    rw [hempty] at hmem
    simp only [List.nil_append, List.cons_append, List.mem_cons, List.not_mem_nil, or_false] at hmem
    rcases hmem with rfl | rfl <;> rfl
  exact ⟨⟨htwo, fun timer hmem => htimes timer hmem ▸ hold⟩, htimes⟩

theorem not_rescheduled_raised (hold : IsInt64 old) (htime : IsInt64 time) (hneg : old < 0)
    (hpos : 0 ≤ time) {key other : κ} (hne : other ≠ key) (value : ν) :
    ¬Rescheduled (pair old key other value) time key := by
  intro hrescheduled
  have horder := hrescheduled.valid.sorted.ordered 1 (by decide)
  have hup : asUint64 time < asUint64 old :=
    (asUint64_lt_iff_of_ne hold htime (by omega)).mpr (by omega)
  rw [(valid_pair hold key other value).1.resched_eq] at horder
  simp [pair_data, TimerlistData.withKey, hne, TimerlistData.reschedNode, hup, TimerlistData.adjustUp,
    TimerlistData.setTime, TimerlistData.times, BinaryHeap.parent] at horder
  omega

theorem not_rescheduled_lowered (hold : IsInt64 old) (htime : IsInt64 time) (hpos : 0 ≤ old)
    (hneg : time < 0) {key other : κ} (hne : other ≠ key) (value : ν) :
    ¬Rescheduled (pair old other key value) time key := by
  intro hrescheduled
  have horder := hrescheduled.valid.sorted.ordered 1 (by decide)
  have hdown : ¬asUint64 time < asUint64 old :=
    mt (asUint64_lt_iff_of_ne hold htime (by omega)).mp (by omega)
  rw [(valid_pair hold other key value).1.resched_eq] at horder
  simp [pair_data, TimerlistData.withKey, hne, TimerlistData.reschedNode, hdown, TimerlistData.adjustDown,
    TimerlistData.setTime, TimerlistData.times, BinaryHeap.parent] at horder
  omega

end Keys

end TimerTable

open TimerTable in
/-- **Rescheduling and signs.** `timerlist_resched` is right on a valid list when no entry with the
key changes its sign, and for a pair of times that is the exact condition. -/
theorem timerlistResched_signed {κ ν : Type} [DecidableEq κ] [Nontrivial κ] [Nonempty ν] (time : Int)
    (htime : IsInt64 time) :
    (∀ (tq : TimerTable κ ν) (key : κ), Valid tq →
      (∀ timer ∈ tq.data.timers, timer.1.key = key → (timer.2 < 0 ↔ time < 0)) →
      Rescheduled tq time key) ∧
    ∀ old, IsInt64 old →
      ((∀ (tq : TimerTable κ ν) (key : κ), Valid tq →
        (∀ timer ∈ tq.data.timers, timer.1.key = key → timer.2 = old) →
        Rescheduled tq time key) ↔ (old < 0 ↔ time < 0)) := by
  refine ⟨fun tq key htq hsign => htq.rescheduled htime hsign, fun old hold => ⟨fun hright => ?_,
    fun hsign tq key htq hold =>
      htq.rescheduled htime fun timer hmem hkey => hold timer hmem hkey ▸ hsign⟩⟩
  obtain ⟨key, other, hne⟩ := exists_pair_ne κ
  obtain ⟨value⟩ := (inferInstance : Nonempty ν)
  by_contra hsign
  rcases lt_or_ge old 0 with hneg | hpos
  · obtain ⟨hvalid, htimes⟩ := valid_pair hold key other value
    exact not_rescheduled_raised hold htime hneg (by omega) hne.symm value
      (hright _ key hvalid fun timer hmem _ => htimes timer hmem)
  · obtain ⟨hvalid, htimes⟩ := valid_pair hold other key value
    exact not_rescheduled_lowered hold htime hpos (by omega) hne.symm value
      (hright _ key hvalid fun timer hmem _ => htimes timer hmem)

open TimerTable in
theorem timerlistResched_signed_pair :
    Rescheduled (pair 3 true false ()) 5 true ∧
      ¬∀ (tq : TimerTable Bool Unit) (key : Bool), Valid tq →
        (∀ timer ∈ tq.data.timers, timer.1.key = key → timer.2 = -1) → Rescheduled tq 5 key := by
  obtain ⟨hvalid, htimes⟩ := valid_pair (show IsInt64 3 by unfold IsInt64; decide) true false ()
  have hsigned := timerlistResched_signed (κ := Bool) (ν := Unit) 5 (by unfold IsInt64; decide)
  refine ⟨hsigned.1 _ true hvalid fun timer hmem _ => ?_, fun hright => ?_⟩
  · rw [htimes timer hmem]
    decide
  · exact absurd ((hsigned.2 (-1) (by unfold IsInt64; decide)).mp hright) (by decide)

open TimerTable in
/-- A key at the top is moved from `-1` to `5`. It stays at the top, above an entry whose time is `-1`. -/
theorem timerlistResched_signed_raised :
    Valid (pair (-1) true false ()) ∧ ¬Rescheduled (pair (-1) true false ()) 5 true ∧
      ((pair (-1) true false ()).timerlistResched 5 true).1.data.times 0 = 5 ∧
      ((pair (-1) true false ()).timerlistResched 5 true).1.data.times 1 = -1 := by
  have hold : IsInt64 (-1) := by unfold IsInt64; decide
  exact ⟨(valid_pair hold true false ()).1,
    not_rescheduled_raised hold (by unfold IsInt64; decide) (by decide) (by decide) (by decide) (),
    by decide, by decide⟩

end Liteflow

import Liteflow.WindowedFilter

/-!
# The windowed filter keeps three recorded samples in order

An update first puts the new sample in the place of the worse ones it beats, and then drops what has
left the window. Placing makes the new sample no better than the third slot, so it may be shifted in
behind it; and the test at the beginning keeps the third slot inside the window, so two shifts are
always enough.

The times of the samples are taken without their wrap: `TimedSample` counts on, and the filter sees the
32 low bits. Differences agree as long as the samples span less than `2 ^ 32`.
-/

namespace Liteflow

structure TimedSample where
  t : Nat
  v : U32
deriving DecidableEq, Repr

def TimedSample.sample (r : TimedSample) : FilterSample where
  t := BitVec.ofNat 32 r.t
  v := r.v

/-- The times do not go back, and the first and the last are less than `2 ^ 32` apart. -/
def Chronological (samples : List TimedSample) : Prop :=
  samples.Pairwise (fun earlier later => earlier.t ≤ later.t ∧ later.t < earlier.t + 2 ^ 32)

/-- `better` is the comparison of a filter: a total preorder. -/
structure Ranks (better : U32 → U32 → Bool) : Prop where
  refl : ∀ a, better a a
  trans : ∀ {a b c}, better a b → better b c → better a c
  total : ∀ {a b}, ¬better a b → better b a

theorem ranks_max : Ranks (fun a b => a ≥ b) where
  refl a := by simp
  trans hab hbc := by
    rw [decide_eq_true_eq] at hab hbc ⊢
    exact BitVec.le_trans hbc hab
  total hab := by
    rw [decide_eq_true_eq] at hab ⊢
    exact BitVec.le_of_lt (BitVec.not_le.mp hab)

theorem ranks_min : Ranks (fun a b => a ≤ b) where
  refl a := by simp
  trans hab hbc := by
    rw [decide_eq_true_eq] at hab hbc ⊢
    exact BitVec.le_trans hab hbc
  total hab := by
    rw [decide_eq_true_eq] at hab ⊢
    exact BitVec.le_of_lt (BitVec.not_le.mp hab)

namespace WindowedFilter

variable {better : U32 → U32 → Bool} {f : WindowedFilter} {r r0 r1 r2 : TimedSample} {now : Nat}

/-- The slots hold `r0`, `r1` and `r2`, from the best to the worst and from the oldest to the newest.
-/
structure Slots (better : U32 → U32 → Bool) (f : WindowedFilter) (r0 r1 r2 : TimedSample) (now : Nat) :
    Prop where
  s0 : f.s0 = r0.sample
  s1 : f.s1 = r1.sample
  s2 : f.s2 = r2.sample
  first : better r0.v r1.v
  second : better r1.v r2.v
  before_second : r0.t ≤ r1.t
  before_third : r1.t ≤ r2.t
  before_now : r2.t ≤ now

theorem age_eq {older newer : Nat} (hle : older ≤ newer) (hspan : newer < older + 2 ^ 32) :
    (BitVec.ofNat 32 newer - BitVec.ofNat 32 older).toNat = newer - older := by
  rw [BitVec.toNat_sub, BitVec.toNat_ofNat, BitVec.toNat_ofNat]
  omega

structure Updated (better : U32 → U32 → Bool) (f : WindowedFilter) (r0 r1 r2 r : TimedSample) : Prop
    extends Slots better f r0 r1 r2 r.t where
  recent : r.t - r0.t ≤ f.win.toNat
  newest : better r0.v r.v

theorem updated_reset (hranks : Ranks better) (f : WindowedFilter) (r : TimedSample) :
    Updated better (f.filterReset r.sample.t r.v) r r r r where
  s0 := rfl
  s1 := rfl
  s2 := rfl
  first := hranks.refl _
  second := hranks.refl _
  before_second := Nat.le_refl _
  before_third := Nat.le_refl _
  before_now := Nat.le_refl _
  recent := by omega
  newest := hranks.refl _

theorem updated_filterUpdate (hranks : Ranks better) (hslots : Slots better f r0 r1 r2 r.t)
    (hspan : r.t < r0.t + 2 ^ 32) (hworse : better r2.v r.v) (hrecent : r.t - r2.t ≤ f.win.toNat) :
    ∃ q0 ∈ [r0, r1, r2, r], ∃ q1 ∈ [r0, r1, r2, r], ∃ q2 ∈ [r0, r1, r2, r],
      Updated better (f.filterUpdate r.sample) q0 q1 q2 r := by
  obtain ⟨hs0, hs1, hs2, hfirst, hsecond, htime1, htime2, hnow⟩ := hslots
  have hage0 : (r.sample.t - f.s0.t).toNat = r.t - r0.t := by
    rw [hs0]
    exact age_eq (by omega) hspan
  have hage1 : (r.sample.t - f.s1.t).toNat = r.t - r1.t := by
    rw [hs1]
    exact age_eq (by omega) (by omega)
  have hbest1 : better r1.v r.v := hranks.trans hsecond hworse
  have hbest0 : better r0.v r.v := hranks.trans hfirst hbest1
  unfold filterUpdate
  dsimp only
  split
  · split
    · exact ⟨r2, by simp, r, by simp, r, by simp,
        ⟨⟨hs2, rfl, rfl, hworse, hranks.refl _, hnow, Nat.le_refl _, Nat.le_refl _⟩, hrecent, hworse⟩⟩
    · rename_i hstays
      rw [BitVec.lt_def, hage1] at hstays
      exact ⟨r1, by simp, r2, by simp, r, by simp,
        ⟨⟨hs1, hs2, rfl, hsecond, hworse, htime2, hnow, Nat.le_refl _⟩, Nat.not_lt.mp hstays, hbest1⟩⟩
  · rename_i hstays
    rw [BitVec.lt_def, hage0] at hstays
    have hstays := Nat.not_lt.mp hstays
    split
    · exact ⟨r0, by simp, r, by simp, r, by simp,
        ⟨⟨hs0, rfl, rfl, hbest0, hranks.refl _, by omega, Nat.le_refl _, Nat.le_refl _⟩, hstays, hbest0⟩⟩
    · split
      · exact ⟨r0, by simp, r1, by simp, r, by simp,
          ⟨⟨hs0, hs1, rfl, hfirst, hbest1, htime1, by omega, Nat.le_refl _⟩, hstays, hbest0⟩⟩
      · exact ⟨r0, by simp, r1, by simp, r2, by simp,
          ⟨⟨hs0, hs1, hs2, hfirst, hsecond, htime1, htime2, hnow⟩, hstays, hbest0⟩⟩

theorem updated_filterUpdateWith (hranks : Ranks better) (hslots : Slots better f r0 r1 r2 now)
    (hnow : now ≤ r.t) (hspan : r.t < r0.t + 2 ^ 32) :
    ∃ q0 ∈ [r0, r1, r2, r], ∃ q1 ∈ [r0, r1, r2, r], ∃ q2 ∈ [r0, r1, r2, r],
      Updated better (f.filterUpdateWith better r.sample.t r.v) q0 q1 q2 r := by
  obtain ⟨hs0, hs1, hs2, hfirst, hsecond, htime1, htime2, hlast⟩ := hslots
  have hage2 : (r.sample.t - f.s2.t).toNat = r.t - r2.t := by
    rw [hs2]
    exact age_eq (by omega) (by omega)
  have hself : r.t - r.t ≤ f.win.toNat := by omega
  unfold filterUpdateWith
  dsimp only
  split
  · exact ⟨r, by simp, r, by simp, r, by simp, updated_reset hranks f r⟩
  · rename_i hkept
    obtain ⟨hbeaten, hstays⟩ := not_or.mp hkept
    rw [hs0] at hbeaten
    rw [BitVec.lt_def, hage2] at hstays
    have hbest : better r0.v r.v := hranks.total hbeaten
    split
    · -- the new sample takes the second and the third slot
      have hplaced : Slots better { f with s1 := r.sample, s2 := r.sample } r0 r r r.t :=
        ⟨hs0, rfl, rfl, hbest, hranks.refl _, by omega, Nat.le_refl _, Nat.le_refl _⟩
      obtain ⟨q0, h0, q1, h1, q2, h2, hupdated⟩ :=
        updated_filterUpdate hranks hplaced hspan (hranks.refl _) hself
      have hsub : [r0, r, r, r] ⊆ [r0, r1, r2, r] := by simp
      exact ⟨q0, hsub h0, q1, hsub h1, q2, hsub h2, hupdated⟩
    · rename_i hsecond'
      rw [hs1] at hsecond'
      split
      · have hplaced : Slots better { f with s2 := r.sample } r0 r1 r r.t :=
          ⟨hs0, hs1, rfl, hfirst, hranks.total hsecond', htime1, by omega, Nat.le_refl _⟩
        obtain ⟨q0, h0, q1, h1, q2, h2, hupdated⟩ :=
          updated_filterUpdate hranks hplaced hspan (hranks.refl _) hself
        have hsub : [r0, r1, r, r] ⊆ [r0, r1, r2, r] := by simp
        exact ⟨q0, hsub h0, q1, hsub h1, q2, hsub h2, hupdated⟩
      · rename_i hthird
        rw [hs2] at hthird
        exact updated_filterUpdate hranks
          ⟨hs0, hs1, hs2, hfirst, hsecond, htime1, htime2, hlast.trans hnow⟩ hspan
          (hranks.total hthird) (Nat.not_lt.mp hstays)

theorem filterUpdate_win (f : WindowedFilter) (val : FilterSample) : (f.filterUpdate val).win = f.win := by
  unfold filterUpdate
  dsimp only
  split_ifs <;> rfl

theorem filterUpdateWith_win (better : U32 → U32 → Bool) (f : WindowedFilter) (t meas : U32) :
    (f.filterUpdateWith better t meas).win = f.win := by
  unfold filterUpdateWith
  dsimp only
  split
  · rfl
  · rw [filterUpdate_win]
    split_ifs <;> rfl

/-! ### Runs of updates -/

def recordAll (update : WindowedFilter → U32 → U32 → WindowedFilter) (f : WindowedFilter)
    (samples : List TimedSample) : WindowedFilter :=
  samples.foldl (fun f r => update f r.sample.t r.v) f

/-- What the filter promises after the update with `newest`, the last of the samples `recorded`. -/
structure Windowed (better : U32 → U32 → Bool) (win : U32) (f : WindowedFilter)
    (recorded : List TimedSample) (newest : TimedSample) : Prop where
  slots : ∃ r0 ∈ recorded, ∃ r1 ∈ recorded, ∃ r2 ∈ recorded,
    f.s0 = r0.sample ∧ f.s1 = r1.sample ∧ f.s2 = r2.sample ∧
    better r0.v r1.v ∧ better r1.v r2.v ∧
    r0.t ≤ r1.t ∧ r1.t ≤ r2.t ∧ r2.t ≤ newest.t ∧ newest.t - r0.t ≤ win.toNat
  no_worse : better f.filterGet newest.v
  no_better : ∀ bound, (∀ r ∈ recorded, newest.t - r.t ≤ win.toNat → better bound r.v) →
    better bound f.filterGet

def Tracks (better : U32 → U32 → Bool) (win : U32) (f : WindowedFilter) (recorded : List TimedSample)
    (newest : TimedSample) : Prop :=
  f.win = win ∧ newest ∈ recorded ∧
    ∃ r0 ∈ recorded, ∃ r1 ∈ recorded, ∃ r2 ∈ recorded, Updated better f r0 r1 r2 newest

variable {win : U32} {recorded samples : List TimedSample} {newest : TimedSample}

theorem Tracks.windowed (htracks : Tracks better win f recorded newest) :
    Windowed better win f recorded newest := by
  obtain ⟨rfl, -, r0, h0, r1, h1, r2, h2, hupdated⟩ := htracks
  have hget : f.filterGet = r0.v := by rw [filterGet, hupdated.s0, TimedSample.sample]
  refine ⟨⟨r0, h0, r1, h1, r2, h2, hupdated.s0, hupdated.s1, hupdated.s2, hupdated.first,
    hupdated.second, hupdated.before_second, hupdated.before_third, hupdated.before_now,
    hupdated.recent⟩, ?_, fun bound hbound => ?_⟩
  · rw [hget]
    exact hupdated.newest
  · rw [hget]
    exact hbound r0 h0 hupdated.recent

theorem tracks_reset (hranks : Ranks better) (f : WindowedFilter) (r : TimedSample) :
    Tracks better f.win (f.filterReset r.sample.t r.v) [r] r :=
  ⟨rfl, by simp, r, by simp, r, by simp, r, by simp, updated_reset hranks f r⟩

theorem Tracks.update (hranks : Ranks better) (htracks : Tracks better win f recorded newest)
    (hchronological : Chronological (recorded ++ [r])) :
    Tracks better win (f.filterUpdateWith better r.sample.t r.v) (recorded ++ [r]) r := by
  obtain ⟨hwin, hnewest, r0, h0, r1, h1, r2, h2, hupdated⟩ := htracks
  have hlater : ∀ older ∈ recorded, older.t ≤ r.t ∧ r.t < older.t + 2 ^ 32 := fun older hmem =>
    (List.pairwise_append.mp hchronological).2.2 older hmem r (by simp)
  obtain ⟨q0, hq0, q1, hq1, q2, hq2, hresult⟩ := updated_filterUpdateWith hranks hupdated.toSlots
    (hlater newest hnewest).1 (hlater r0 h0).2
  have hsub : [r0, r1, r2, r] ⊆ recorded ++ [r] := by simp [h0, h1, h2]
  exact ⟨(filterUpdateWith_win better f _ _).trans hwin, by simp, q0, hsub hq0, q1, hsub hq1, q2, hsub hq2,
    hresult⟩

theorem Tracks.recordAll (hranks : Ranks better) : ∀ (samples : List TimedSample) {f : WindowedFilter}
    {recorded : List TimedSample} {newest : TimedSample}, Tracks better win f recorded newest →
    Chronological (recorded ++ samples ++ [r]) →
    Tracks better win (WindowedFilter.recordAll (filterUpdateWith better) f (samples ++ [r]))
      (recorded ++ samples ++ [r]) r := by
  intro samples
  induction samples with
  | nil =>
      intro f recorded newest htracks hchronological
      rw [List.append_nil] at hchronological ⊢
      exact htracks.update hranks hchronological
  | cons first rest ih =>
      intro f recorded newest htracks hchronological
      have hsplit : recorded ++ first :: rest ++ [r] = (recorded ++ [first]) ++ rest ++ [r] := by simp
      rw [hsplit] at hchronological ⊢
      have hbefore : Chronological (recorded ++ [first]) :=
        hchronological.sublist (by rw [List.append_assoc]; exact List.sublist_append_left _ _)
      exact ih (htracks.update hranks hbefore) hchronological

theorem filterUpdateMax_init (win : U32) (t meas : U32) :
    (filterInit win).filterUpdateMax t meas = (filterInit win).filterReset t meas := by
  have hzero : decide (meas ≥ (filterInit win).s0.v) = true :=
    decide_eq_true (BitVec.le_def.mpr (Nat.zero_le _))
  unfold filterUpdateMax filterUpdateWith
  exact if_pos (.inl hzero)

end WindowedFilter

open WindowedFilter in
/-- **The windowed filters.** After every update the slots are recorded samples in order, the first
is in the window, and its value is no worse than the newest sample and no better than the best one in
the window. The minimum filter starts from `filter_reset`. -/
theorem filterUpdate_windowed :
    (∀ (win : U32) (samples : List TimedSample) (newest : TimedSample), Chronological (samples ++ [newest]) →
      Windowed (fun a b => a ≥ b) win (recordAll filterUpdateMax (filterInit win) (samples ++ [newest]))
        (samples ++ [newest]) newest) ∧
    (∀ (f : WindowedFilter) (start : TimedSample) (samples : List TimedSample) (newest : TimedSample),
      Chronological (start :: samples ++ [newest]) →
      Windowed (fun a b => a ≥ b) f.win
        (recordAll filterUpdateMax (f.filterReset start.sample.t start.v) (samples ++ [newest]))
        (start :: samples ++ [newest]) newest) ∧
    (∀ (f : WindowedFilter) (start : TimedSample) (samples : List TimedSample) (newest : TimedSample),
      Chronological (start :: samples ++ [newest]) →
      Windowed (fun a b => a ≤ b) f.win
        (recordAll filterUpdateMin (f.filterReset start.sample.t start.v) (samples ++ [newest]))
        (start :: samples ++ [newest]) newest) := by
  refine ⟨fun win samples newest hchronological => ?_,
    fun f start samples newest hchronological =>
      ((tracks_reset ranks_max f start).recordAll ranks_max samples hchronological).windowed,
    fun f start samples newest hchronological =>
      ((tracks_reset ranks_min f start).recordAll ranks_min samples hchronological).windowed⟩
  cases samples with
  | nil =>
      have hreset := tracks_reset ranks_max (filterInit win) newest
      rw [← filterUpdateMax_init] at hreset
      exact hreset.windowed
  | cons first rest =>
      have hreset := tracks_reset ranks_max (filterInit win) first
      rw [← filterUpdateMax_init] at hreset
      exact (hreset.recordAll ranks_max rest hchronological).windowed

open WindowedFilter in
/-- The clock wraps between the first two samples, and the best one has left the window at the end. -/
theorem filterUpdate_windowed_wrap :
    let start : TimedSample := { t := 2 ^ 32 - 2, v := 9 }
    let samples : List TimedSample := [{ t := 2 ^ 32 + 1, v := 5 }, { t := 2 ^ 32 + 6, v := 3 }]
    let newest : TimedSample := { t := 2 ^ 32 + 9, v := 4 }
    recordAll filterUpdateMax ((filterInit 10).filterReset start.sample.t start.v)
        (samples ++ [newest]) =
      { s0 := { t := 1, v := 5 }, s1 := { t := 9, v := 4 }, s2 := { t := 9, v := 4 }, win := 10 } ∧
    Windowed (fun a b => a ≥ b) 10
      (recordAll filterUpdateMax ((filterInit 10).filterReset start.sample.t start.v)
        (samples ++ [newest])) (start :: samples ++ [newest]) newest := by
  intro start samples newest
  exact ⟨by decide, filterUpdate_windowed.2.1 (filterInit 10) start samples newest
    (by simp [Chronological, start, samples, newest])⟩

end Liteflow

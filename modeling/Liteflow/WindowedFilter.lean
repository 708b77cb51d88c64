import Liteflow.Rbuffer

/-!
# The windowed maximum and minimum filter

`common/windowed_filter.c`: the best, second best and third best sample of the last `win` units of
time.
-/

namespace Liteflow

structure FilterSample where
  t : U32
  v : U32
deriving DecidableEq, Repr

structure WindowedFilter where
  s0 : FilterSample
  s1 : FilterSample
  s2 : FilterSample
  win : U32
deriving DecidableEq, Repr

namespace WindowedFilter

def filterInit (win : U32) : WindowedFilter :=
  let zero : FilterSample := { t := 0, v := 0 }
  { s0 := zero, s1 := zero, s2 := zero, win := win }

def filterGet (f : WindowedFilter) : U32 :=
  f.s0.v

def filterReset (f : WindowedFilter) (t meas : U32) : WindowedFilter :=
  let val : FilterSample := { t := t, v := meas }
  { f with s0 := val, s1 := val, s2 := val }

/-- Drops the samples that have left the window. -/
def filterUpdate (f : WindowedFilter) (val : FilterSample) : WindowedFilter :=
  let dt := val.t - f.s0.t
  if f.win < dt then
    let shifted := { f with s0 := f.s1, s1 := f.s2, s2 := val }
    if f.win < val.t - shifted.s0.t then
      { shifted with s0 := shifted.s1, s1 := shifted.s2, s2 := val }
    else
      shifted
  else if f.s1.t = f.s0.t ∧ f.win >>> 2 < dt then
    { f with s1 := val, s2 := val }
  else if f.s2.t = f.s1.t ∧ f.win >>> 1 < dt then
    { f with s2 := val }
  else
    f

/-- `filter_update_max` and `filter_update_min`: `better a b` is the comparison of the two. -/
def filterUpdateWith (better : U32 → U32 → Bool) (f : WindowedFilter) (t meas : U32) :
    WindowedFilter :=
  let val : FilterSample := { t := t, v := meas }
  if better meas f.s0.v ∨ f.win < t - f.s2.t then
    f.filterReset t meas
  else
    let placed :=
      if better meas f.s1.v then { f with s1 := val, s2 := val }
      else if better meas f.s2.v then { f with s2 := val }
      else f
    placed.filterUpdate val

def filterUpdateMax (f : WindowedFilter) (t meas : U32) : WindowedFilter :=
  f.filterUpdateWith (fun a b => a ≥ b) t meas

def filterUpdateMin (f : WindowedFilter) (t meas : U32) : WindowedFilter :=
  f.filterUpdateWith (fun a b => a ≤ b) t meas

end WindowedFilter

end Liteflow

import Mathlib.Data.List.Basic

/-!
# The hash queue

`common/hashqueue.c` as its users see it: the list of the entries in queue order. `queue_append` is
modelled with memory for the node; `fec_insert`, which goes on without it, has that case itself.
-/

namespace Liteflow

abbrev HashQueue (κ ν : Type) := List (κ × ν)

namespace HashQueue

variable {κ ν : Type} [DecidableEq κ]

def queueAppend (hq : HashQueue κ ν) (key : κ) (value : ν) : HashQueue κ ν :=
  hq ++ [(key, value)]

def queueDel (hq : HashQueue κ ν) (key : κ) : HashQueue κ ν :=
  hq.filter (fun entry => entry.1 ≠ key)

def queueGet (hq : HashQueue κ ν) (key : κ) : Option ν :=
  (hq.find? (fun entry => entry.1 = key)).map Prod.snd

/-- A write through the pointer that `queue_get` returns. -/
def queueModify (hq : HashQueue κ ν) (key : κ) (update : ν → ν) : HashQueue κ ν :=
  match hq with
  | [] => []
  | entry :: rest =>
      if entry.1 = key then (entry.1, update entry.2) :: rest
      else entry :: queueModify rest key update

/-- `queue_first`; a pointer to a node is its key. -/
def queueFirst (hq : HashQueue κ ν) : Option κ :=
  hq.head?.map Prod.fst

def queueNext (hq : HashQueue κ ν) (key : κ) : Option κ :=
  ((hq.dropWhile (fun entry => entry.1 ≠ key)).drop 1).head?.map Prod.fst

def queueMoveBack (hq : HashQueue κ ν) (key : κ) : HashQueue κ ν :=
  hq.filter (fun entry => entry.1 ≠ key) ++ hq.filter (fun entry => entry.1 = key)

variable {hq : HashQueue κ ν} {key : κ}

theorem queueGet_cons (entry : κ × ν) (hq : HashQueue κ ν) (key : κ) :
    queueGet (entry :: hq) key = if entry.1 = key then some entry.2 else queueGet hq key := by
  unfold queueGet
  by_cases h : entry.1 = key
  · rw [List.find?_cons_of_pos (by simpa using h), if_pos h, Option.map_some]
  · rw [List.find?_cons_of_neg (by simpa using h), if_neg h]

theorem queueGet_eq_none_iff : queueGet hq key = none ↔ ∀ entry ∈ hq, entry.1 ≠ key := by
  simp [queueGet]

theorem queueGet_append (front back : HashQueue κ ν) (key : κ) :
    queueGet (front ++ back) key = (queueGet front key).or (queueGet back key) := by
  induction front with
  | nil => simp [queueGet]
  | cons entry front ih =>
      rw [List.cons_append, queueGet_cons, queueGet_cons, ih]
      split <;> simp

theorem queueGet_queueModify (hq : HashQueue κ ν) (key other : κ) (update : ν → ν) :
    queueGet (hq.queueModify key update) other =
      if other = key then (queueGet hq key).map update else queueGet hq other := by
  induction hq with
  | nil => simp [queueModify, queueGet]
  | cons entry hq ih =>
      rw [queueModify]
      by_cases hentry : entry.1 = key
      · rw [if_pos hentry, queueGet_cons, queueGet_cons, queueGet_cons, if_pos hentry, hentry]
        by_cases hother : other = key
        · rw [if_pos hother.symm, if_pos hother, Option.map_some]
        · rw [if_neg (Ne.symm hother), if_neg hother, if_neg (Ne.symm hother)]
      · rw [if_neg hentry, queueGet_cons, queueGet_cons, queueGet_cons, if_neg hentry, ih]
        by_cases hother : other = key
        · rw [if_pos hother, if_pos hother, hother, if_neg hentry]
        · rw [if_neg hother, if_neg hother]

theorem queueGet_queueDel (hq : HashQueue κ ν) (key other : κ) :
    queueGet (hq.queueDel key) other = if other = key then none else queueGet hq other := by
  by_cases hother : other = key
  · rw [if_pos hother, queueGet_eq_none_iff]
    intro entry hentry
    simp only [queueDel, List.mem_filter, decide_eq_true_eq] at hentry
    exact hother ▸ hentry.2
  · rw [if_neg hother]
    induction hq with
    | nil => rfl
    | cons entry hq ih =>
        rw [queueGet_cons]
        by_cases hentry : entry.1 = key
        · rw [queueDel, List.filter_cons_of_neg (by simpa using hentry), ← queueDel, ih, if_neg]
          exact fun h => hother (h ▸ hentry)
        · rw [queueDel, List.filter_cons_of_pos (by simpa using hentry), queueGet_cons,
            ← queueDel, ih]

theorem mem_of_queueGet {value : ν} (hget : queueGet hq key = some value) : (key, value) ∈ hq := by
  obtain ⟨entry, hfind, rfl⟩ := Option.map_eq_some_iff.mp hget
  have hkey : entry.1 = key := by simpa using List.find?_some hfind
  exact hkey ▸ List.mem_of_find?_eq_some hfind

theorem queueDel_subset (hq : HashQueue κ ν) (key : κ) : hq.queueDel key ⊆ hq :=
  List.filter_subset_self _

end HashQueue

end Liteflow

import Liteflow.Rbuffer
import Liteflow.Proof.Treemap

/-!
# Stream positions and their 32-bit form

The stream of a connection has unbounded positions; the code keeps their low 32 bits. As long as the
positions that are compared lie within half the range of each other, `LESS_EQUAL` and `seq_cmp` are
the order of the positions, and a tree map keyed by them is ordered.
-/

namespace Liteflow

/-- The 32-bit form of a stream position. -/
def wire (n : Nat) : U32 :=
  BitVec.ofNat 32 n

@[simp]
theorem wire_zero : wire 0 = 0 := rfl

@[simp]
theorem wire_toNat (n : Nat) : (wire n).toNat = n % 2 ^ 32 :=
  BitVec.toNat_ofNat n 32

@[simp]
theorem wire_of_toNat (a : U32) : wire a.toNat = a := by
  rw [wire, BitVec.ofNat_toNat, BitVec.setWidth_eq]

theorem wire_add (m n : Nat) : wire (m + n) = wire m + wire n :=
  BitVec.ofNat_add m n

theorem wire_sub {m n : Nat} (hle : m ≤ n) : wire n - wire m = wire (n - m) :=
  Serial.ofNat_sub_ofNat hle

theorem toNat_wire_sub {m n : Nat} (hle : m ≤ n) (hlt : n < m + 2 ^ 32) :
    (wire n - wire m).toNat = n - m :=
  Serial.toNat_sub_ofNat hle (by omega)

theorem wire_inj {m n : Nat} (hmn : m < n + 2 ^ 32) (hnm : n < m + 2 ^ 32)
    (heq : wire m = wire n) : m = n :=
  Serial.ofNat_inj hmn hnm heq

theorem lessEqual_wire {m n : Nat} (hmn : m ≤ n + 2 ^ 31) (hnm : n < m + 2 ^ 31) :
    lessEqual (wire m) (wire n) = true ↔ m ≤ n :=
  Serial.le_ofNat_iff (by decide) hmn hnm

theorem seqCmp_wire {m n : Nat} (hmn : m < n + 2 ^ 31) (hnm : n < m + 2 ^ 31) :
    seqCmp (wire m) (wire n) = compare m n :=
  Serial.cmp_ofNat (by decide) hmn hnm

/-! ### Tree maps keyed by positions -/

section Keys

variable {ν : Type}

def KeysBefore (k : Nat) (entries : List (U32 × ν)) : Prop :=
  ∀ entry ∈ entries, ∃ n, entry.1 = wire n ∧ n < k ∧ k < n + 2 ^ 31

def KeysAfter (k : Nat) (entries : List (U32 × ν)) : Prop :=
  ∀ entry ∈ entries, ∃ n, entry.1 = wire n ∧ k < n ∧ n < k + 2 ^ 31

variable {k : Nat} {before after : List (U32 × ν)}

theorem KeysBefore.cmp_eq (hbefore : KeysBefore k before) :
    ∀ entry ∈ before, seqCmp (wire k) entry.1 = .gt ∧ seqCmp entry.1 (wire k) = .lt := by
  intro entry hentry
  obtain ⟨n, hn, hlt, hreach⟩ := hbefore entry hentry
  rw [hn, seqCmp_wire (by omega) (by omega), seqCmp_wire (by omega) (by omega)]
  exact ⟨Nat.compare_eq_gt.mpr hlt, Nat.compare_eq_lt.mpr hlt⟩

theorem KeysAfter.cmp_eq (hafter : KeysAfter k after) :
    ∀ entry ∈ after, seqCmp (wire k) entry.1 = .lt ∧ seqCmp entry.1 (wire k) = .gt := by
  intro entry hentry
  obtain ⟨n, hn, hlt, hreach⟩ := hafter entry hentry
  rw [hn, seqCmp_wire (by omega) (by omega), seqCmp_wire (by omega) (by omega)]
  exact ⟨Nat.compare_eq_lt.mpr hlt, Nat.compare_eq_gt.mpr hlt⟩

theorem KeysBefore.ne (hbefore : KeysBefore k before) : ∀ entry ∈ before, entry.1 ≠ wire k := by
  intro entry hentry heq
  obtain ⟨n, hn, hlt, hreach⟩ := hbefore entry hentry
  have := wire_inj (by omega) (by omega) (hn.symm.trans heq)
  omega

theorem KeysAfter.ne (hafter : KeysAfter k after) : ∀ entry ∈ after, entry.1 ≠ wire k := by
  intro entry hentry heq
  obtain ⟨n, hn, hlt, hreach⟩ := hafter entry hentry
  have := wire_inj (by omega) (by omega) (hn.symm.trans heq)
  omega

theorem splits_wire (hbefore : KeysBefore k before) (hafter : KeysAfter k after) :
    Treemap.Splits seqCmp (wire k) before after :=
  ⟨fun entry hentry => (hbefore.cmp_eq entry hentry).1,
    fun entry hentry => (hafter.cmp_eq entry hentry).1⟩

theorem seqCmp_self (a : U32) : seqCmp a a = .eq := by
  simp [seqCmp, Serial.cmp, Serial.le]

theorem located_hit (hbefore : KeysBefore k before) (hafter : KeysAfter k after) (v : ν) :
    Treemap.Located seqCmp (wire k) before [(wire k, v)] after :=
  { splits_wire hbefore hafter with
    hit_eq := by simp [seqCmp_self]
    hit_length := by simp }

theorem located_miss (hbefore : KeysBefore k before) (hafter : KeysAfter k after) :
    Treemap.Located seqCmp (wire k) before [] after :=
  { splits_wire hbefore hafter with
    hit_eq := by simp
    hit_length := by simp }

theorem treemapValue_wire {t : Treemap U32 ν} {v : ν}
    (hlist : t.toList = before ++ (wire k, v) :: after) (hbefore : KeysBefore k before) :
    t.treemapValue (wire k) = some v := by
  have hfind : before.find? (fun entry => entry.1 = wire k) = none := by
    rw [List.find?_eq_none]
    exact fun entry hentry => by simpa using hbefore.ne entry hentry
  simp [Treemap.treemapValue, hlist, List.find?_append, hfind]

theorem treemapSetValue_wire {t : Treemap U32 ν} {v : ν} (update : ν → ν)
    (hlist : t.toList = before ++ (wire k, v) :: after) (hbefore : KeysBefore k before)
    (hafter : KeysAfter k after) :
    (t.treemapSetValue (wire k) update).toList = before ++ (wire k, update v) :: after := by
  have hsame : ∀ entries : List (U32 × ν), (∀ entry ∈ entries, entry.1 ≠ wire k) →
      entries.map (fun entry => (entry.1, if entry.1 = wire k then update entry.2 else entry.2)) =
        entries := by
    intro entries hne
    refine (List.map_congr_left fun entry hentry => ?_).trans (List.map_id entries)
    simp [hne entry hentry]
  rw [Treemap.treemapSetValue_toList, hlist, List.map_append, List.map_cons,
    hsame before hbefore.ne, hsame after hafter.ne]
  simp

theorem rangeAt_wire {lo hi p : Nat} (hspan : hi < lo + 2 ^ 31) {t : Treemap U32 ν}
    (hlist : t.toList = before ++ after)
    (hbefore : ∀ entry ∈ before, ∃ n, entry.1 = wire n ∧ lo ≤ n ∧ n ≤ p)
    (hafter : ∀ entry ∈ after, ∃ n, entry.1 = wire n ∧ p < n ∧ n ≤ hi) (hp : lo ≤ p ∧ p ≤ hi) :
    Rbuf.rangeAt t (wire p) = before.getLast? := by
  have hupper : t.treemapUpperBound seqCmp (wire p) = after.head? := by
    refine Treemap.treemapUpperBound_eq_head hlist (fun entry hentry => ?_) (fun entry hentry => ?_)
    · obtain ⟨n, hn, hlo, hle⟩ := hbefore entry hentry
      rw [hn, seqCmp_wire (by omega) (by omega)]
      exact fun hlt => absurd (Nat.compare_eq_lt.mp hlt) (by omega)
    · obtain ⟨n, hn, hlt, hhi⟩ := hafter entry hentry
      rw [hn, seqCmp_wire (by omega) (by omega)]
      exact Nat.compare_eq_lt.mpr hlt
  cases after with
  | nil =>
      rw [List.append_nil] at hlist
      simp [Rbuf.rangeAt, hupper, Treemap.treemapLast, hlist]
  | cons next rest =>
      obtain ⟨m, hm, hplt, hhi⟩ := hafter next (by simp)
      have hkeys : KeysBefore m before := fun entry hentry => by
        obtain ⟨n, hn, hlo, hle⟩ := hbefore entry hentry
        exact ⟨n, hn, by omega, by omega⟩
      rw [List.head?_cons] at hupper
      simp only [Rbuf.rangeAt, hupper]
      refine Treemap.treemapPrev_eq hlist ?_
      rw [hm]
      exact hkeys.ne

end Keys

end Liteflow

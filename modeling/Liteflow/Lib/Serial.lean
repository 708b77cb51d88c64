import Mathlib.Data.BitVec

/-!
# Serial numbers

A counter that only grows is sent as its low `w` bits. Two such numbers compare by the half range:
`a` is at or before `b` when `b - a`, computed modulo `2 ^ w`, is below `2 ^ (w - 1)`. The lemmas
relate the wire form `BitVec.ofNat w n` of an unbounded position `n` to the position itself, which
is what every argument about a window that straddles the wrap comes down to.
-/

namespace Serial

variable {w : Nat}

def le (a b : BitVec w) : Bool :=
  decide ((b - a).toNat < 2 ^ (w - 1))

/-- The three-way comparison. Any two numbers at least half the range apart compare as greater, both
ways. -/
def cmp (a b : BitVec w) : Ordering :=
  if le a b then (if a = b then .eq else .lt) else .gt

theorem ofNat_sub_ofNat {m n : Nat} (hle : m ≤ n) :
    BitVec.ofNat w n - BitVec.ofNat w m = BitVec.ofNat w (n - m) := by
  obtain ⟨d, rfl⟩ := Nat.exists_eq_add_of_le hle
  rw [BitVec.ofNat_add, Nat.add_sub_cancel_left, BitVec.add_comm, BitVec.add_sub_cancel]

theorem toNat_sub_ofNat {m n : Nat} (hle : m ≤ n) (hlt : n - m < 2 ^ w) :
    (BitVec.ofNat w n - BitVec.ofNat w m).toNat = n - m := by
  rw [ofNat_sub_ofNat hle, BitVec.toNat_ofNat, Nat.mod_eq_of_lt hlt]

theorem toNat_sub_ofNat_of_lt {m n : Nat} (hlt : n < m) (hwrap : m - n ≤ 2 ^ w) :
    (BitVec.ofNat w n - BitVec.ofNat w m).toNat = 2 ^ w - (m - n) := by
  have hshift : BitVec.ofNat w n = BitVec.ofNat w (n + 2 ^ w) := by
    apply BitVec.eq_of_toNat_eq
    simp
  rw [hshift, toNat_sub_ofNat (by omega) (by omega)]
  omega

theorem ofNat_inj {m n : Nat} (hmn : m < n + 2 ^ w) (hnm : n < m + 2 ^ w)
    (heq : BitVec.ofNat w m = BitVec.ofNat w n) : m = n := by
  rcases Nat.le_total m n with hle | hle
  · have hdist := toNat_sub_ofNat (w := w) hle (by omega)
    rw [heq, BitVec.sub_self, BitVec.toNat_zero] at hdist
    omega
  · have hdist := toNat_sub_ofNat (w := w) hle (by omega)
    rw [heq, BitVec.sub_self, BitVec.toNat_zero] at hdist
    omega

theorem two_pow_eq_half_add_half (hw : 0 < w) : 2 ^ w = 2 ^ (w - 1) + 2 ^ (w - 1) := by
  obtain ⟨v, rfl⟩ := Nat.exists_eq_succ_of_ne_zero (Nat.pos_iff_ne_zero.mp hw)
  rw [Nat.succ_sub_one, Nat.pow_succ]
  omega

theorem le_ofNat_iff (hw : 0 < w) {m n : Nat} (hmn : m ≤ n + 2 ^ (w - 1))
    (hnm : n < m + 2 ^ (w - 1)) :
    le (BitVec.ofNat w m) (BitVec.ofNat w n) = true ↔ m ≤ n := by
  have hpow := two_pow_eq_half_add_half hw
  rw [le, decide_eq_true_iff]
  rcases Nat.lt_or_ge n m with hlt | hge
  · rw [toNat_sub_ofNat_of_lt hlt (by omega)]
    omega
  · rw [toNat_sub_ofNat hge (by omega)]
    omega

theorem cmp_ofNat (hw : 0 < w) {m n : Nat} (hmn : m < n + 2 ^ (w - 1))
    (hnm : n < m + 2 ^ (w - 1)) :
    cmp (BitVec.ofNat w m) (BitVec.ofNat w n) = compare m n := by
  have hpow := two_pow_eq_half_add_half hw
  have hle := le_ofNat_iff hw (Nat.le_of_lt hmn) hnm
  rw [cmp]
  rcases Nat.lt_trichotomy m n with hlt | heq | hgt
  · have hne : BitVec.ofNat w m ≠ BitVec.ofNat w n := fun heq =>
      Nat.ne_of_lt hlt (ofNat_inj (by omega) (by omega) heq)
    rw [if_pos (hle.mpr (Nat.le_of_lt hlt)), if_neg hne, Nat.compare_eq_lt.mpr hlt]
  · subst heq
    rw [if_pos (hle.mpr (Nat.le_refl _)), if_pos rfl, Nat.compare_eq_eq.mpr rfl]
  · rw [if_neg (fun h => absurd (hle.mp h) (Nat.not_le.mpr hgt)), Nat.compare_eq_gt.mpr hgt]

theorem toNat_sub_add_toNat_sub (hw : 0 < w) {a b c : BitVec w} (hab : le a b = true)
    (hbc : le b c = true) :
    (b - a).toNat + (c - b).toNat = (c - a).toNat := by
  have hpow := two_pow_eq_half_add_half hw
  rw [le, decide_eq_true_iff] at hab hbc
  have hsum : c - a = (b - a) + (c - b) := by
    rw [BitVec.sub_eq_add_neg, BitVec.sub_eq_add_neg, BitVec.sub_eq_add_neg]
    rw [BitVec.add_comm b, BitVec.add_assoc, ← BitVec.add_assoc b, BitVec.add_comm b c,
      BitVec.add_assoc c, ← BitVec.sub_eq_add_neg b b, BitVec.sub_self, BitVec.add_zero,
      BitVec.add_comm]
  rw [hsum, BitVec.toNat_add, Nat.mod_eq_of_lt (by omega)]

theorem ofNat_add_toNat_sub (m : Nat) (b : BitVec w) :
    BitVec.ofNat w (m + (b - BitVec.ofNat w m).toNat) = b := by
  rw [BitVec.ofNat_add, BitVec.ofNat_toNat, BitVec.setWidth_eq, BitVec.add_comm,
    BitVec.sub_add_cancel]

theorem le_iff_of_window (hw : 0 < w) {base a b : BitVec w} (ha : (a - base).toNat < 2 ^ (w - 1))
    (hb : (b - base).toNat < 2 ^ (w - 1)) :
    le a b = true ↔ (a - base).toNat ≤ (b - base).toNat := by
  have hbase : BitVec.ofNat w base.toNat = base := by
    rw [BitVec.ofNat_toNat, BitVec.setWidth_eq]
  have hwire (c : BitVec w) : BitVec.ofNat w (base.toNat + (c - base).toNat) = c := by
    have hadd := ofNat_add_toNat_sub base.toNat c
    rwa [hbase] at hadd
  have hiff := le_ofNat_iff hw (m := base.toNat + (a - base).toNat)
    (n := base.toNat + (b - base).toNat) (by omega) (by omega)
  rw [hwire, hwire] at hiff
  rw [hiff, Nat.add_le_add_iff_left]

end Serial

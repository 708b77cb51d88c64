import Mathlib.Logic.Equiv.Basic
import Mathlib.Order.Lattice

/-!
# Binary heaps as arrays

A heap is an array of keys, of which the first `n` count, with the children of place `i` at
`2 * i + 1` and `2 * i + 2`. A sift starts from an array whose order may fail at one place only and
moves that place up or down by swaps, until both its neighbourhoods are in order.
-/

namespace BinaryHeap

variable {α : Type} [LinearOrder α] {n s : Nat} {key : Nat → α}

def parent (i : Nat) : Nat :=
  (i - 1) / 2

def Ordered (n : Nat) (key : Nat → α) : Prop :=
  ∀ i, 0 < i → i < n → key (parent i) ≤ key i

/-- In order except for the pairs that place `s` is part of; around `s`, its children still come
after its parent. -/
structure OrderedOff (n : Nat) (key : Nat → α) (s : Nat) : Prop where
  off : ∀ i, 0 < i → i < n → i ≠ s → parent i ≠ s → key (parent i) ≤ key i
  across : ∀ i, 0 < i → i < n → parent i = s → 0 < s → key (parent s) ≤ key i

def FitsAbove (key : Nat → α) (s : Nat) : Prop :=
  0 < s → key (parent s) ≤ key s

def FitsBelow (n : Nat) (key : Nat → α) (s : Nat) : Prop :=
  ∀ i, 0 < i → i < n → parent i = s → key s ≤ key i

theorem parent_lt {i : Nat} (hi : 0 < i) : parent i < i := by
  unfold parent
  omega

theorem Ordered.root_le (hkey : Ordered n key) : ∀ i < n, key 0 ≤ key i := by
  intro i
  induction i using Nat.strongRecOn with
  | ind i ih =>
      intro hi
      rcases Nat.eq_zero_or_pos i with rfl | hpos
      · exact le_rfl
      · have hlt := parent_lt hpos
        exact (ih (parent i) hlt (hlt.trans hi)).trans (hkey i hpos hi)

theorem OrderedOff.ordered (hoff : OrderedOff n key s) (habove : FitsAbove key s)
    (hbelow : FitsBelow n key s) : Ordered n key := by
  intro i hpos hi
  by_cases his : i = s
  · subst his
    exact habove hpos
  · by_cases hparent : parent i = s
    · rw [hparent]
      exact hbelow i hpos hi hparent
    · exact hoff.off i hpos hi his hparent

theorem Ordered.fitsAbove (hkey : Ordered n key) (hs : s < n) : FitsAbove key s :=
  fun hpos => hkey s hpos hs

theorem Ordered.fitsBelow (hkey : Ordered n key) : FitsBelow n key s := by
  intro i hpos hi hparent
  rw [← hparent]
  exact hkey i hpos hi

theorem Ordered.orderedOff (hkey : Ordered n key) {n' : Nat} {key' : Nat → α} (hle : n' ≤ n)
    (hsame : ∀ i < n', i ≠ s → key' i = key i) (hs : s < n) : OrderedOff n' key' s := by
  constructor
  · intro i hpos hi his hparent
    rw [hsame i hi his, hsame (parent i) ((parent_lt hpos).trans hi) hparent]
    exact hkey i hpos (by omega)
  · intro i hpos hi hparent hspos
    have hsi : s < i := hparent ▸ parent_lt hpos
    have hps := parent_lt hspos
    rw [hsame i hi (by omega), hsame (parent s) (by omega) (by omega)]
    have hup := hkey s hspos hs
    have hdown := hkey i hpos (by omega)
    rw [hparent] at hdown
    exact hup.trans hdown

def swap (key : Nat → α) (a b : Nat) : Nat → α :=
  key ∘ Equiv.swap a b

omit [LinearOrder α] in
theorem swap_apply (a b i : Nat) :
    swap key a b i = if i = a then key b else if i = b then key a else key i := by
  rw [swap, Function.comp_apply, Equiv.swap_apply_def, apply_ite key, apply_ite key]

theorem OrderedOff.moveUp (hoff : OrderedOff n key s) (hpos : 0 < s) (hs : s < n)
    (hlt : key s < key (parent s)) :
    OrderedOff n (swap key s (parent s)) (parent s) ∧
      FitsBelow n (swap key s (parent s)) (parent s) := by
  have hps := parent_lt hpos
  refine ⟨⟨fun i hi hin his hparent => ?_, fun i hi hin hparent hgrand => ?_⟩,
    fun i hi hin hparent => ?_⟩
  · have hne : i ≠ s := fun h => hparent (by rw [h])
    rw [swap_apply, swap_apply, if_neg hparent, if_neg hne, if_neg his]
    by_cases hchild : parent i = s
    · rw [if_pos hchild]
      exact hoff.across i hi hin hchild hpos
    · rw [if_neg hchild]
      exact hoff.off i hi hin hne hchild
  · have hgp := parent_lt hgrand
    have hbase : key (parent (parent s)) ≤ key (parent s) :=
      hoff.off (parent s) hgrand (by omega) (by omega) (by omega)
    have hip := parent_lt hi
    rw [swap_apply, swap_apply, if_neg (by omega), if_neg (by omega)]
    split
    · exact hbase
    · rename_i hne
      rw [if_neg (by omega)]
      have hside := hoff.off i hi hin hne (by omega)
      rw [hparent] at hside
      exact hbase.trans hside
  · have hip := parent_lt hi
    rw [swap_apply, swap_apply, if_neg (by omega), if_pos rfl]
    split
    · exact hlt.le
    · rename_i hne
      rw [if_neg (by omega)]
      have hside := hoff.off i hi hin hne (by omega)
      rw [hparent] at hside
      exact hlt.le.trans hside

theorem OrderedOff.moveDown (hoff : OrderedOff n key s) {t : Nat} (htpos : 0 < t) (ht : t < n)
    (hparent : parent t = s) (hleast : ∀ i, 0 < i → i < n → parent i = s → key t ≤ key i)
    (hlt : key t < key s) :
    OrderedOff n (swap key s t) t ∧
      FitsAbove (swap key s t) t := by
  have hst : s < t := hparent ▸ parent_lt htpos
  refine ⟨⟨fun i hi hin hit hip => ?_, fun i hi hin hip htp => ?_⟩, fun _ => ?_⟩
  · have hlti := parent_lt hi
    rw [swap_apply, swap_apply, if_neg hip, if_neg hit]
    by_cases his : i = s
    · subst his
      rw [if_neg (by omega), if_pos rfl]
      exact hoff.across t htpos ht hparent hi
    · rw [if_neg his]
      by_cases hchild : parent i = s
      · rw [if_pos hchild]
        exact hleast i hi hin hchild
      · rw [if_neg hchild]
        exact hoff.off i hi hin his hchild
  · have hti : t < i := hip ▸ parent_lt hi
    rw [swap_apply, swap_apply, hparent, if_pos rfl, if_neg (by omega), if_neg (by omega)]
    have hchild := hoff.off i hi hin (by omega) (by omega)
    rw [hip] at hchild
    exact hchild
  · rw [swap_apply, swap_apply, hparent, if_pos rfl, if_neg (by omega), if_pos rfl]
    exact hlt.le

theorem OrderedOff.fitsBelow (hoff : OrderedOff n key s) (hpos : 0 < s)
    (hlt : key s < key (parent s)) : FitsBelow n key s :=
  fun i hi hin hparent => hlt.le.trans (hoff.across i hi hin hparent hpos)

end BinaryHeap

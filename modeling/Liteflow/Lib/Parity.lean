import Mathlib.Data.BitVec
import Mathlib.Data.Finset.Fold
import Mathlib.Data.Finset.Card
import Mathlib.Data.Finset.Range
import Mathlib.Data.List.Infix

/-!
# One parity word

A group of `n` words travels with their exclusive or. A decoder keeps which words it has seen and
whether it has seen the parity word; with the parity word and all words but one it fills in the
last one. Every arrival order is covered by one fact: the decoder produces a word exactly at the
first moment at which the parity word and all words but that one have arrived.
-/

namespace Parity

variable {ι : Type} {w n : Nat}

/-! ### The exclusive or of a set of words -/

def parity (word : ι → BitVec w) (s : Finset ι) : BitVec w :=
  s.fold (fun a b => a ^^^ b) 0 word

@[simp]
theorem parity_empty (word : ι → BitVec w) : parity word ∅ = 0 :=
  Finset.fold_empty

theorem parity_congr {word word' : ι → BitVec w} {s : Finset ι}
    (h : ∀ i ∈ s, word i = word' i) : parity word s = parity word' s :=
  Finset.fold_congr h

variable [DecidableEq ι]

theorem parity_insert (word : ι → BitVec w) {s : Finset ι} {i : ι} (hi : i ∉ s) :
    parity word (insert i s) = word i ^^^ parity word s :=
  Finset.fold_insert hi

theorem parity_erase_xor_parity (word : ι → BitVec w) {s : Finset ι} {i : ι} (hi : i ∈ s) :
    parity word (s.erase i) ^^^ parity word s = word i := by
  have hsplit : parity word s = word i ^^^ parity word (s.erase i) := by
    rw [← parity_insert word (Finset.notMem_erase i s), Finset.insert_erase hi]
  rw [hsplit, BitVec.xor_comm (word i), ← BitVec.xor_assoc, BitVec.xor_self, BitVec.zero_xor]

/-! ### The decoder -/

/-- A word, by its index, or the parity word. -/
inductive Arrival where
  | word (i : Nat)
  | sum
deriving DecidableEq

structure Decoder where
  marked : Finset Nat
  sum : Bool

namespace Decoder

def empty : Decoder := ⟨∅, false⟩

/-- With the parity word and all words but one, the last word is filled in. -/
def settle (n : Nat) (d : Decoder) : Decoder × Option Nat :=
  if d.sum ∧ d.marked.card + 1 = n then
    ({ d with marked := Finset.range n }, (List.range n).find? (· ∉ d.marked))
  else
    (d, none)

def feed (n : Nat) (d : Decoder) : Arrival → Decoder × Option Nat
  | .word i =>
      if i ∈ d.marked then (d, none) else settle n { d with marked := insert i d.marked }
  | .sum => if d.sum then (d, none) else settle n { d with sum := true }

end Decoder

/-- Of the `n` words exactly word `i` has not arrived, and the parity word has. -/
def Lacks (n : Nat) (seen : List Arrival) (i : Nat) : Prop :=
  .sum ∈ seen ∧ i < n ∧ .word i ∉ seen ∧ ∀ j < n, j ≠ i → .word j ∈ seen

/-- No moment of `seen` left exactly one word to fill in. -/
def Undecided (n : Nat) (seen : List Arrival) : Prop :=
  ∀ early, early <+: seen → ∀ i, ¬Lacks n early i

theorem Undecided.of_append {seen later : List Arrival} (h : Undecided n (seen ++ later)) :
    Undecided n seen :=
  fun early hearly => h early (hearly.trans (List.prefix_append seen later))

theorem undecided_append_singleton {seen : List Arrival} {a : Arrival} :
    Undecided n (seen ++ [a]) ↔ Undecided n seen ∧ ∀ i, ¬Lacks n (seen ++ [a]) i := by
  constructor
  · intro h
    exact ⟨h.of_append, h _ List.prefix_rfl⟩
  · rintro ⟨hseen, hlast⟩ early hearly
    rcases List.prefix_concat_iff.mp hearly with rfl | hearly
    · exact hlast
    · exact hseen early hearly

/-- The decoder knows what has arrived until it fills in a word; after that everything is marked. -/
structure Tracks (n : Nat) (seen : List Arrival) (d : Decoder) : Prop where
  sum_iff : d.sum = true ↔ .sum ∈ seen
  marks : (Undecided n seen ∧ ∀ i, i ∈ d.marked ↔ .word i ∈ seen) ∨
    (¬Undecided n seen ∧ d.sum = true ∧ d.marked = Finset.range n)

theorem tracks_empty : Tracks n [] Decoder.empty where
  sum_iff := by simp [Decoder.empty]
  marks := by
    refine Or.inl ⟨?_, by simp [Decoder.empty]⟩
    intro early hearly i hlacks
    rw [List.prefix_nil.mp hearly] at hlacks
    exact absurd hlacks.1 List.not_mem_nil

section Settle

variable {d : Decoder} {i : Nat}

theorem exists_eq_erase_of_card (hsub : d.marked ⊆ Finset.range n)
    (hcard : d.marked.card + 1 = n) : ∃ i < n, d.marked = (Finset.range n).erase i := by
  have hone : (Finset.range n \ d.marked).card = 1 := by
    rw [Finset.card_sdiff_of_subset hsub, Finset.card_range]
    omega
  obtain ⟨i, hi⟩ := Finset.card_eq_one.mp hone
  have hmem : i ∈ Finset.range n \ d.marked := by rw [hi]; exact Finset.mem_singleton_self i
  refine ⟨i, Finset.mem_range.mp (Finset.mem_sdiff.mp hmem).1, ?_⟩
  rw [Finset.erase_eq, ← hi, Finset.sdiff_sdiff_eq_self hsub]

theorem find?_erase (hi : i < n) :
    (List.range n).find? (· ∉ (Finset.range n).erase i) = some i := by
  rw [List.find?_range_eq_some]
  simp only [Finset.mem_erase, Finset.mem_range]
  refine ⟨by simp, List.mem_range.mpr hi, ?_⟩
  intro j hj
  simp
  omega

theorem settle_cases (hsub : d.marked ⊆ Finset.range n) :
    (∃ i < n, d.sum = true ∧ d.marked = (Finset.range n).erase i ∧
      d.settle n = (⟨Finset.range n, true⟩, some i)) ∨
    (¬(d.sum = true ∧ d.marked.card + 1 = n) ∧ d.settle n = (d, none)) := by
  by_cases hready : d.sum = true ∧ d.marked.card + 1 = n
  · obtain ⟨i, hi, hmarked⟩ := exists_eq_erase_of_card hsub hready.2
    refine Or.inl ⟨i, hi, hready.1, hmarked, ?_⟩
    rw [Decoder.settle, if_pos hready, hmarked, find?_erase hi, hready.1]
  · exact Or.inr ⟨hready, if_neg hready⟩

end Settle

theorem Tracks.settle {seen : List Arrival} {a : Arrival} {d : Decoder}
    (hbefore : Undecided n seen) (hsub : d.marked ⊆ Finset.range n)
    (hsum : d.sum = true ↔ .sum ∈ seen ++ [a])
    (hmarked : ∀ i, i ∈ d.marked ↔ .word i ∈ seen ++ [a]) :
    Tracks n (seen ++ [a]) (d.settle n).1 ∧
      ∀ i, (d.settle n).2 = some i ↔ Lacks n (seen ++ [a]) i ∧ Undecided n seen := by
  -- what the decoder marks is what arrived, so the missing word is the missing mark
  have hlacks : ∀ i, Lacks n (seen ++ [a]) i ↔
      d.sum = true ∧ i < n ∧ d.marked = (Finset.range n).erase i := by
    intro i
    constructor
    · rintro ⟨hs, hi, hmissing, hothers⟩
      refine ⟨hsum.mpr hs, hi, ?_⟩
      ext j
      rw [Finset.mem_erase, Finset.mem_range]
      constructor
      · intro hj
        refine ⟨?_, Finset.mem_range.mp (hsub hj)⟩
        rintro rfl
        exact hmissing ((hmarked j).mp hj)
      · rintro ⟨hne, hj⟩
        exact (hmarked j).mpr (hothers j hj hne)
    · rintro ⟨hs, hi, hset⟩
      refine ⟨hsum.mp hs, hi, ?_, ?_⟩
      · rw [← hmarked, hset]
        exact Finset.notMem_erase i _
      · intro j hj hne
        rw [← hmarked, hset]
        exact Finset.mem_erase.mpr ⟨hne, Finset.mem_range.mpr hj⟩
  rcases settle_cases hsub with ⟨i, hi, hs, hset, heq⟩ | ⟨hready, heq⟩
  · have hmissing : Lacks n (seen ++ [a]) i := (hlacks i).mpr ⟨hs, hi, hset⟩
    rw [heq]
    refine ⟨⟨by simpa [hs] using hsum, Or.inr ⟨?_, rfl, rfl⟩⟩, ?_⟩
    · intro hundecided
      exact hundecided _ List.prefix_rfl i hmissing
    · intro j
      constructor
      · rintro ⟨⟩
        exact ⟨hmissing, hbefore⟩
      · rintro ⟨hother, -⟩
        -- two missing words are the same one
        by_contra hne
        have hj : j ≠ i := fun h => hne (by rw [h])
        exact hother.2.2.1 (hmissing.2.2.2 j hother.2.1 hj)
  · have hnone : ∀ i, ¬Lacks n (seen ++ [a]) i := by
      intro i hmissing
      obtain ⟨hs, hi, hset⟩ := (hlacks i).mp hmissing
      refine hready ⟨hs, ?_⟩
      rw [hset, Finset.card_erase_of_mem (Finset.mem_range.mpr hi), Finset.card_range]
      omega
    rw [heq]
    refine ⟨⟨hsum, Or.inl ⟨undecided_append_singleton.mpr ⟨hbefore, hnone⟩, hmarked⟩⟩, ?_⟩
    intro i
    simp [hnone i]

/-- **One arrival** produces a word exactly at the first moment at which that word alone is missing.
-/
theorem Tracks.feed {seen : List Arrival} {d : Decoder} (h : Tracks n seen d)
    (hseen : ∀ i, .word i ∈ seen → i < n) {a : Arrival} (ha : ∀ i, a = .word i → i < n) :
    Tracks n (seen ++ [a]) (d.feed n a).1 ∧
      ∀ i, (d.feed n a).2 = some i ↔ Lacks n (seen ++ [a]) i ∧ Undecided n seen := by
  rcases h.marks with ⟨hundecided, hmarked⟩ | ⟨hdecided, hs, hset⟩
  · have hsub : d.marked ⊆ Finset.range n := by
      intro i hi
      exact Finset.mem_range.mpr (hseen i ((hmarked i).mp hi))
    -- an arrival that was there before changes neither the history nor the decoder
    have hagain : a ∈ seen → Tracks n (seen ++ [a]) d ∧
        ∀ i, (none : Option Nat) = some i ↔ Lacks n (seen ++ [a]) i ∧ Undecided n seen := by
      intro hmem
      have hsame : ∀ b, b ∈ seen ++ [a] ↔ b ∈ seen := by
        intro b
        simp only [List.mem_append, List.mem_singleton, or_iff_left_iff_imp]
        rintro rfl
        exact hmem
      have hlacks : ∀ i, ¬Lacks n (seen ++ [a]) i := by
        intro i hlacks
        unfold Lacks at hlacks
        simp only [hsame] at hlacks
        exact hundecided seen List.prefix_rfl i hlacks
      refine ⟨⟨by rw [hsame]; exact h.sum_iff, Or.inl ⟨?_, ?_⟩⟩, ?_⟩
      · exact undecided_append_singleton.mpr ⟨hundecided, hlacks⟩
      · intro i
        rw [hsame]
        exact hmarked i
      · intro i
        simp [hlacks i]
    cases a with
    | word i =>
        by_cases hi : i ∈ d.marked
        · rw [Decoder.feed, if_pos hi]
          exact hagain ((hmarked i).mp hi)
        · rw [Decoder.feed, if_neg hi]
          refine Tracks.settle hundecided ?_ ?_ ?_
          · intro j hj
            rcases Finset.mem_insert.mp hj with rfl | hj
            · exact Finset.mem_range.mpr (ha j rfl)
            · exact hsub hj
          · simpa using h.sum_iff
          · intro j
            simp [hmarked j, or_comm]
    | sum =>
        by_cases hs : d.sum = true
        · rw [Decoder.feed, if_pos hs]
          exact hagain (h.sum_iff.mp hs)
        · rw [Decoder.feed, if_neg hs]
          refine Tracks.settle hundecided hsub ?_ ?_
          · simp
          · intro j
            simpa using hmarked j
  · -- a word was filled in before: everything is marked
    have hsame : d.feed n a = (d, none) := by
      cases a with
      | word i =>
          rw [Decoder.feed, if_pos]
          rw [hset]
          exact Finset.mem_range.mpr (ha i rfl)
      | sum => rw [Decoder.feed, if_pos hs]
    rw [hsame]
    refine ⟨⟨?_, Or.inr ⟨?_, hs, hset⟩⟩, ?_⟩
    · simp only [List.mem_append, hs, true_iff]
      exact Or.inl (h.sum_iff.mp hs)
    · exact fun hundecided => hdecided hundecided.of_append
    · intro i
      simp [hdecided]

end Parity

import Mathlib.Order.Lattice
import Mathlib.Order.MinMax
import Mathlib.Data.List.Basic

/-!
# Sets kept as lists of separated intervals

A finite union of half-open intervals `[s, e)` has one representation as an ascending list in which
consecutive intervals neither overlap nor touch. Adding an interval to such a list extends the one
it starts in, or opens a new one, and then absorbs every later interval that starts at or before its
end.
-/

namespace Intervals

variable {α : Type} [LinearOrder α]

def Covers (ranges : List (α × α)) (p : α) : Prop :=
  ∃ range ∈ ranges, range.1 ≤ p ∧ p < range.2

/-- Ascending, none empty, and a gap between any two. -/
@[mk_iff] structure Separated (ranges : List (α × α)) : Prop where
  nonempty : ∀ range ∈ ranges, range.1 < range.2
  gaps : ranges.Pairwise (fun left right => left.2 < right.1)

/-- As `Separated`, but an interval may be empty. -/
@[mk_iff] structure Spaced (ranges : List (α × α)) : Prop where
  ordered : ∀ range ∈ ranges, range.1 ≤ range.2
  gaps : ranges.Pairwise (fun left right => left.2 < right.1)

/-- The interval `[s, e)` in front of `rest`, with every interval it reaches merged into it. -/
def absorb (s e : α) : List (α × α) → List (α × α)
  | [] => [(s, e)]
  | range :: rest => if range.1 ≤ e then absorb s (max e range.2) rest else (s, e) :: range :: rest

@[simp]
theorem covers_nil (p : α) : ¬ Covers ([] : List (α × α)) p := by
  simp [Covers]

@[simp]
theorem covers_cons (range : α × α) (rest : List (α × α)) (p : α) :
    Covers (range :: rest) p ↔ (range.1 ≤ p ∧ p < range.2) ∨ Covers rest p := by
  simp [Covers]

@[simp]
theorem covers_append (left right : List (α × α)) (p : α) :
    Covers (left ++ right) p ↔ Covers left p ∨ Covers right p := by
  simp [Covers, or_and_right, exists_or]

theorem Separated.spaced {ranges : List (α × α)} (hsep : Separated ranges) : Spaced ranges :=
  ⟨fun range hrange => (hsep.nonempty range hrange).le, hsep.gaps⟩

theorem Spaced.separated {ranges : List (α × α)} (hspaced : Spaced ranges)
    (hne : ∀ range ∈ ranges, range.1 < range.2) : Separated ranges :=
  ⟨hne, hspaced.gaps⟩

theorem spaced_nil : Spaced ([] : List (α × α)) :=
  ⟨by simp, .nil⟩

theorem spaced_cons {range : α × α} {rest : List (α × α)} :
    Spaced (range :: rest) ↔
      range.1 ≤ range.2 ∧ (∀ later ∈ rest, range.2 < later.1) ∧ Spaced rest := by
  simp only [spaced_iff, List.forall_mem_cons, List.pairwise_cons]
  tauto

theorem spaced_append {left right : List (α × α)} :
    Spaced (left ++ right) ↔ Spaced left ∧ Spaced right ∧ ∀ a ∈ left, ∀ b ∈ right, a.2 < b.1 := by
  simp only [spaced_iff, List.forall_mem_append, List.pairwise_append]
  tauto

theorem separated_nil : Separated ([] : List (α × α)) :=
  ⟨by simp, .nil⟩

theorem separated_cons {range : α × α} {rest : List (α × α)} :
    Separated (range :: rest) ↔
      range.1 < range.2 ∧ (∀ later ∈ rest, range.2 < later.1) ∧ Separated rest := by
  simp only [separated_iff, List.forall_mem_cons, List.pairwise_cons]
  tauto

theorem Separated.sublist {ranges kept : List (α × α)} (hsep : Separated ranges)
    (hkept : kept.Sublist ranges) : Separated kept :=
  ⟨fun range hrange => hsep.nonempty range (hkept.subset hrange), hsep.gaps.sublist hkept⟩

theorem separated_append {left right : List (α × α)} :
    Separated (left ++ right) ↔ Separated left ∧ Separated right ∧
      ∀ a ∈ left, ∀ b ∈ right, a.2 < b.1 := by
  simp only [separated_iff, List.forall_mem_append, List.pairwise_append]
  tauto

theorem absorb_eq_cons (s e : α) (rest : List (α × α)) :
    ∃ e' kept, absorb s e rest = (s, e') :: kept ∧ e ≤ e' ∧ kept.Sublist rest := by
  induction rest generalizing e with
  | nil => exact ⟨e, [], rfl, le_refl e, .slnil⟩
  | cons range rest ih =>
      rw [absorb]
      split
      · obtain ⟨e', kept, heq, hle, hkept⟩ := ih (max e range.2)
        exact ⟨e', kept, heq, le_trans (le_max_left _ _) hle, hkept.cons _⟩
      · exact ⟨e, range :: rest, rfl, le_refl e, List.Sublist.refl _⟩

theorem mem_absorb_le {s e hi : α} (he : e ≤ hi) {rest : List (α × α)}
    (hrest : ∀ range ∈ rest, range.2 ≤ hi) : ∀ range ∈ absorb s e rest, range.2 ≤ hi := by
  induction rest generalizing e with
  | nil => simpa [absorb] using he
  | cons range rest ih =>
      rw [absorb]
      split
      · exact ih (max_le he (hrest range (by simp))) (fun r hr => hrest r (by simp [hr]))
      · intro r hr
        rcases List.mem_cons.mp hr with rfl | hr
        · exact he
        · exact hrest r hr

theorem exists_split (s : α) {ranges : List (α × α)} (hspaced : Spaced ranges) :
    ∃ before after, ranges = before ++ after ∧ (∀ range ∈ before, range.1 ≤ s) ∧
      ∀ range ∈ after, s < range.1 := by
  induction ranges with
  | nil => exact ⟨[], [], rfl, by simp, by simp⟩
  | cons range rest ih =>
      obtain ⟨hle, hgap, hspaced'⟩ := spaced_cons.mp hspaced
      rcases le_or_gt range.1 s with hstart | hgt
      · obtain ⟨before, after, rfl, hbefore, hafter⟩ := ih hspaced'
        refine ⟨range :: before, after, rfl, fun r hr => ?_, hafter⟩
        rcases List.mem_cons.mp hr with rfl | hr
        · exact hstart
        · exact hbefore r hr
      · refine ⟨[], range :: rest, rfl, by simp, fun r hr => ?_⟩
        rcases List.mem_cons.mp hr with rfl | hr
        · exact hgt
        · exact hgt.trans (hle.trans_lt (hgap r hr))

theorem spaced_absorb {s e : α} (hse : s ≤ e) {rest : List (α × α)} (hrest : Spaced rest) :
    Spaced (absorb s e rest) := by
  induction rest generalizing e with
  | nil => exact spaced_cons.mpr ⟨hse, by simp, spaced_nil⟩
  | cons range rest ih =>
      obtain ⟨hrange, hgap, hspaced⟩ := spaced_cons.mp hrest
      rw [absorb]
      split
      · exact ih (hse.trans (le_max_left _ _)) hspaced
      · rename_i hgt
        refine spaced_cons.mpr ⟨hse, fun later hlater => ?_, hrest⟩
        rcases List.mem_cons.mp hlater with rfl | hlater
        · exact not_le.mp hgt
        · exact (not_le.mp hgt).trans (hrange.trans_lt (hgap later hlater))

theorem absorb_nonempty {s e : α} (hlt : s < e) {rest : List (α × α)}
    (hrest : ∀ range ∈ rest, range.1 < range.2) : ∀ range ∈ absorb s e rest, range.1 < range.2 := by
  intro range hrange
  obtain ⟨e', kept, heq, hle, hkept⟩ := absorb_eq_cons s e rest
  rw [heq] at hrange
  rcases List.mem_cons.mp hrange with rfl | hrange
  · exact hlt.trans_le hle
  · exact hrest range (hkept.subset hrange)

theorem covers_absorb {s e : α} {rest : List (α × α)} (hs : ∀ range ∈ rest, s ≤ range.1)
    (p : α) : Covers (absorb s e rest) p ↔ (s ≤ p ∧ p < e) ∨ Covers rest p := by
  induction rest generalizing e with
  | nil => simp [absorb]
  | cons range rest ih =>
      have hstart := hs range (by simp)
      rw [absorb]
      split
      · rename_i hle
        rw [ih (fun r hr => hs r (by simp [hr])), covers_cons, ← or_assoc]
        refine or_congr_left ?_
        rw [lt_max_iff]
        constructor
        · rintro ⟨hsp, hpe | hpe⟩
          · exact Or.inl ⟨hsp, hpe⟩
          · rcases lt_or_ge p e with hlt | hge
            · exact Or.inl ⟨hsp, hlt⟩
            · exact Or.inr ⟨hle.trans hge, hpe⟩
        · rintro (⟨hsp, hpe⟩ | ⟨hsp, hpe⟩)
          · exact ⟨hsp, Or.inl hpe⟩
          · exact ⟨hstart.trans hsp, Or.inr hpe⟩
      · rw [covers_cons]

theorem spaced_append_absorb {before after : List (α × α)} {s e : α}
    (hspaced : Spaced (before ++ after)) (hse : s ≤ e)
    (hbefore : ∀ range ∈ before, range.2 < s) : Spaced (before ++ absorb s e after) := by
  obtain ⟨hleft, hright, hacross⟩ := spaced_append.mp hspaced
  refine spaced_append.mpr ⟨hleft, spaced_absorb hse hright, fun a ha b hb => ?_⟩
  obtain ⟨e', kept, heq, -, hkept⟩ := absorb_eq_cons s e after
  rw [heq] at hb
  rcases List.mem_cons.mp hb with rfl | hb
  · exact hbefore a ha
  · exact hacross a ha b (hkept.subset hb)

theorem spaced_extend {before after : List (α × α)} {last : α × α} {e : α}
    (hspaced : Spaced (before ++ last :: after)) (hle : last.1 ≤ e) :
    Spaced (before ++ absorb last.1 e after) := by
  obtain ⟨hleft, hright, hacross⟩ := spaced_append.mp hspaced
  have hrest := (spaced_cons.mp hright).2.2
  refine spaced_append_absorb (spaced_append.mpr ⟨hleft, hrest, fun a ha b hb => ?_⟩) hle
    (fun range hrange => hacross range hrange last (by simp))
  exact hacross a ha b (by simp [hb])

theorem append_absorb_nonempty {before after : List (α × α)} {s e : α} (hlt : s < e)
    (hbefore : ∀ range ∈ before, range.1 < range.2) (hafter : ∀ range ∈ after, range.1 < range.2) :
    ∀ range ∈ before ++ absorb s e after, range.1 < range.2 := by
  exact List.forall_mem_append.mpr ⟨hbefore, absorb_nonempty hlt hafter⟩

theorem separated_append_absorb {before after : List (α × α)} {s e : α}
    (hsep : Separated (before ++ after)) (hlt : s < e)
    (hbefore : ∀ range ∈ before, range.2 < s) : Separated (before ++ absorb s e after) :=
  (spaced_append_absorb hsep.spaced hlt.le hbefore).separated
    (append_absorb_nonempty hlt (fun r hr => hsep.nonempty r (by simp [hr]))
      (fun r hr => hsep.nonempty r (by simp [hr])))

theorem separated_extend {before after : List (α × α)} {last : α × α} {e : α}
    (hsep : Separated (before ++ last :: after)) (hlt : last.1 < e) :
    Separated (before ++ absorb last.1 e after) :=
  (spaced_extend hsep.spaced hlt.le).separated
    (append_absorb_nonempty hlt (fun r hr => hsep.nonempty r (by simp [hr]))
      (fun r hr => hsep.nonempty r (by simp [hr])))

theorem covers_append_absorb {before after : List (α × α)} {s e : α}
    (hafter : ∀ range ∈ after, s ≤ range.1) (p : α) :
    Covers (before ++ absorb s e after) p ↔ Covers (before ++ after) p ∨ (s ≤ p ∧ p < e) := by
  rw [covers_append, covers_absorb hafter, covers_append]
  tauto

theorem covers_extend {before after : List (α × α)} {last : α × α} {s e : α}
    (hafter : ∀ range ∈ after, last.1 ≤ range.1) (hstart : last.1 ≤ s) (hin : s ≤ last.2)
    (hlt : last.2 ≤ e) (p : α) :
    Covers (before ++ absorb last.1 e after) p ↔
      Covers (before ++ last :: after) p ∨ (s ≤ p ∧ p < e) := by
  rw [covers_append, covers_absorb hafter, covers_append, covers_cons]
  constructor
  · rintro (hp | ⟨hp, hpe⟩ | hp)
    · exact Or.inl (Or.inl hp)
    · rcases lt_or_ge p last.2 with hin' | hge
      · exact Or.inl (Or.inr (Or.inl ⟨hp, hin'⟩))
      · exact Or.inr ⟨hin.trans hge, hpe⟩
    · exact Or.inl (Or.inr (Or.inr hp))
  · rintro ((hp | ⟨hp, hpe⟩ | hp) | ⟨hp, hpe⟩)
    · exact Or.inl hp
    · exact Or.inr (Or.inl ⟨hp, hpe.trans_le hlt⟩)
    · exact Or.inr (Or.inr hp)
    · exact Or.inr (Or.inl ⟨hstart.trans hp, hpe⟩)

theorem Separated.eq_of_end {ranges : List (α × α)} (hsep : Separated ranges) {a b : α × α}
    (ha : a ∈ ranges) (hb : b ∈ ranges) (hend : a.2 = b.2) : a = b := by
  obtain ⟨before, after, rfl⟩ := List.append_of_mem ha
  obtain ⟨-, hright, hacross⟩ := separated_append.mp hsep
  have hlt := hsep.nonempty a ha
  have hlt' := hsep.nonempty b hb
  rcases List.mem_append.mp hb with hb | hb
  · exact absurd (hacross b hb a (by simp)) (not_lt.mpr (hend ▸ hlt.le))
  · rcases List.mem_cons.mp hb with rfl | hb
    · rfl
    · exact absurd ((separated_cons.mp hright).2.1 b hb) (not_lt.mpr (hend ▸ hlt'.le))

theorem exists_covering {ranges : List (α × α)} (hspaced : Spaced ranges) {s e : α} (hse : s < e)
    (hcovers : ∀ p, s ≤ p → p < e → Covers ranges p) :
    ∃ range ∈ ranges, range.1 ≤ s ∧ e ≤ range.2 := by
  obtain ⟨range, hrange, hstart, hlt⟩ := hcovers s le_rfl hse
  refine ⟨range, hrange, hstart, not_lt.mp fun hend => ?_⟩
  -- the point at the end of that interval would be in another one
  obtain ⟨other, hother, hle, hlt'⟩ := hcovers range.2 hlt.le hend
  obtain ⟨before, after, rfl⟩ := List.append_of_mem hrange
  obtain ⟨-, hright, hacross⟩ := spaced_append.mp hspaced
  rcases List.mem_append.mp hother with hother | hother
  · exact lt_irrefl _ (hlt'.trans ((hacross other hother range (by simp)).trans (hstart.trans_lt hlt)))
  · rcases List.mem_cons.mp hother with rfl | hother
    · exact lt_irrefl _ hlt'
    · exact absurd hle (not_le.mpr ((spaced_cons.mp hright).2.1 other hother))

end Intervals

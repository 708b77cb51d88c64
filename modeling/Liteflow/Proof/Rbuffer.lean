import Liteflow.Lib.Intervals
import Liteflow.Proof.Wire

/-!
# The buffer is a sparse byte window

A buffer represents a partial map from stream positions to bytes. Its domain lies in the window, the
range map holds the maximal intervals of the domain, and every position of the domain is in an
allocated block that holds its byte. Writing adds the positions of the data, releasing removes the
positions before the new start.
-/

namespace Liteflow

open Intervals

def wireRanges (ranges : List (Nat × Nat)) : List (U32 × U32) :=
  ranges.map (fun range => (wire range.1, wire range.2))

@[simp]
theorem wireRanges_nil : wireRanges [] = [] := rfl

@[simp]
theorem wireRanges_cons (range : Nat × Nat) (rest : List (Nat × Nat)) :
    wireRanges (range :: rest) = (wire range.1, wire range.2) :: wireRanges rest := rfl

@[simp]
theorem wireRanges_append (left right : List (Nat × Nat)) :
    wireRanges (left ++ right) = wireRanges left ++ wireRanges right :=
  List.map_append

namespace Rbuf

/-! ### The range map -/

theorem keysBefore_wireRanges (lo : Nat) {k : Nat} {ranges : List (Nat × Nat)}
    (hranges : ∀ range ∈ ranges, lo ≤ range.1 ∧ range.1 < k) (hspan : k < lo + 2 ^ 31) :
    KeysBefore k (wireRanges ranges) := by
  intro entry hentry
  obtain ⟨range, hrange, rfl⟩ := List.mem_map.mp hentry
  obtain ⟨hlo, hlt⟩ := hranges range hrange
  exact ⟨range.1, rfl, hlt, by omega⟩

theorem keysAfter_wireRanges (hi : Nat) {k : Nat} {ranges : List (Nat × Nat)}
    (hranges : ∀ range ∈ ranges, k < range.1 ∧ range.1 ≤ hi) (hspan : hi < k + 2 ^ 31) :
    KeysAfter k (wireRanges ranges) := by
  intro entry hentry
  obtain ⟨range, hrange, rfl⟩ := List.mem_map.mp hentry
  obtain ⟨hlt, hhi⟩ := hranges range hrange
  exact ⟨range.1, rfl, hlt, by omega⟩

section Ranges

variable {lo hi : Nat} (hspan : hi < lo + 2 ^ 31)

include hspan

theorem rangeAt_eq_getLast {ranges : Treemap U32 U32} {before after : List (Nat × Nat)} {p : Nat}
    (hlist : ranges.toList = wireRanges (before ++ after))
    (hbefore : ∀ range ∈ before, lo ≤ range.1 ∧ range.1 ≤ p)
    (hafter : ∀ range ∈ after, p < range.1 ∧ range.1 ≤ hi) (hp : lo ≤ p ∧ p ≤ hi) :
    rangeAt ranges (wire p) = (wireRanges before).getLast? := by
  refine rangeAt_wire hspan (hlist.trans (wireRanges_append _ _)) (fun entry hentry => ?_)
    (fun entry hentry => ?_) hp
  · obtain ⟨range, hrange, rfl⟩ := List.mem_map.mp hentry
    exact ⟨range.1, rfl, hbefore range hrange⟩
  · obtain ⟨range, hrange, rfl⟩ := List.mem_map.mp hentry
    exact ⟨range.1, rfl, hafter range hrange⟩

theorem mergeSuccessors_toList {s : Nat} {before : List (Nat × Nat)} (hs : lo ≤ s)
    (hbefore : ∀ range ∈ before, lo ≤ range.1 ∧ range.1 < s) :
    ∀ (after : List (Nat × Nat)) {fuel e : Nat} {ranges : Treemap U32 U32}, after.length ≤ fuel →
    ranges.Balanced → ranges.toList = wireRanges (before ++ (s, e) :: after) → Spaced after →
    (∀ range ∈ after, s < range.1 ∧ range.2 ≤ hi) → s ≤ e → e ≤ hi →
    (mergeSuccessors fuel ranges (wire s)).Balanced ∧
      (mergeSuccessors fuel ranges (wire s)).toList = wireRanges (before ++ absorb s e after) := by
  intro after
  induction after with
  | nil =>
      intro fuel e ranges _ hbal hlist _ _ hse he
      rw [wireRanges_append, wireRanges_cons, wireRanges_nil] at hlist
      have hkeys : KeysBefore s (wireRanges before) := keysBefore_wireRanges lo hbefore (by omega)
      have hnext : ranges.treemapNext (wire s) = none := Treemap.treemapNext_eq hlist hkeys.ne
      cases fuel with
      | zero => exact ⟨hbal, by simpa [mergeSuccessors, absorb] using hlist⟩
      | succ fuel => simpa [mergeSuccessors, hnext, absorb, hlist] using hbal
  | cons range rest ih =>
      intro fuel e ranges hfuel hbal hlist hspaced hrest hse he
      obtain ⟨fuel, rfl⟩ : ∃ n, fuel = n + 1 := ⟨fuel - 1, by simp at hfuel; omega⟩
      obtain ⟨hle, hgap, hspaced'⟩ := spaced_cons.mp hspaced
      obtain ⟨hsr, hrhi⟩ := hrest range (by simp)
      have hlist' := hlist
      rw [wireRanges_append, wireRanges_cons, wireRanges_cons] at hlist'
      have hkeys : KeysBefore s (wireRanges before) := keysBefore_wireRanges lo hbefore (by omega)
      have hnext := Treemap.treemapNext_eq hlist' hkeys.ne
      have hvalue := treemapValue_wire hlist' hkeys
      rw [List.head?_cons] at hnext
      have hstart := lessEqual_wire (m := range.1) (n := e) (by omega) (by omega)
      have hend := lessEqual_wire (m := e) (n := range.2) (by omega) (by omega)
      simp only [mergeSuccessors, hvalue, hnext, hstart, hend, absorb]
      split
      · -- the two ranges become one
        have hothers : ∀ r ∈ range :: rest, s < r.1 ∧ r.1 ≤ hi := fun r hr => by
          have := hrest r hr
          have := hspaced.ordered r hr
          omega
        obtain ⟨extended, hext⟩ : ∃ extended, extended = (if e ≤ range.2 then
            ranges.treemapSetValue (wire s) (fun _ => wire range.2) else ranges) := ⟨_, rfl⟩
        rw [← hext]
        have hextBal : extended.Balanced := by
          rw [hext]
          split
          · exact hbal.treemapSetValue _ _
          · exact hbal
        have hextList : extended.toList =
            wireRanges (before ++ [(s, max e range.2)]) ++
              ([(wire range.1, wire range.2)] ++ wireRanges rest) := by
          rw [hext]
          split
          · rename_i hmax
            rw [max_eq_right hmax]
            refine (treemapSetValue_wire _ hlist' hkeys ?_).trans (by simp)
            exact keysAfter_wireRanges hi hothers (by omega)
          · rw [hlist', max_eq_left (by omega)]
            simp
        have hloc : Treemap.Located seqCmp (wire range.1)
            (wireRanges (before ++ [(s, max e range.2)])) [(wire range.1, wire range.2)]
            (wireRanges rest) := by
          refine located_hit (keysBefore_wireRanges lo (fun r hr => ?_) (by omega))
            (keysAfter_wireRanges hi (fun r hr => ?_) (by omega)) _
          · rcases List.mem_append.mp hr with hr | hr
            · have := hbefore r hr
              omega
            · rw [List.mem_singleton.mp hr]
              exact ⟨hs, hsr⟩
          · have := hgap r hr
            have := hothers r (by simp [hr])
            omega
        obtain ⟨hdel, hdelBal⟩ := Treemap.treemapDelete_spec hextBal hloc hextList
        refine ih (by simpa using hfuel) hdelBal ?_ hspaced' (fun r hr => hrest r (by simp [hr]))
          (le_trans hse (le_max_left _ _)) (max_le he hrhi)
        rw [hdel.toList_eq]
        simp
      · exact ⟨hbal, hlist⟩

omit hspan in
theorem absorb_bounds {before after : List (Nat × Nat)} {s e : Nat}
    (hbefore : ∀ range ∈ before, lo ≤ range.1 ∧ range.2 ≤ hi)
    (hafter : ∀ range ∈ after, lo ≤ range.1 ∧ range.2 ≤ hi) (hs : lo ≤ s) (he : e ≤ hi) :
    ∀ range ∈ before ++ absorb s e after, lo ≤ range.1 ∧ range.2 ≤ hi := by
  intro range hrange
  rcases List.mem_append.mp hrange with hrange | hrange
  · exact hbefore range hrange
  · refine ⟨?_, mem_absorb_le he (fun r hr => (hafter r hr).2) range hrange⟩
    obtain ⟨e', kept, heq, -, hkept⟩ := absorb_eq_cons s e after
    rw [heq] at hrange
    rcases List.mem_cons.mp hrange with rfl | hrange
    · exact hs
    · exact (hafter range (hkept.subset hrange)).1

def mergedRanges (it : U32) (tree : Treemap U32 U32) : Treemap U32 U32 :=
  mergeSuccessors tree.treemapSize tree it

def Added (lo hi : Nat) (ranges : List (Nat × Nat)) (s e : Nat) (tree : Treemap U32 U32) : Prop :=
  tree.Balanced ∧ ∃ ranges', tree.toList = wireRanges ranges' ∧ Separated ranges' ∧
    (∀ range ∈ ranges', lo ≤ range.1 ∧ range.2 ≤ hi) ∧
    ∀ p, Covers ranges' p ↔ Covers ranges p ∨ (s ≤ p ∧ p < e)

structure Widens (lo hi : Nat) (ranges : List (Nat × Nat)) (s e : Nat) (tree : Treemap U32 U32)
    (ranges' : List (Nat × Nat)) : Prop where
  balanced : tree.Balanced
  toList_eq : tree.toList = wireRanges ranges'
  spaced : Spaced ranges'
  nonempty : (∀ range ∈ ranges, range.1 < range.2) → s < e → ∀ range ∈ ranges', range.1 < range.2
  inside : ∀ range ∈ ranges', lo ≤ range.1 ∧ range.2 ≤ hi
  covers : ∀ p, Covers ranges' p ↔ Covers ranges p ∨ (s ≤ p ∧ p < e)

omit hspan in
theorem Widens.added {ranges ranges' : List (Nat × Nat)} {s e : Nat} {tree : Treemap U32 U32}
    (hwidens : Widens lo hi ranges s e tree ranges') (hsep : Separated ranges) (hse : s < e) :
    Added lo hi ranges s e tree :=
  ⟨hwidens.balanced, ranges', hwidens.toList_eq,
    hwidens.spaced.separated (hwidens.nonempty hsep.nonempty hse), hwidens.inside, hwidens.covers⟩

theorem mergedRanges_toList {before after : List (Nat × Nat)} {s e : Nat} {tree : Treemap U32 U32}
    (hbefore : ∀ range ∈ before, lo ≤ range.1 ∧ range.1 < s)
    (hafter : ∀ range ∈ after, s < range.1 ∧ range.2 ≤ hi) (hspaced : Spaced after)
    (hs : lo ≤ s) (hse : s ≤ e) (he : e ≤ hi) (hbal : tree.Balanced)
    (hlist : tree.toList = wireRanges (before ++ (s, e) :: after)) :
    (mergedRanges (wire s) tree).Balanced ∧
      (mergedRanges (wire s) tree).toList = wireRanges (before ++ absorb s e after) := by
  refine mergeSuccessors_toList hspan hs hbefore after ?_ hbal hlist hspaced hafter hse he
  simp only [Treemap.treemapSize, hlist, wireRanges, List.length_map, List.length_append,
    List.length_cons]
  omega

section Insert

variable {before after : List (Nat × Nat)} {tree : Treemap U32 U32} {s e : Nat}
  (hbal : tree.Balanced) (hse : s ≤ e) (hhi : e ≤ hi)

include hbal hse hhi

theorem widens_new (hlo : lo ≤ s) (hlist : tree.toList = wireRanges (before ++ after))
    (hspaced : Spaced (before ++ after))
    (hin : ∀ range ∈ before ++ after, lo ≤ range.1 ∧ range.2 ≤ hi)
    (hbefore : ∀ range ∈ before, range.2 < s) (hafter : ∀ range ∈ after, s < range.1) :
    (tree.treemapInsert seqCmp (wire s) (wire e)).1 = 0 ∧
      Widens lo hi (before ++ after) s e
        (mergedRanges (wire s) (tree.treemapInsert seqCmp (wire s) (wire e)).2)
        (before ++ absorb s e after) := by
  have hstarts : ∀ range ∈ before, lo ≤ range.1 ∧ range.1 < s := fun r hr => by
    have := hbefore r hr
    have := hspaced.ordered r (by simp [hr])
    exact ⟨(hin r (by simp [hr])).1, by omega⟩
  have hends : ∀ range ∈ after, s < range.1 ∧ range.1 ≤ hi := fun r hr => by
    have := hspaced.ordered r (by simp [hr])
    have := (hin r (by simp [hr])).2
    exact ⟨hafter r hr, by omega⟩
  obtain ⟨hret, hbal', hlist'⟩ := Treemap.treemapInsert_new (wire e) hbal
    (splits_wire (keysBefore_wireRanges lo hstarts (by omega))
      (keysAfter_wireRanges hi hends (by omega))) (hlist.trans (wireRanges_append _ _))
  obtain ⟨hmbal, hmlist⟩ := mergedRanges_toList hspan hstarts
    (fun r hr => ⟨hafter r hr, (hin r (by simp [hr])).2⟩) (spaced_append.mp hspaced).2.1 hlo
    hse hhi hbal' (by rw [hlist']; simp)
  exact ⟨hret, hmbal, hmlist, spaced_append_absorb hspaced hse hbefore,
    fun hne hlt => append_absorb_nonempty hlt (fun r hr => hne r (by simp [hr]))
      (fun r hr => hne r (by simp [hr])),
    absorb_bounds (fun r hr => hin r (by simp [hr])) (fun r hr => hin r (by simp [hr])) hlo hhi,
    covers_append_absorb (fun r hr => (hafter r hr).le)⟩

omit hse in
theorem widens_extend {last : Nat × Nat}
    (hlist : tree.toList = wireRanges (before ++ last :: after))
    (hspaced : Spaced (before ++ last :: after))
    (hin : ∀ range ∈ before ++ last :: after, lo ≤ range.1 ∧ range.2 ≤ hi)
    (hstart : last.1 ≤ s) (hlast : s ≤ last.2) (hpast : last.2 < e) :
    Widens lo hi (before ++ last :: after) s e
      (mergedRanges (wire last.1) (tree.treemapSetValue (wire last.1) (fun _ => wire e)))
      (before ++ absorb last.1 e after) := by
  obtain ⟨-, hright, hacross⟩ := spaced_append.mp hspaced
  obtain ⟨hle, hgap, hspacedAfter⟩ := spaced_cons.mp hright
  obtain ⟨hlastLo, hlastHi⟩ := hin last (by simp)
  have hstarts : ∀ range ∈ before, lo ≤ range.1 ∧ range.1 < last.1 := fun r hr => by
    have := hacross r hr last (by simp)
    have := hspaced.ordered r (by simp [hr])
    exact ⟨(hin r (by simp [hr])).1, by omega⟩
  have hends : ∀ range ∈ after, last.1 < range.1 ∧ range.1 ≤ hi ∧ range.2 ≤ hi := fun r hr => by
    have := hgap r hr
    have := hspaced.ordered r (by simp [hr])
    have := (hin r (by simp [hr])).2
    omega
  have hlist' := treemapSetValue_wire (fun _ => wire e)
    (hlist.trans ((wireRanges_append _ _).trans (congrArg _ (wireRanges_cons _ _))))
    (keysBefore_wireRanges lo hstarts (by omega))
    (keysAfter_wireRanges hi (fun r hr => ⟨(hends r hr).1, (hends r hr).2.1⟩) (by omega))
  obtain ⟨hmbal, hmlist⟩ := mergedRanges_toList hspan hstarts
    (fun r hr => ⟨(hends r hr).1, (hends r hr).2.2⟩) hspacedAfter hlastLo (by omega) hhi
    (hbal.treemapSetValue (wire last.1) (fun _ => wire e)) (by rw [hlist']; simp)
  exact ⟨hmbal, hmlist, spaced_extend hspaced (by omega),
    fun hne _ => append_absorb_nonempty (by omega) (fun r hr => hne r (by simp [hr]))
      (fun r hr => hne r (by simp [hr])),
    absorb_bounds (fun r hr => hin r (by simp [hr])) (fun r hr => hin r (by simp [hr])) hlastLo hhi,
    covers_extend (fun r hr => (hends r hr).1.le) hstart hlast hpast.le⟩

omit hbal hse hhi in
theorem rangeAt_split (hs : lo ≤ s ∧ s ≤ hi) (hlist : tree.toList = wireRanges (before ++ after))
    (hspaced : Spaced (before ++ after))
    (hin : ∀ range ∈ before ++ after, lo ≤ range.1 ∧ range.2 ≤ hi)
    (hbefore : ∀ range ∈ before, range.1 ≤ s) (hafter : ∀ range ∈ after, s < range.1) :
    rangeAt tree (wire s) = (wireRanges before).getLast? :=
  rangeAt_eq_getLast hspan hlist (fun r hr => ⟨(hin r (by simp [hr])).1, hbefore r hr⟩)
    (fun r hr => ⟨hafter r hr, (hspaced.ordered r (by simp [hr])).trans (hin r (by simp [hr])).2⟩) hs

theorem insertRange_widens {ranges : List (Nat × Nat)} (hlo : lo ≤ s)
    (hlist : tree.toList = wireRanges ranges) (hspaced : Spaced ranges)
    (hin : ∀ range ∈ ranges, lo ≤ range.1 ∧ range.2 ≤ hi) :
    (insertRange true tree (wire s) (wire e) = .error 1 ∧
        ∃ range ∈ ranges, range.1 ≤ s ∧ e ≤ range.2) ∨
      ∃ it tree' ranges', insertRange true tree (wire s) (wire e) = .ok (0, it, tree') ∧
        Widens lo hi ranges s e (mergedRanges it tree') ranges' := by
  obtain ⟨before, after, rfl, hbefore, hafter⟩ := exists_split s hspaced
  have hat := rangeAt_split hspan ⟨hlo, hse.trans hhi⟩ hlist hspaced hin hbefore hafter
  rcases List.eq_nil_or_concat' before with rfl | ⟨init, last, rfl⟩
  · obtain ⟨hret, hwidens⟩ := widens_new hspan hbal hse hhi hlo hlist hspaced hin (by simp) hafter
    refine Or.inr ⟨wire s, _, _, ?_, hwidens⟩
    simp only [insertRange, hat]
    simp [hret]
  · have hlastStart : last.1 ≤ s := hbefore last (by simp)
    obtain ⟨hlastLo, hlastHi⟩ := hin last (by simp)
    have hlastLe := hspaced.ordered last (by simp)
    have hdup := lessEqual_wire (m := e) (n := last.2) (by omega) (by omega)
    have hfrom := lessEqual_wire (m := last.1) (n := s) (by omega) (by omega)
    have hto := lessEqual_wire (m := s) (n := last.2) (by omega) (by omega)
    simp only [wireRanges_append, wireRanges_cons, wireRanges_nil, List.getLast?_append,
      List.getLast?_singleton, Option.some_or] at hat
    simp only [insertRange, hat, hdup, Bool.and_eq_true, hfrom, hto]
    split
    · rename_i hle
      exact Or.inl ⟨rfl, last, by simp, hlastStart, hle⟩
    · rename_i hpast
      split
      · rename_i hwithin
        have hsplit : (init ++ [last]) ++ after = init ++ last :: after := by simp
        rw [hsplit] at hlist hspaced hin ⊢
        exact Or.inr ⟨wire last.1, _, _, rfl, widens_extend hspan hbal hhi hlist hspaced hin
          hwithin.1 hwithin.2 (by omega)⟩
      · rename_i houtside
        have hgap : ∀ range ∈ init ++ [last], range.2 < s := fun r hr => by
          rcases List.mem_append.mp hr with hr | hr
          · have := (spaced_append.mp (spaced_append.mp hspaced).1).2.2 r hr last (by simp)
            omega
          · rw [List.mem_singleton.mp hr]
            omega
        obtain ⟨hret, hwidens⟩ :=
          widens_new hspan hbal hse hhi hlo hlist hspaced hin hgap hafter
        refine Or.inr ⟨wire s, _, _, ?_, hwidens⟩
        simp [hret]

omit hse in
theorem insertRange_spec (hlt : s < e) {ranges : List (Nat × Nat)} (hlo : lo ≤ s)
    (hlist : tree.toList = wireRanges ranges) (hsep : Separated ranges)
    (hin : ∀ range ∈ ranges, lo ≤ range.1 ∧ range.2 ≤ hi) :
    (insertRange true tree (wire s) (wire e) = .error 1 ∧
        ∀ p, s ≤ p → p < e → Covers ranges p) ∨
      ∃ it tree', insertRange true tree (wire s) (wire e) = .ok (0, it, tree') ∧
        Added lo hi ranges s e (mergedRanges it tree') := by
  rcases insertRange_widens hspan hbal hlt.le hhi hlo hlist hsep.spaced hin with
    ⟨hdup, range, hrange, hstart, hend⟩ | ⟨it, tree', ranges', hok, hwidens⟩
  · exact Or.inl ⟨hdup, fun p hp hpe => ⟨range, hrange, by omega, by omega⟩⟩
  · exact Or.inr ⟨it, tree', hok, hwidens.added hsep hlt⟩

omit hbal hse in
theorem insertRange_covered (hlt : s < e) {ranges : List (Nat × Nat)} (hlo : lo ≤ s)
    (hlist : tree.toList = wireRanges ranges) (hspaced : Spaced ranges)
    (hin : ∀ range ∈ ranges, lo ≤ range.1 ∧ range.2 ≤ hi)
    (hcovers : ∀ p, s ≤ p → p < e → Covers ranges p) (nodeAlloc : Bool) :
    insertRange nodeAlloc tree (wire s) (wire e) = .error 1 := by
  obtain ⟨range, hrange, hstart, hend⟩ := exists_covering hspaced hlt hcovers
  obtain ⟨before, after, rfl, hbefore, hafter⟩ := exists_split s hspaced
  have hat := rangeAt_split hspan ⟨hlo, hlt.le.trans hhi⟩ hlist hspaced hin hbefore hafter
  have hmem : range ∈ before := by
    refine (List.mem_append.mp hrange).resolve_right fun hr => ?_
    have := hafter range hr
    omega
  rcases List.eq_nil_or_concat' before with rfl | ⟨init, last, rfl⟩
  · exact absurd hmem (by simp)
  · have hlast : last.1 ≤ s := hbefore last (by simp)
    have hbounds := hin last (by simp)
    obtain rfl : range = last := by
      refine (List.mem_append.mp hmem).elim (fun hr => ?_) List.mem_singleton.mp
      have := (spaced_append.mp (spaced_append.mp hspaced).1).2.2 range hr last (by simp)
      omega
    have hdup := lessEqual_wire (m := e) (n := range.2) (by omega) (by omega)
    simp only [wireRanges_append, wireRanges_cons, wireRanges_nil, List.getLast?_append,
      List.getLast?_singleton, Option.some_or] at hat
    simp only [insertRange, hat, hdup]
    exact if_pos hend

end Insert

end Ranges

/-! ### The ring of blocks -/

/-- Where the ring ends: the first position that has no block. -/
def windowEnd (rb : Rbuf) (base : Nat) : Nat :=
  (base / rbufBlockSize + rb.blocksCount) * rbufBlockSize

structure Ring (rb : Rbuf) (base : Nat) : Prop where
  start : rb.startPos = wire base
  small : rb.blocksCount * rbufBlockSize < 2 ^ 31
  first : rb.startBlock < rb.blocksCount ∨ rb.blocksCount = 0 ∧ base = 0

def slot (rb : Rbuf) (base p : Nat) : Nat :=
  let id := rb.startBlock + (p / rbufBlockSize - base / rbufBlockSize)
  if id ≥ rb.blocksCount then id - rb.blocksCount else id

/-- The byte in the block of a position, if the block exists. -/
def cell (rb : Rbuf) (base p : Nat) : Option Byte :=
  (rb.blocks (rb.slot base p)).map (fun block => block (p % rbufBlockSize))

theorem offset_wire (p : Nat) : offset (wire p) = p % rbufBlockSize := by
  rw [offset, wire_toNat]
  exact Nat.mod_mod_of_dvd p (by decide)

section Ring

variable {rb : Rbuf} {base : Nat} (hring : Ring rb base)

include hring

theorem Ring.base_le_windowEnd : base ≤ rb.windowEnd base := by
  have hmod := Nat.mod_lt base (show rbufBlockSize > 0 by decide)
  have hdiv := Nat.div_add_mod base rbufBlockSize
  unfold windowEnd
  rcases hring.first with hfirst | ⟨-, hbase⟩
  · calc base ≤ (base / rbufBlockSize + 1) * rbufBlockSize := by
          rw [Nat.add_mul, Nat.mul_comm]
          omega
      _ ≤ (base / rbufBlockSize + rb.blocksCount) * rbufBlockSize :=
          Nat.mul_le_mul_right _ (by omega)
  · omega

theorem Ring.windowEnd_lt : rb.windowEnd base < base + 2 ^ 31 := by
  have hdiv := Nat.div_mul_le_self base rbufBlockSize
  have hsmall := hring.small
  rw [windowEnd, Nat.add_mul]
  omega

theorem Ring.windowSize_toNat : rb.windowSize.toNat = rb.windowEnd base - base := by
  have hle := hring.base_le_windowEnd
  have hsmall := hring.small
  have hdiv := Nat.div_add_mod base rbufBlockSize
  have hmod : base % rbufBlockSize ≤ rbufBlockSize * rb.blocksCount := by
    rw [windowEnd, Nat.add_mul, Nat.mul_comm] at hle
    rw [Nat.mul_comm rbufBlockSize]
    omega
  have hsize : rb.windowSize = wire (rbufBlockSize * rb.blocksCount) - wire (base % rbufBlockSize) := by
    rw [windowSize, hring.start, offset_wire]
    rfl
  rw [hsize, toNat_wire_sub hmod (by rw [Nat.mul_comm] at hsmall; omega), windowEnd, Nat.add_mul,
    Nat.mul_comm rbufBlockSize, Nat.mul_comm (base / rbufBlockSize)]
  omega

theorem Ring.blockOf_wire {p : Nat} (hbase : base ≤ p) (hp : p < rb.windowEnd base) :
    rb.blockOf (wire p) = rb.slot base p := by
  have hlt := hring.windowEnd_lt
  have hdist : p / rbufBlockSize < base / rbufBlockSize + rb.blocksCount :=
    (Nat.div_lt_iff_lt_mul (by decide)).mpr hp
  have hle : base / rbufBlockSize ≤ p / rbufBlockSize := Nat.div_le_div_right hbase
  have hmodp := Nat.mod_le p rbufBlockSize
  have hmodb := Nat.mod_le base rbufBlockSize
  have hdp := Nat.div_add_mod p rbufBlockSize
  have hdb := Nat.div_add_mod base rbufBlockSize
  have hfloor : base - base % rbufBlockSize ≤ p - p % rbufBlockSize := by
    have := Nat.mul_le_mul_left rbufBlockSize hle
    omega
  have hblock : ((wire p - wire (p % rbufBlockSize)) - (wire base - wire (base % rbufBlockSize))) =
      wire ((p - p % rbufBlockSize) - (base - base % rbufBlockSize)) := by
    rw [wire_sub hmodp, wire_sub hmodb, wire_sub hfloor]
  have hcount : ((p - p % rbufBlockSize) - (base - base % rbufBlockSize)) % 2 ^ 32 / rbufBlockSize =
      p / rbufBlockSize - base / rbufBlockSize := by
    rw [Nat.mod_eq_of_lt (by
      have := Nat.mod_lt base (show rbufBlockSize > 0 by decide)
      have : rbufBlockSize = 131072 := rfl
      omega)]
    have : (p - p % rbufBlockSize) - (base - base % rbufBlockSize) =
        rbufBlockSize * (p / rbufBlockSize - base / rbufBlockSize) := by
      rw [Nat.mul_sub]
      omega
    rw [this, Nat.mul_div_cancel_left _ (by decide)]
  have hblocks : ((wire p - BitVec.ofNat 32 (p % rbufBlockSize)) -
      (wire base - BitVec.ofNat 32 (base % rbufBlockSize))).toNat / rbufBlockSize =
      p / rbufBlockSize - base / rbufBlockSize := by
    change ((wire p - wire (p % rbufBlockSize)) -
      (wire base - wire (base % rbufBlockSize))).toNat / rbufBlockSize = _
    rw [hblock, wire_toNat, hcount]
  have hid : rb.getBlockId (wire p) = rb.slot base p := by
    simp only [getBlockId, slot, hring.start, offset_wire, hblocks]
  have hslot : rb.slot base p < rb.blocksCount := by
    unfold slot
    rcases hring.first with hfirst | ⟨hzero, -⟩
    · dsimp only
      split <;> omega
    · omega
  rw [blockOf, hid]
  exact if_neg (by omega)

end Ring

theorem slot_eq_iff {rb : Rbuf} {base p q : Nat} (hp : base ≤ p) (hp' : p < rb.windowEnd base)
    (hq : base ≤ q)
    (hq' : q < rb.windowEnd base) :
    rb.slot base p = rb.slot base q ↔ p / rbufBlockSize = q / rbufBlockSize := by
  have hdp : p / rbufBlockSize < base / rbufBlockSize + rb.blocksCount :=
    (Nat.div_lt_iff_lt_mul (by decide)).mpr hp'
  have hdq : q / rbufBlockSize < base / rbufBlockSize + rb.blocksCount :=
    (Nat.div_lt_iff_lt_mul (by decide)).mpr hq'
  have hlp : base / rbufBlockSize ≤ p / rbufBlockSize := Nat.div_le_div_right hp
  have hlq : base / rbufBlockSize ≤ q / rbufBlockSize := Nat.div_le_div_right hq
  constructor
  · intro heq
    simp only [slot] at heq
    split at heq <;> split at heq <;> omega
  · intro heq
    simp only [slot, heq]

def setBlock (rb : Rbuf) (id : Nat) (block : Block) : Rbuf :=
  { rb with blocks := Function.update rb.blocks id (some block) }

theorem cell_setBlock {rb : Rbuf} {base p q : Nat} (block : Block) (hp : base ≤ p)
    (hp' : p < rb.windowEnd base) (hq : base ≤ q) (hq' : q < rb.windowEnd base) :
    (rb.setBlock (rb.slot base p) block).cell base q =
      if q / rbufBlockSize = p / rbufBlockSize then some (block (q % rbufBlockSize))
      else rb.cell base q := by
  have hslot := slot_eq_iff hq hq' hp hp'
  change (Function.update rb.blocks (rb.slot base p) (some block) (rb.slot base q)).map _ = _
  rw [Function.update_apply]
  by_cases heq : q / rbufBlockSize = p / rbufBlockSize
  · rw [if_pos (hslot.mpr heq), if_pos heq]
    rfl
  · rw [if_neg (fun h => heq (hslot.mp h)), if_neg heq]
    rfl

theorem rbufBlockSize_eq : rbufBlockSize = 131072 := rfl

def chunk (p : Nat) (data : List Byte) : Nat :=
  min data.length (rbufBlockSize - p % rbufBlockSize)

theorem copyToBlocks_succ {alloc : Alloc} (halloc : alloc.Succeeds) (fuel attempt : Nat) {rb : Rbuf}
    {base p : Nat} (hblockOf : rb.blockOf (wire p) = rb.slot base p) {data : List Byte}
    (hdata : data ≠ []) :
    ∃ block attempt', (∀ old, rb.blocks (rb.slot base p) = some old → block = old) ∧
      copyToBlocks alloc (fuel + 1) attempt rb (wire p) data =
        copyToBlocks alloc fuel attempt'
          (rb.setBlock (rb.slot base p)
            (copyIn block (p % rbufBlockSize) (data.take (chunk p data))))
          (wire (p + chunk p data)) (data.drop (chunk p data)) := by
  obtain ⟨first, rest, rfl⟩ := List.exists_cons_of_ne_nil hdata
  rw [wire_add]
  cases hblock : rb.blocks (rb.slot base p) with
  | some old =>
      refine ⟨old, attempt, fun _ h => by simpa using h, ?_⟩
      simp only [copyToBlocks, hblockOf, hblock, offset_wire]
      rfl
  | none =>
      obtain ⟨fresh, hfresh⟩ := Option.isSome_iff_exists.mp (halloc.2 attempt)
      refine ⟨fresh, attempt + 1, by simp, ?_⟩
      simp only [copyToBlocks, hblockOf, hblock, hfresh, offset_wire]
      rfl

/-- What a copy of `data` to `p` does to the other positions: a byte that was there stays. -/
def Copied (rb : Rbuf) (base p : Nat) (data : List Byte) (rb' : Rbuf) : Prop :=
  ∀ q, base ≤ q → q < rb.windowEnd base →
    (p ≤ q → q < p + data.length → rb'.cell base q = data[q - p]?) ∧
    (q < p ∨ p + data.length ≤ q → ∀ byte, rb.cell base q = some byte →
      rb'.cell base q = some byte)

theorem copied_nil (rb : Rbuf) (base p : Nat) : Copied rb base p [] rb :=
  fun q _ _ => ⟨fun hle hlt => by simp at hlt; omega, fun _ _ h => h⟩

theorem Copied.trans {rb rb' rb'' : Rbuf} {base p n : Nat} {data : List Byte}
    (hfirst : Copied rb base p (data.take n) rb')
    (hrest : Copied rb' base (p + n) (data.drop n) rb'') (hn : n ≤ data.length)
    (hend : rb'.windowEnd base = rb.windowEnd base) : Copied rb base p data rb'' := by
  intro q hq hq'
  obtain ⟨hin, hout⟩ := hrest q hq (by rw [hend]; exact hq')
  obtain ⟨hin1, hout1⟩ := hfirst q hq hq'
  rw [List.length_drop] at hin hout
  rw [List.length_take, min_eq_left hn] at hin1 hout1
  constructor
  · intro hle hlt
    by_cases hlater : p + n ≤ q
    · rw [hin hlater (by omega), List.getElem?_drop]
      congr 1
      omega
    · have hbyte := hin1 hle (by omega)
      rw [List.getElem?_take_of_lt (by omega), List.getElem?_eq_getElem (by omega)] at hbyte
      rw [List.getElem?_eq_getElem (by omega)]
      exact hout (Or.inl (by omega)) _ hbyte
  · intro hqout byte hbyte
    exact hout (by omega) byte (hout1 (by omega) byte hbyte)

theorem copied_setBlock {rb : Rbuf} {base p : Nat} (data : List Byte) {block : Block}
    (hp : base ≤ p) (hp' : p < rb.windowEnd base)
    (hold : ∀ old, rb.blocks (rb.slot base p) = some old → block = old) :
    Copied rb base p (data.take (chunk p data))
      (rb.setBlock (rb.slot base p)
        (copyIn block (p % rbufBlockSize) (data.take (chunk p data)))) := by
  intro q hq hq'
  have hchunk : (data.take (chunk p data)).length = chunk p data := by
    rw [List.length_take, chunk]
    omega
  have hfits : chunk p data ≤ rbufBlockSize - p % rbufBlockSize := Nat.min_le_right _ _
  rw [cell_setBlock _ hp hp' hq hq', hchunk]
  rw [rbufBlockSize_eq] at hfits ⊢
  constructor
  · intro hle hlt
    have hblock : q / 131072 = p / 131072 := by omega
    have hoffset : q % 131072 - p % 131072 = q - p := by omega
    have hin : q - p < (data.take (chunk p data)).length := by omega
    rw [if_pos hblock, copyIn, if_pos (by omega), hoffset, List.getElem?_eq_getElem hin]
    rfl
  · intro hout byte hbyte
    split
    · rename_i hblock
      have hslot : rb.slot base q = rb.slot base p := (slot_eq_iff hq hq' hp hp').mpr hblock
      rw [cell, hslot] at hbyte
      obtain ⟨old, hexists, hvalue⟩ := Option.map_eq_some_iff.mp hbyte
      rw [hold old hexists, copyIn]
      split
      · rw [List.getElem?_eq_none (by omega)]
        exact congrArg some hvalue
      · exact congrArg some hvalue
    · exact hbyte

theorem copyToBlocks_spec {alloc : Alloc} (halloc : alloc.Succeeds) {base : Nat} :
    ∀ (fuel attempt : Nat) {p : Nat} {rb : Rbuf} {data : List Byte}, Ring rb base →
    data.length ≤ fuel → base ≤ p → p + data.length ≤ rb.windowEnd base →
    ∃ blocks, copyToBlocks alloc fuel attempt rb (wire p) data = (0, { rb with blocks := blocks }) ∧
      Copied rb base p data { rb with blocks := blocks } := by
  intro fuel
  induction fuel with
  | zero =>
      intro attempt p rb data hring hfuel hp hend
      obtain rfl : data = [] := List.length_eq_zero_iff.mp (by omega)
      exact ⟨rb.blocks, rfl, copied_nil rb base p⟩
  | succ fuel ih =>
      intro attempt p rb data hring hfuel hp hend
      by_cases hdata : data = []
      · subst hdata
        exact ⟨rb.blocks, rfl, copied_nil rb base p⟩
      have hlen : 0 < data.length := List.length_pos_of_ne_nil hdata
      have hp' : p < rb.windowEnd base := by omega
      have hchunk : 0 < chunk p data ∧ chunk p data ≤ data.length := by
        have := Nat.mod_lt p (show rbufBlockSize > 0 by decide)
        unfold chunk
        omega
      obtain ⟨block, attempt', hold, hstep⟩ :=
        copyToBlocks_succ halloc fuel attempt (hring.blockOf_wire hp hp') hdata
      have hring' : Ring (rb.setBlock (rb.slot base p)
          (copyIn block (p % rbufBlockSize) (data.take (chunk p data)))) base :=
        ⟨hring.start, hring.small, hring.first⟩
      have hrestLen : (data.drop (chunk p data)).length ≤ fuel := by
        rw [List.length_drop]
        omega
      obtain ⟨blocks, hrest, hcopied⟩ := ih attempt' hring' hrestLen
        (show base ≤ p + chunk p data by omega)
        (show _ ≤ rb.windowEnd base by rw [List.length_drop]; omega)
      exact ⟨blocks, hstep.trans hrest,
        (copied_setBlock data hp hp' hold).trans hcopied hchunk.2 rfl⟩

/-! ### The window -/

/-- The range map of the buffer has the positions of `ranges`, and its window starts at `base`. -/
structure Ranged (rb : Rbuf) (base : Nat) (ranges : List (Nat × Nat)) : Prop extends
    Ring rb base where
  balanced : rb.rangeMap.Balanced
  toList_eq : rb.rangeMap.toList = wireRanges ranges
  separated : Separated ranges
  inside : ∀ range ∈ ranges, base ≤ range.1 ∧ range.2 ≤ rb.windowEnd base

/-- The buffer holds the positions of `ranges`: there are blocks for all of them. -/
structure Holds (rb : Rbuf) (base : Nat) (ranges : List (Nat × Nat)) : Prop extends
    Ranged rb base ranges where
  allocated : ∀ p, Covers ranges p → (rb.cell base p).isSome

theorem holds_init {blocksCount : Nat} (hsmall : blocksCount * rbufBlockSize < 2 ^ 31) :
    Holds (init blocksCount) 0 [] where
  start := rfl
  small := hsmall
  first := by
    rcases Nat.eq_zero_or_pos blocksCount with hzero | hpos
    · exact Or.inr ⟨hzero, rfl⟩
    · exact Or.inl hpos
  balanced := Treemap.balanced_nil
  toList_eq := rfl
  separated := separated_nil
  inside := by simp
  allocated := by simp

/-- As `Ranged`, for ranges of which some may be empty: a write of no bytes leaves one. -/
structure Spans (rb : Rbuf) (base : Nat) (ranges : List (Nat × Nat)) : Prop extends
    Ring rb base where
  balanced : rb.rangeMap.Balanced
  toList_eq : rb.rangeMap.toList = wireRanges ranges
  spaced : Spaced ranges
  inside : ∀ range ∈ ranges, base ≤ range.1 ∧ range.2 ≤ rb.windowEnd base

theorem Ranged.spans {rb : Rbuf} {base : Nat} {ranges : List (Nat × Nat)}
    (hranged : Ranged rb base ranges) : Spans rb base ranges :=
  ⟨hranged.toRing, hranged.balanced, hranged.toList_eq, hranged.separated.spaced, hranged.inside⟩

theorem Spans.ranged {rb : Rbuf} {base : Nat} {ranges : List (Nat × Nat)}
    (hspans : Spans rb base ranges) (hne : ∀ range ∈ ranges, range.1 < range.2) :
    Ranged rb base ranges :=
  ⟨hspans.toRing, hspans.balanced, hspans.toList_eq, hspans.spaced.separated hne, hspans.inside⟩

section Ring

variable {rb : Rbuf} {base : Nat} (hring : Ring rb base)

include hring

theorem Ring.write_fits {p : Nat} {data : List Byte} (hp : base ≤ p)
    (hend : p + data.length ≤ rb.windowEnd base) :
    ¬ rb.windowSize < BitVec.ofNat 32 data.length ∧
      ¬ (rb.windowSize < wire p - rb.startPos ∨
        rb.windowSize < wire (p + data.length) - rb.startPos) := by
  have hsize := hring.windowSize_toNat
  have hspan := hring.windowEnd_lt
  constructor
  · rw [BitVec.lt_def, hsize, BitVec.toNat_ofNat, Nat.mod_eq_of_lt (by omega)]
    omega
  · simp only [BitVec.lt_def, hsize, hring.start]
    rw [toNat_wire_sub (by omega) (by omega), toNat_wire_sub (by omega) (by omega)]
    omega

theorem Ring.rbufWrite_refused (alloc : Alloc) {pos : U32} {data : List Byte}
    (hout : rb.windowEnd base < base + (pos - rb.startPos).toNat + data.length)
    (hlen : data.length < 2 ^ 32) : rb.rbufWrite alloc pos data = (rbufOutOfRange, rb) := by
  have hsize := hring.windowSize_toNat
  have hspan := hring.windowEnd_lt
  have hle := hring.base_le_windowEnd
  have hdata : (BitVec.ofNat 32 data.length).toNat = data.length :=
    (BitVec.toNat_ofNat _ _).trans (Nat.mod_eq_of_lt hlen)
  rw [rbufWrite]
  dsimp only
  split
  · rfl
  · rename_i hlong
    rw [BitVec.lt_def, hsize, hdata] at hlong
    refine if_pos ?_
    by_cases hpos : rb.windowSize < pos - rb.startPos
    · exact Or.inl hpos
    · right
      rw [BitVec.lt_def, hsize] at hpos
      have hfin : pos + BitVec.ofNat 32 data.length - rb.startPos =
          (pos - rb.startPos) + BitVec.ofNat 32 data.length := by
        rw [BitVec.sub_eq_add_neg, BitVec.sub_eq_add_neg, BitVec.add_assoc, BitVec.add_assoc,
          BitVec.add_comm (BitVec.ofNat 32 data.length)]
      rw [hfin, BitVec.lt_def, hsize, BitVec.toNat_add, hdata, Nat.mod_eq_of_lt (by omega)]
      omega

end Ring

theorem Spans.covers_bounds {rb : Rbuf} {base : Nat} {ranges : List (Nat × Nat)}
    (hspans : Spans rb base ranges) {p : Nat} (hp : Covers ranges p) :
    base ≤ p ∧ p < rb.windowEnd base := by
  obtain ⟨range, hrange, hle, hlt⟩ := hp
  have := hspans.inside range hrange
  omega

section Ranged

variable {rb : Rbuf} {base : Nat} {ranges : List (Nat × Nat)} (hranged : Ranged rb base ranges)

include hranged

theorem Ranged.covers_bounds {p : Nat} (hp : Covers ranges p) :
    base ≤ p ∧ p < rb.windowEnd base :=
  hranged.spans.covers_bounds hp

theorem Ranged.rbufWrite_covered (alloc : Alloc) {p : Nat} {data : List Byte}
    (hlen : 0 < data.length) (hp : base ≤ p) (hend : p + data.length ≤ rb.windowEnd base)
    (hcovers : ∀ q, p ≤ q → q < p + data.length → Covers ranges q) :
    rb.rbufWrite alloc (wire p) data = (1, rb) := by
  have hspan := hranged.windowEnd_lt
  have hfin : wire p + BitVec.ofNat 32 data.length = wire (p + data.length) := (wire_add _ _).symm
  obtain ⟨hfits, hwindow⟩ := hranged.write_fits hp hend
  have hdup := insertRange_covered hspan hend (show p < p + data.length by omega) hp
    hranged.toList_eq hranged.separated.spaced hranged.inside hcovers alloc.node
  simp only [rbufWrite, hfin, if_neg hfits, if_neg hwindow, hdup]

end Ranged

section Holds

variable {rb : Rbuf} {base : Nat} {ranges : List (Nat × Nat)} (hholds : Holds rb base ranges)

include hholds

theorem Holds.rbufWrite_inside {alloc : Alloc} (halloc : alloc.Succeeds) {p : Nat}
    {data : List Byte} (hlen : 0 < data.length) (hp : base ≤ p)
    (hend : p + data.length ≤ rb.windowEnd base) :
    (rb.rbufWrite alloc (wire p) data = (1, rb) ∧
        ∀ q, p ≤ q → q < p + data.length → Covers ranges q) ∨
      ∃ rb' ranges', rb.rbufWrite alloc (wire p) data = (0, rb') ∧ Holds rb' base ranges' ∧
        rb'.writePos = rb.writePos ∧ rb'.blocksCount = rb.blocksCount ∧
        (∀ q, Covers ranges' q ↔ Covers ranges q ∨ (p ≤ q ∧ q < p + data.length)) ∧
        Copied rb base p data rb' := by
  have hspan := hholds.windowEnd_lt
  have hfin : wire p + BitVec.ofNat 32 data.length = wire (p + data.length) := (wire_add _ _).symm
  obtain ⟨hfits, hwindow⟩ := hholds.write_fits hp hend
  rcases insertRange_spec hspan hholds.balanced hend (show p < p + data.length by omega) hp
    hholds.toList_eq hholds.separated hholds.inside with ⟨hdup, hcovers⟩ | ⟨it, tree, hok, hadded⟩
  · refine Or.inl ⟨?_, hcovers⟩
    simp only [rbufWrite, hfin, if_neg hfits, if_neg hwindow, halloc.1, hdup]
  · obtain ⟨hbal, ranges', hlist, hsep, hin, hcovers⟩ := hadded
    have hring : Ring { rb with rangeMap := mergedRanges it tree } base :=
      ⟨hholds.start, hholds.small, hholds.first⟩
    obtain ⟨blocks, hcopy, hcopied⟩ :=
      copyToBlocks_spec halloc data.length 0 hring le_rfl hp hend
    have hwrite : rb.rbufWrite alloc (wire p) data =
        (0, { rb with rangeMap := mergedRanges it tree, blocks := blocks }) := by
      rw [mergedRanges] at hcopy ⊢
      simp only [rbufWrite, hfin, if_neg hfits, if_neg hwindow, halloc.1, hok, hcopy]
      rfl
    refine Or.inr ⟨_, ranges', hwrite, ?_, rfl, rfl, hcovers, hcopied⟩
    refine ⟨⟨⟨hholds.start, hholds.small, hholds.first⟩, hbal, hlist, hsep, hin⟩, fun q hq => ?_⟩
    have hbounds : base ≤ q ∧ q < rb.windowEnd base := by
      rcases (hcovers q).mp hq with hq | hq
      · exact hholds.covers_bounds hq
      · omega
    obtain ⟨hnew, hkept⟩ := hcopied q hbounds.1 hbounds.2
    by_cases hdata : p ≤ q ∧ q < p + data.length
    · rw [hnew hdata.1 hdata.2, List.getElem?_eq_getElem (by omega)]
      rfl
    · obtain ⟨byte, hbyte⟩ := Option.isSome_iff_exists.mp
        (hholds.allocated q (((hcovers q).mp hq).resolve_right hdata))
      rw [hkept (by omega) byte hbyte]
      rfl

theorem Holds.copyFromBlocks_eq : ∀ (fuel : Nat) {p n : Nat}, n ≤ fuel →
    (∀ q, p ≤ q → q < p + n → Covers ranges q) →
    ∃ data, rb.copyFromBlocks fuel (wire p) n = some data ∧ data.length = n ∧
      ∀ i, i < n → data[i]? = rb.cell base (p + i) := by
  intro fuel
  induction fuel with
  | zero =>
      intro p n hfuel _
      exact ⟨[], rfl, by simp; omega, fun i hi => by omega⟩
  | succ fuel ih =>
      intro p n hfuel hcovers
      rcases Nat.eq_zero_or_pos n with rfl | hpos
      · exact ⟨[], by simp [copyFromBlocks], rfl, fun i hi => by omega⟩
      have hbounds := hholds.covers_bounds (hcovers p le_rfl (by omega))
      obtain ⟨byte, hbyte⟩ := Option.isSome_iff_exists.mp
        (hholds.allocated p (hcovers p le_rfl (by omega)))
      obtain ⟨block, hblock, -⟩ := Option.map_eq_some_iff.mp hbyte
      obtain ⟨size, hsize⟩ : ∃ size, size = min n (rbufBlockSize - p % rbufBlockSize) := ⟨_, rfl⟩
      have hmod := Nat.mod_lt p (show rbufBlockSize > 0 by decide)
      obtain ⟨rest, hread, hlen, hget⟩ := ih (p := p + size) (n := n - size) (by omega)
        (fun q hq hq' => hcovers q (by omega) (by omega))
      refine ⟨(List.range size).map (fun i => block (p % rbufBlockSize + i)) ++ rest, ?_, ?_, ?_⟩
      · rw [copyFromBlocks, if_neg (by omega)]
        simp only [hholds.blockOf_wire hbounds.1 hbounds.2, hblock, offset_wire, ← hsize]
        rw [← wire, ← wire_add, hread]
        rfl
      · simp [hlen]
        omega
      · intro i hi
        by_cases hfirst : i < size
        · have hq := hholds.covers_bounds (hcovers (p + i) (by omega) (by omega))
          have hslot : rb.slot base (p + i) = rb.slot base p := by
            rw [slot_eq_iff hq.1 hq.2 hbounds.1 hbounds.2]
            rw [rbufBlockSize_eq] at hsize ⊢
            omega
          have hoffset : (p + i) % rbufBlockSize = p % rbufBlockSize + i := by
            rw [rbufBlockSize_eq] at hsize ⊢
            omega
          rw [List.getElem?_append_left (by simpa using hfirst), cell, hslot, hblock, hoffset]
          simp [hfirst]
        · rw [List.getElem?_append_right (by simpa using hfirst), List.length_map,
            List.length_range, hget _ (by omega)]
          congr 1
          omega

theorem Holds.rbufRead_eq {p n : Nat} (hcovers : ∀ q, p ≤ q → q < p + n → Covers ranges q) :
    ∃ data, rb.rbufRead (wire p) n = some data ∧ data.length = n ∧
      ∀ i, i < n → data[i]? = rb.cell base (p + i) :=
  hholds.copyFromBlocks_eq n le_rfl hcovers

end Holds

/-- Where the contiguous data at the start of the window ends. -/
def frontEnd (base : Nat) : List (Nat × Nat) → Nat
  | [] => base
  | range :: _ => if range.1 = base then range.2 else base

theorem frontEnd_covers {base : Nat} {ranges : List (Nat × Nat)} {q : Nat} (hbase : base ≤ q)
    (hq : q < frontEnd base ranges) : Covers ranges q := by
  cases ranges with
  | nil => simp [frontEnd] at hq; omega
  | cons range rest =>
      rw [frontEnd] at hq
      split at hq
      · exact ⟨range, by simp, by omega, hq⟩
      · omega

section Release

variable {rb : Rbuf} {base : Nat} {ranges : List (Nat × Nat)} (hspans : Spans rb base ranges)

include hspans

theorem Spans.base_le_frontEnd : base ≤ frontEnd base ranges := by
  cases ranges with
  | nil => exact le_rfl
  | cons range rest =>
      rw [frontEnd]
      split
      · have := hspans.spaced.ordered range (by simp)
        omega
      · exact le_rfl

theorem Spans.frontEnd_le : frontEnd base ranges ≤ rb.windowEnd base := by
  cases ranges with
  | nil => exact hspans.base_le_windowEnd
  | cons range rest =>
      rw [frontEnd]
      split
      · exact (hspans.inside range (by simp)).2
      · exact hspans.base_le_windowEnd

theorem Spans.rbufReadableBytes_eq :
    rb.rbufReadableBytes = wire (frontEnd base ranges - base) := by
  have hlist := hspans.toList_eq
  cases ranges with
  | nil =>
      simp only [wireRanges_nil] at hlist
      simp [rbufReadableBytes, Treemap.treemapFirst, hlist, frontEnd]
  | cons range rest =>
      obtain ⟨hlo, hhi⟩ := hspans.inside range (by simp)
      have hle := hspans.spaced.ordered range (by simp)
      have hspan := hspans.windowEnd_lt
      rw [wireRanges_cons] at hlist
      simp only [rbufReadableBytes, Treemap.treemapFirst, hlist, List.head?_cons, frontEnd,
        hspans.start]
      by_cases heq : range.1 = base
      · rw [if_pos heq, heq, if_neg (by simp), wire_sub (by omega)]
      · have hne : wire base ≠ wire range.1 := fun h =>
          heq (wire_inj (by omega) (by omega) h.symm)
        rw [if_neg heq, if_pos hne, Nat.sub_self]
        rfl

theorem Spans.rbufReadableBytes_toNat :
    rb.rbufReadableBytes.toNat = frontEnd base ranges - base := by
  have := hspans.frontEnd_le
  have := hspans.windowEnd_lt
  rw [hspans.rbufReadableBytes_eq, wire_toNat, Nat.mod_eq_of_lt (by omega)]

end Release

section Ranged

variable {rb : Rbuf} {base : Nat} {ranges : List (Nat × Nat)} (hranged : Ranged rb base ranges)

include hranged

theorem Ranged.base_le_frontEnd : base ≤ frontEnd base ranges :=
  hranged.spans.base_le_frontEnd

theorem Ranged.frontEnd_le : frontEnd base ranges ≤ rb.windowEnd base :=
  hranged.spans.frontEnd_le

theorem Ranged.rbufReadableBytes_toNat :
    rb.rbufReadableBytes.toNat = frontEnd base ranges - base :=
  hranged.spans.rbufReadableBytes_toNat

theorem Ranged.not_covers_frontEnd : ¬ Covers ranges (frontEnd base ranges) := by
  cases ranges with
  | nil => simp
  | cons range rest =>
      obtain ⟨hlt, hgap, -⟩ := separated_cons.mp hranged.separated
      have hin := hranged.inside range (by simp)
      rw [covers_cons, frontEnd]
      rintro (⟨hle, hlt'⟩ | ⟨later, hlater, hle, -⟩)
      · by_cases heq : range.1 = base
        · rw [if_pos heq] at hlt'
          omega
        · rw [if_neg heq] at hle
          omega
      · have := hgap later hlater
        split at hle <;> omega

end Ranged

structure Released (rb : Rbuf) (base n : Nat) (rb' : Rbuf) : Prop extends Ring rb' (base + n) where
  rangeMap_eq : rb'.rangeMap = rb.rangeMap
  writePos_eq : rb'.writePos = rb.writePos
  blocksCount_eq : rb'.blocksCount = rb.blocksCount
  cell_eq : ∀ q, base + n ≤ q → q < rb.windowEnd base → rb'.cell (base + n) q = rb.cell base q

theorem Ring.released_part {rb : Rbuf} {base n : Nat} (hring : Ring rb base)
    (hpart : n < rbufBlockSize - base % rbufBlockSize) (hpos : 0 < rb.blocksCount) :
    Released rb base n { rb with startPos := rb.startPos + wire n } := by
  have hfirst : rb.startBlock < rb.blocksCount := by
    rcases hring.first with h | ⟨h, -⟩ <;> omega
  have hblock : (base + n) / rbufBlockSize = base / rbufBlockSize := by
    rw [rbufBlockSize_eq] at hpart ⊢
    omega
  refine ⟨⟨?_, hring.small, Or.inl hfirst⟩, rfl, rfl, rfl, fun q _ _ => ?_⟩
  · rw [hring.start, wire_add]
  · simp only [cell, slot, hblock]

theorem Ring.released_block {rb : Rbuf} {base : Nat} (hring : Ring rb base)
    (hpos : 0 < rb.blocksCount) :
    Released rb base (rbufBlockSize - base % rbufBlockSize)
      { rb with
        blocks := Function.update rb.blocks rb.startBlock none
        startBlock := if rb.startBlock + 1 < rb.blocksCount then rb.startBlock + 1 else 0
        startPos := rb.startPos + wire (rbufBlockSize - base % rbufBlockSize) } := by
  have hfirst : rb.startBlock < rb.blocksCount := by
    rcases hring.first with h | ⟨h, -⟩ <;> omega
  have hblock : (base + (rbufBlockSize - base % rbufBlockSize)) / rbufBlockSize =
      base / rbufBlockSize + 1 := by
    rw [rbufBlockSize_eq]
    omega
  refine ⟨⟨?_, hring.small, Or.inl ?_⟩, rfl, rfl, rfl, fun q hq hq' => ?_⟩
  · rw [hring.start, wire_add]
  · dsimp only
    split <;> omega
  · have hdiv : base / rbufBlockSize + 1 ≤ q / rbufBlockSize := by
      rw [← hblock]
      exact Nat.div_le_div_right hq
    have hdiv' : q / rbufBlockSize < base / rbufBlockSize + rb.blocksCount :=
      (Nat.div_lt_iff_lt_mul (by decide)).mpr hq'
    have hslot : Rbuf.slot
        { rb with
          blocks := Function.update rb.blocks rb.startBlock none
          startBlock := if rb.startBlock + 1 < rb.blocksCount then rb.startBlock + 1 else 0
          startPos := rb.startPos + wire (rbufBlockSize - base % rbufBlockSize) }
        (base + (rbufBlockSize - base % rbufBlockSize)) q = rb.slot base q := by
      simp only [slot, hblock]
      split <;> split <;> split <;> omega
    have hother : rb.slot base q ≠ rb.startBlock := by
      simp only [slot]
      split <;> omega
    rw [cell, cell, hslot]
    simp only [Function.update_of_ne hother]

theorem Released.trans {rb rb' rb'' : Rbuf} {base m n : Nat} (hfirst : Released rb base m rb')
    (hrest : Released rb' (base + m) n rb'') : Released rb base (m + n) rb'' := by
  have hassoc : base + m + n = base + (m + n) := Nat.add_assoc base m n
  obtain ⟨hring, hmap, hwrite, hcount, hcell⟩ := hrest
  rw [hassoc] at hring hcell
  refine ⟨hring, hmap.trans hfirst.rangeMap_eq, hwrite.trans hfirst.writePos_eq,
    hcount.trans hfirst.blocksCount_eq, fun q hq hq' => ?_⟩
  have hend : rb.windowEnd base ≤ rb'.windowEnd (base + m) := by
    rw [windowEnd, windowEnd, hfirst.blocksCount_eq]
    exact Nat.mul_le_mul_right _
      (Nat.add_le_add_right (Nat.div_le_div_right (Nat.le_add_right base m)) _)
  rw [hcell q hq (by omega), hfirst.cell_eq q (by omega) hq']

theorem releaseBlocks_spec : ∀ (fuel : Nat) {rb : Rbuf} {base n : Nat}, n ≤ fuel → Ring rb base →
    base + n ≤ rb.windowEnd base → Released rb base n (releaseBlocks fuel rb n) := by
  intro fuel
  induction fuel with
  | zero =>
      intro rb base n hfuel hring _
      obtain rfl : n = 0 := by omega
      exact ⟨hring, rfl, rfl, rfl, fun q _ _ => rfl⟩
  | succ fuel ih =>
      intro rb base n hfuel hring hend
      rw [releaseBlocks]
      split
      · rename_i hzero
        subst hzero
        exact ⟨hring, rfl, rfl, rfl, fun q _ _ => rfl⟩
      · rename_i hpos
        have hcount : 0 < rb.blocksCount := by
          rcases Nat.eq_zero_or_pos rb.blocksCount with hzero | hcount
          · have := Nat.div_mul_le_self base rbufBlockSize
            rw [windowEnd, hzero, Nat.add_zero] at hend
            omega
          · exact hcount
        have hmod := Nat.mod_lt base (show rbufBlockSize > 0 by decide)
        simp only [hring.start, offset_wire]
        rw [← hring.start]
        split
        · rename_i hle
          have hblock := hring.released_block hcount
          have hgrow : rb.windowEnd base ≤
              (base + (rbufBlockSize - base % rbufBlockSize)) / rbufBlockSize * rbufBlockSize +
                rb.blocksCount * rbufBlockSize := by
            rw [windowEnd, Nat.add_mul]
            exact Nat.add_le_add_right
              (Nat.mul_le_mul_right _ (Nat.div_le_div_right (Nat.le_add_right _ _))) _
          have hrest := ih (n := n - (rbufBlockSize - base % rbufBlockSize)) (by omega)
            hblock.toRing (by rw [windowEnd, Nat.add_mul]; dsimp only; omega)
          have hsum : rbufBlockSize - base % rbufBlockSize +
              (n - (rbufBlockSize - base % rbufBlockSize)) = n := by omega
          have htotal := hblock.trans hrest
          rw [hsum] at htotal
          exact htotal
        · exact hring.released_part (by omega) hcount

def dropFront (base n : Nat) : List (Nat × Nat) → List (Nat × Nat)
  | [] => []
  | range :: rest =>
      if range.1 = base then (if base + n < range.2 then (base + n, range.2) :: rest else rest)
      else range :: rest

section Release

variable {rb : Rbuf} {base : Nat} {ranges : List (Nat × Nat)}

theorem dropFront_nonempty (hne : ∀ range ∈ ranges, range.1 < range.2) (n : Nat) :
    ∀ range ∈ dropFront base n ranges, range.1 < range.2 := by
  cases ranges with
  | nil => exact hne
  | cons first rest =>
      rw [dropFront]
      split
      · split
        · rename_i hlt
          exact List.forall_mem_cons.mpr ⟨hlt, fun range hrange => hne range (by simp [hrange])⟩
        · exact fun range hrange => hne range (by simp [hrange])
      · exact hne

variable (hspans : Spans rb base ranges)

include hspans

theorem Spans.spaced_dropFront (n : Nat) : Spaced (dropFront base n ranges) := by
  have hspaced := hspans.spaced
  cases ranges with
  | nil => exact spaced_nil
  | cons range rest =>
      obtain ⟨hle, hgap, hrest⟩ := spaced_cons.mp hspaced
      rw [dropFront]
      split
      · split
        · exact spaced_cons.mpr ⟨by dsimp only; omega, hgap, hrest⟩
        · exact hrest
      · exact hspaced

theorem Spans.dropFront_inside {n : Nat} (hn : base + n ≤ frontEnd base ranges) :
    ∀ range ∈ dropFront base n ranges, base + n ≤ range.1 ∧ range.2 ≤ rb.windowEnd base := by
  cases ranges with
  | nil => simp [dropFront]
  | cons first rest =>
      obtain ⟨hle, hgap, hrest⟩ := spaced_cons.mp hspans.spaced
      have hfirst := hspans.inside first (by simp)
      have hlater : ∀ range ∈ rest, first.2 < range.1 ∧ range.2 ≤ rb.windowEnd base :=
        fun range hrange => ⟨hgap range hrange, (hspans.inside range (by simp [hrange])).2⟩
      rw [frontEnd] at hn
      rw [dropFront]
      by_cases heq : first.1 = base
      · rw [if_pos heq] at hn ⊢
        split
        · refine List.forall_mem_cons.mpr ⟨⟨le_rfl, hfirst.2⟩, fun range hrange => ?_⟩
          have := hlater range hrange
          omega
        · intro range hrange
          have := hlater range hrange
          omega
      · rw [if_neg heq] at hn ⊢
        refine List.forall_mem_cons.mpr ⟨⟨by omega, hfirst.2⟩, fun range hrange => ?_⟩
        have := hlater range hrange
        omega

theorem Spans.covers_dropFront {n : Nat} (hn : base + n ≤ frontEnd base ranges) (q : Nat) :
    Covers (dropFront base n ranges) q ↔ Covers ranges q ∧ base + n ≤ q := by
  cases ranges with
  | nil => simp [dropFront]
  | cons range rest =>
      obtain ⟨hle, hgap, hrest⟩ := spaced_cons.mp hspans.spaced
      have hlater : ∀ q, Covers rest q → range.2 < q := by
        rintro q ⟨later, hlater, hle, -⟩
        have := hgap later hlater
        omega
      have hin := hspans.inside range (by simp)
      rw [frontEnd] at hn
      rw [dropFront]
      by_cases heq : range.1 = base
      · rw [if_pos heq] at hn ⊢
        split
        · simp only [covers_cons]
          constructor
          · rintro (h | h)
            · exact ⟨Or.inl (by omega), by omega⟩
            · have := hlater q h
              exact ⟨Or.inr h, by omega⟩
          · rintro ⟨h | h, hq⟩
            · exact Or.inl (by omega)
            · exact Or.inr h
        · simp only [covers_cons]
          constructor
          · intro h
            have := hlater q h
            exact ⟨Or.inr h, by omega⟩
          · rintro ⟨h | h, hq⟩
            · omega
            · exact h
      · rw [if_neg heq] at hn ⊢
        simp only [covers_cons]
        constructor
        · rintro (h | h)
          · exact ⟨Or.inl h, by omega⟩
          · have := hlater q h
            exact ⟨Or.inr h, by omega⟩
        · exact fun h => h.1

theorem Spans.released {n : Nat} {tree : Treemap U32 U32} (hn : base + n ≤ frontEnd base ranges)
    (hbal : tree.Balanced) (hlist : tree.toList = wireRanges (dropFront base n ranges)) :
    Spans (releaseBlocks n { rb with rangeMap := tree } n) (base + n) (dropFront base n ranges) ∧
      (releaseBlocks n { rb with rangeMap := tree } n).writePos = rb.writePos ∧
      (releaseBlocks n { rb with rangeMap := tree } n).blocksCount = rb.blocksCount ∧
      ∀ q, Covers (dropFront base n ranges) q →
        (releaseBlocks n { rb with rangeMap := tree } n).cell (base + n) q = rb.cell base q := by
  have hfront := hspans.frontEnd_le
  have hring : Ring { rb with rangeMap := tree } base := ⟨hspans.start, hspans.small, hspans.first⟩
  have hrel := releaseBlocks_spec n le_rfl hring (show base + n ≤ rb.windowEnd base by omega)
  have hcell : ∀ q, Covers (dropFront base n ranges) q →
      (releaseBlocks n { rb with rangeMap := tree } n).cell (base + n) q = rb.cell base q := by
    intro q hq
    obtain ⟨hold, hle⟩ := (hspans.covers_dropFront hn q).mp hq
    exact hrel.cell_eq q hle (hspans.covers_bounds hold).2
  refine ⟨⟨hrel.toRing, ?_, ?_, hspans.spaced_dropFront n, ?_⟩, hrel.writePos_eq,
    hrel.blocksCount_eq, hcell⟩
  · rw [hrel.rangeMap_eq]
    exact hbal
  · rw [hrel.rangeMap_eq]
    exact hlist
  · intro range hrange
    obtain ⟨hstart, hend⟩ := hspans.dropFront_inside hn range hrange
    have hgrow : rb.windowEnd base ≤
        (releaseBlocks n { rb with rangeMap := tree } n).windowEnd (base + n) := by
      rw [windowEnd, windowEnd, hrel.blocksCount_eq]
      exact Nat.mul_le_mul_right _
        (Nat.add_le_add_right (Nat.div_le_div_right (Nat.le_add_right base n)) _)
    exact ⟨hstart, hend.trans hgrow⟩

theorem Spans.rbufRelease_none (hlater : ∀ range ∈ ranges, base < range.1) :
    ∃ rb', rb.rbufRelease true 0 = some rb' ∧ Spans rb' base ranges ∧
      rb'.writePos = rb.writePos ∧ rb'.blocksCount = rb.blocksCount ∧
      ∀ q, rb'.cell base q = rb.cell base q := by
  have hspan := hspans.windowEnd_lt
  have hempty : frontEnd base ranges = base := by
    cases ranges with
    | nil => rfl
    | cons range rest => rw [frontEnd, if_neg (hlater range (by simp)).ne']
  have hreadable : rb.rbufReadableBytes = 0 := by
    rw [hspans.rbufReadableBytes_eq, hempty, Nat.sub_self, wire_zero]
  have hbounds : ∀ range ∈ ranges, base < range.1 ∧ range.1 ≤ rb.windowEnd base := by
    intro range hrange
    have := hspans.spaced.ordered range hrange
    exact ⟨hlater range hrange, this.trans (hspans.inside range hrange).2⟩
  have hloc : Treemap.Located seqCmp (wire base) [] [] (wireRanges ranges) :=
    located_miss (by simp [KeysBefore]) (keysAfter_wireRanges _ hbounds (by omega))
  rw [← hspans.start] at hloc
  obtain ⟨hdel, hbal⟩ := Treemap.treemapDelete_spec hspans.balanced hloc hspans.toList_eq
  rw [rbufRelease, hreadable, if_neg (by simp), if_pos rfl]
  refine ⟨{ rb with rangeMap := (rb.rangeMap.treemapDelete seqCmp rb.startPos).2 }, rfl,
    ⟨⟨hspans.start, hspans.small, hspans.first⟩, hbal, by simpa using hdel.toList_eq,
    hspans.spaced, hspans.inside⟩, rfl, rfl, fun _ => rfl⟩

section First

omit hspans

variable {tree : Treemap U32 U32} {first fend hi : Nat} {rest : List (Nat × Nat)}
  (hspan : hi < first + 2 ^ 31) (hspaced : Spaced ((first, fend) :: rest))
  (hin : ∀ range ∈ rest, range.2 ≤ hi) (hbal : tree.Balanced)

include hspan hspaced hin hbal

theorem treemapDelete_first (hlist : tree.toList = wireRanges ((first, fend) :: rest)) :
    (tree.treemapDelete seqCmp (wire first)).2.Balanced ∧
      (tree.treemapDelete seqCmp (wire first)).2.toList = wireRanges rest := by
  obtain ⟨hle, hgap, hrest⟩ := spaced_cons.mp hspaced
  have hloc : Treemap.Located seqCmp (wire first) [] [(wire first, wire fend)] (wireRanges rest) :=
    located_hit (by simp [KeysBefore]) (keysAfter_wireRanges hi (fun r hr =>
      ⟨hle.trans_lt (hgap r hr), (hrest.ordered r hr).trans (hin r hr)⟩) hspan) _
  obtain ⟨hdel, hdelBal⟩ := Treemap.treemapDelete_spec hbal hloc hlist
  exact ⟨hdelBal, by simpa using hdel.toList_eq⟩

theorem treemapInsert_first {s : Nat} (hlist : tree.toList = wireRanges rest) (hs : first ≤ s)
    (hend : s ≤ fend) :
    (tree.treemapInsert seqCmp (wire s) (wire fend)).1 = 0 ∧
      (tree.treemapInsert seqCmp (wire s) (wire fend)).2.Balanced ∧
      (tree.treemapInsert seqCmp (wire s) (wire fend)).2.toList = wireRanges ((s, fend) :: rest) := by
  obtain ⟨-, hgap, hrest⟩ := spaced_cons.mp hspaced
  exact Treemap.treemapInsert_new (wire fend) hbal
    (splits_wire (show KeysBefore s [] by simp [KeysBefore]) (keysAfter_wireRanges hi (fun r hr =>
      ⟨hend.trans_lt (hgap r hr), (hrest.ordered r hr).trans (hin r hr)⟩) (by omega))) hlist

end First

omit hspans in
theorem Spans.rbufRelease_first {fend : Nat} {rest : List (Nat × Nat)}
    (hspans : Spans rb base ((base, fend) :: rest)) {n : Nat} (hn : base + n ≤ fend) :
    ∃ rb', rb.rbufRelease true (wire n) = some rb' ∧
      Spans rb' (base + n) (dropFront base n ((base, fend) :: rest)) ∧
      rb'.writePos = rb.writePos ∧ rb'.blocksCount = rb.blocksCount ∧
      ∀ q, Covers (dropFront base n ((base, fend) :: rest)) q →
        rb'.cell (base + n) q = rb.cell base q := by
  have hspan := hspans.windowEnd_lt
  have hfrontEq : frontEnd base ((base, fend) :: rest) = fend := by simp [frontEnd]
  have hfront := hspans.frontEnd_le
  have hreadable := hspans.rbufReadableBytes_toNat
  rw [hfrontEq] at hfront hreadable
  have hsize : (wire n).toNat = n := by
    rw [wire_toNat, Nat.mod_eq_of_lt (by omega)]
  have hin : ∀ range ∈ rest, range.2 ≤ rb.windowEnd base := fun range hrange =>
    (hspans.inside range (List.mem_cons_of_mem _ hrange)).2
  obtain ⟨hdelBal, hdelList⟩ :=
    treemapDelete_first hspan hspans.spaced hin hspans.balanced hspans.toList_eq
  rw [← hspans.start] at hdelBal hdelList
  have hle : ¬ rb.rbufReadableBytes < wire n := by
    rw [BitVec.lt_def, hreadable, hsize]
    omega
  have hall : wire n = rb.rbufReadableBytes ↔ base + n = fend := by
    rw [← BitVec.toNat_inj, hreadable, hsize]
    omega
  rw [rbufRelease, if_neg hle]
  by_cases heq : base + n = fend
  · rw [if_pos (hall.mpr heq), hsize]
    refine ⟨_, rfl, hspans.released (by rw [hfrontEq]; omega) hdelBal ?_⟩
    rw [hdelList, dropFront, if_pos rfl, if_neg (by dsimp only; omega)]
  · have hfirst : rb.rangeMap.treemapFirst = some (wire base, wire fend) := by
      rw [Treemap.treemapFirst, hspans.toList_eq]
      rfl
    obtain ⟨hret, hinsBal, hinsList⟩ :=
      treemapInsert_first hspan hspans.spaced hin hdelBal hdelList (Nat.le_add_right base n) hn
    have hinsert : (rb.rangeMap.treemapDelete seqCmp rb.startPos).2.treemapInsert seqCmp
        (rb.startPos + wire n) (wire fend) =
        (0, ((rb.rangeMap.treemapDelete seqCmp rb.startPos).2.treemapInsert seqCmp
          (wire (base + n)) (wire fend)).2) := by
      rw [hspans.start, ← wire_add, ← hspans.start]
      exact Prod.ext hret rfl
    rw [if_neg (fun h => heq (hall.mp h))]
    simp only [hfirst, hinsert, hsize]
    refine ⟨_, rfl, hspans.released (by rw [hfrontEq]; omega) hinsBal ?_⟩
    rw [hinsList, dropFront, if_pos rfl, if_pos (by dsimp only; omega)]

theorem Spans.rbufRelease_eq {n : Nat} (hn : base + n ≤ frontEnd base ranges) :
    ∃ rb', rb.rbufRelease true (wire n) = some rb' ∧
      Spans rb' (base + n) (dropFront base n ranges) ∧ rb'.writePos = rb.writePos ∧
      rb'.blocksCount = rb.blocksCount ∧
      ∀ q, Covers (dropFront base n ranges) q → rb'.cell (base + n) q = rb.cell base q := by
  by_cases hlater : ∀ range ∈ ranges, base < range.1
  · have hsame : frontEnd base ranges = base ∧ dropFront base 0 ranges = ranges := by
      cases ranges with
      | nil => exact ⟨rfl, rfl⟩
      | cons range rest =>
          have hne := (hlater range (by simp)).ne'
          exact ⟨if_neg hne, if_neg hne⟩
    obtain rfl : n = 0 := by omega
    obtain ⟨rb', hrel, hspans', hwrite, hcount, hcell⟩ := hspans.rbufRelease_none hlater
    rw [hsame.2]
    exact ⟨rb', hrel, hspans', hwrite, hcount, fun q _ => hcell q⟩
  · -- the first range starts at the start of the window
    cases ranges with
    | nil => exact absurd (by simp) hlater
    | cons first rest =>
        obtain ⟨hle, hgap, -⟩ := spaced_cons.mp hspans.spaced
        have hfirst : first.1 = base := by
          have hin := hspans.inside first (by simp)
          by_contra hne
          refine hlater (List.forall_mem_cons.mpr ⟨by omega, fun range hrange => ?_⟩)
          have := hgap range hrange
          omega
        obtain ⟨fstart, fend⟩ := first
        subst hfirst
        rw [frontEnd, if_pos rfl] at hn
        exact hspans.rbufRelease_first hn

end Release

theorem Ranged.covers_dropFront {rb : Rbuf} {base : Nat} {ranges : List (Nat × Nat)}
    (hranged : Ranged rb base ranges) {n : Nat} (hn : base + n ≤ frontEnd base ranges) (q : Nat) :
    Covers (dropFront base n ranges) q ↔ Covers ranges q ∧ base + n ≤ q :=
  hranged.spans.covers_dropFront hn q

theorem Ranged.rbufRelease_eq {rb : Rbuf} {base : Nat} {ranges : List (Nat × Nat)}
    (hranged : Ranged rb base ranges) {n : Nat} (hn : base + n ≤ frontEnd base ranges) :
    ∃ rb', rb.rbufRelease true (wire n) = some rb' ∧
      Ranged rb' (base + n) (dropFront base n ranges) ∧ rb'.writePos = rb.writePos ∧
      rb'.blocksCount = rb.blocksCount ∧
      ∀ q, Covers (dropFront base n ranges) q → rb'.cell (base + n) q = rb.cell base q := by
  obtain ⟨rb', hrel, hspans, hwrite, hcount, hcell⟩ := hranged.spans.rbufRelease_eq hn
  exact ⟨rb', hrel, hspans.ranged (dropFront_nonempty hranged.separated.nonempty n), hwrite, hcount,
    hcell⟩

theorem Holds.rbufRelease_eq {rb : Rbuf} {base : Nat} {ranges : List (Nat × Nat)}
    (hholds : Holds rb base ranges) {n : Nat} (hn : base + n ≤ frontEnd base ranges) :
    ∃ rb', rb.rbufRelease true (wire n) = some rb' ∧
      Holds rb' (base + n) (dropFront base n ranges) ∧ rb'.writePos = rb.writePos ∧
      rb'.blocksCount = rb.blocksCount ∧
      ∀ q, Covers (dropFront base n ranges) q → rb'.cell (base + n) q = rb.cell base q := by
  obtain ⟨rb', hrel, hranged', hwrite, hcount, hcell⟩ := hholds.toRanged.rbufRelease_eq hn
  refine ⟨rb', hrel, ⟨hranged', fun q hq => ?_⟩, hwrite, hcount, hcell⟩
  rw [hcell q hq]
  exact hholds.allocated q ((hholds.covers_dropFront hn q).mp hq).1

/-! ### What a call can do to any buffer -/

theorem rangeAt_mem {ν : Type} {ranges : Treemap U32 ν} {pos : U32} {entry : U32 × ν}
    (hat : rangeAt ranges pos = some entry) : entry ∈ ranges.toList := by
  unfold rangeAt at hat
  split at hat
  · exact List.mem_of_mem_getLast? hat
  · exact (List.takeWhile_prefix _).subset (List.mem_of_mem_getLast? hat)

theorem copyToBlocks_cases (alloc : Alloc) :
    ∀ (fuel attempt : Nat) (rb : Rbuf) (pos : U32) (data : List Byte),
      ∃ ret blocks, copyToBlocks alloc fuel attempt rb pos data = (ret, { rb with blocks := blocks }) ∧
        (ret = 0 ∨ ret = -1 ∧ ∃ i, alloc.block i = none) := by
  intro fuel
  induction fuel with
  | zero => exact fun _ rb _ _ => ⟨0, rb.blocks, rfl, Or.inl rfl⟩
  | succ fuel ih =>
      intro attempt rb pos data
      cases data with
      | nil => exact ⟨0, rb.blocks, rfl, Or.inl rfl⟩
      | cons byte rest =>
          rw [copyToBlocks]
          dsimp only
          split
          · obtain ⟨ret, blocks, hcopy, hret⟩ := ih _ _ _ _
            exact ⟨ret, blocks, hcopy, hret⟩
          · split
            · rename_i hblock
              exact ⟨-1, rb.blocks, rfl, Or.inr ⟨rfl, attempt, hblock⟩⟩
            · obtain ⟨ret, blocks, hcopy, hret⟩ := ih _ _ _ _
              exact ⟨ret, blocks, hcopy, hret⟩

theorem insertRange_cases (nodeAlloc : Bool) (ranges : Treemap U32 U32) (pos fin : U32) :
    (∃ ret, (ret = 1 ∨ ret = -1) ∧ insertRange nodeAlloc ranges pos fin = .error ret) ∨
      (∃ rstart rend, (rstart, rend) ∈ ranges.toList ∧ lessEqual rstart pos = true ∧
        lessEqual pos rend = true ∧ insertRange nodeAlloc ranges pos fin =
          .ok (0, rstart, ranges.treemapSetValue rstart (fun _ => fin))) ∨
      insertRange nodeAlloc ranges pos fin =
        .ok ((ranges.treemapInsert seqCmp pos fin).1, pos, (ranges.treemapInsert seqCmp pos fin).2) := by
  have hinsert : ∀ (result : Except Int (Int × U32 × Treemap U32 U32)),
      result = (if nodeAlloc then
        .ok ((ranges.treemapInsert seqCmp pos fin).1, pos, (ranges.treemapInsert seqCmp pos fin).2)
        else .error (-1)) →
      (∃ ret, (ret = 1 ∨ ret = -1) ∧ result = .error ret) ∨ result =
        .ok ((ranges.treemapInsert seqCmp pos fin).1, pos,
          (ranges.treemapInsert seqCmp pos fin).2) := by
    rintro result rfl
    split
    · exact Or.inr rfl
    · exact Or.inl ⟨-1, Or.inr rfl, rfl⟩
  unfold insertRange
  dsimp only
  split
  · rename_i rstart rend hat
    split
    · exact Or.inl ⟨1, Or.inl rfl, rfl⟩
    · split
      · rename_i hwithin
        obtain ⟨hfrom, hto⟩ := Bool.and_eq_true_iff.mp hwithin
        exact Or.inr (Or.inl ⟨rstart, rend, rangeAt_mem hat, hfrom, hto, rfl⟩)
      · rcases hinsert _ rfl with h | h
        · exact Or.inl h
        · exact Or.inr (Or.inr h)
  · rcases hinsert _ rfl with h | h
    · exact Or.inl h
    · exact Or.inr (Or.inr h)

theorem rbufWrite_cases (alloc : Alloc) (rb : Rbuf) (pos : U32) (data : List Byte) :
    (∃ ret, ret ≠ 0 ∧ rb.rbufWrite alloc pos data = (ret, rb)) ∨
      ∃ ret it tree ret' blocks,
        insertRange alloc.node rb.rangeMap pos (pos + BitVec.ofNat 32 data.length) =
          .ok (ret, it, tree) ∧
        rb.rbufWrite alloc pos data =
          (ret', { rb with rangeMap := mergedRanges it tree, blocks := blocks }) ∧
        (ret' = ret ∨ ret' = -1 ∧ ∃ i, alloc.block i = none) := by
  rw [rbufWrite]
  dsimp only
  split
  · exact Or.inl ⟨_, by decide, rfl⟩
  · split
    · exact Or.inl ⟨_, by decide, rfl⟩
    · split
      · rename_i ret herror
        refine Or.inl ⟨ret, ?_, rfl⟩
        rcases insertRange_cases alloc.node rb.rangeMap pos (pos + BitVec.ofNat 32 data.length) with
          ⟨ret', hret, heq⟩ | ⟨rstart, rend, -, -, -, heq⟩ | heq
        · rw [heq] at herror
          obtain rfl := Except.error.inj herror
          omega
        · rw [heq] at herror
          cases herror
        · rw [heq] at herror
          cases herror
      · rename_i ret it tree hok
        obtain ⟨copied, blocks, hcopy, hcopied⟩ := copyToBlocks_cases alloc data.length 0
          { rb with rangeMap := mergeSuccessors tree.treemapSize tree it } pos data
        rw [hcopy]
        rcases hcopied with rfl | ⟨rfl, hblock⟩
        · exact Or.inr ⟨ret, it, tree, ret, blocks, hok, rfl, Or.inl rfl⟩
        · exact Or.inr ⟨ret, it, tree, -1, blocks, hok, rfl, Or.inr ⟨rfl, hblock⟩⟩

theorem releaseBlocks_eq : ∀ (fuel : Nat) (rb : Rbuf) {n : Nat}, n ≤ fuel →
    ∃ startBlock blocks, releaseBlocks fuel rb n =
      { rb with
        startPos := rb.startPos + wire n
        startBlock := startBlock
        blocks := blocks } := by
  intro fuel
  induction fuel with
  | zero =>
      intro rb n hn
      obtain rfl : n = 0 := by omega
      exact ⟨rb.startBlock, rb.blocks, by simp [releaseBlocks]⟩
  | succ fuel ih =>
      intro rb n hn
      have hoffset : offset rb.startPos < rbufBlockSize := Nat.mod_lt _ (by decide)
      rw [releaseBlocks]
      dsimp only
      split
      · rename_i hzero
        exact ⟨rb.startBlock, rb.blocks, by simp [hzero]⟩
      · split
        · rename_i hle
          obtain ⟨startBlock, blocks, heq⟩ := ih
            { rb with
              blocks := Function.update rb.blocks rb.startBlock none
              startBlock := if rb.startBlock + 1 < rb.blocksCount then rb.startBlock + 1 else 0
              startPos := rb.startPos + BitVec.ofNat 32 (rbufBlockSize - offset rb.startPos) }
            (show n - (rbufBlockSize - offset rb.startPos) ≤ fuel by omega)
          refine ⟨startBlock, blocks, ?_⟩
          rw [heq]
          dsimp only
          rw [BitVec.add_assoc, ← wire, ← wire_add, Nat.add_sub_of_le hle]
        · exact ⟨rb.startBlock, rb.blocks, rfl⟩

theorem rbufRelease_cases {nodeAlloc : Bool} {rb rb' : Rbuf} {size : U32}
    (hrelease : rb.rbufRelease nodeAlloc size = some rb') :
    size ≤ rb.rbufReadableBytes ∧ ∃ tree startBlock blocks,
      rb' = { rb with
        startPos := rb.startPos + size
        startBlock := startBlock
        rangeMap := tree
        blocks := blocks } ∧
      (tree = (rb.rangeMap.treemapDelete seqCmp rb.startPos).2 ∨
        ∃ fstart fend, size ≠ rb.rbufReadableBytes ∧
          rb.rangeMap.treemapFirst = some (fstart, fend) ∧
          tree = ((rb.rangeMap.treemapDelete seqCmp rb.startPos).2.treemapInsert seqCmp
            (rb.startPos + size) fend).2) := by
  have hsize := wire_of_toNat size
  have hblocks : ∀ tree : Treemap U32 U32, ∃ startBlock blocks,
      releaseBlocks size.toNat { rb with rangeMap := tree } size.toNat =
        { rb with
          startPos := rb.startPos + size
          startBlock := startBlock
          rangeMap := tree
          blocks := blocks } := by
    intro tree
    obtain ⟨startBlock, blocks, heq⟩ :=
      releaseBlocks_eq size.toNat { rb with rangeMap := tree } le_rfl
    rw [hsize] at heq
    exact ⟨startBlock, blocks, heq⟩
  unfold rbufRelease at hrelease
  dsimp only at hrelease
  split at hrelease
  · cases hrelease
  · rename_i hle
    refine ⟨BitVec.not_lt.mp hle, ?_⟩
    split at hrelease
    · obtain ⟨startBlock, blocks, heq⟩ := hblocks (rb.rangeMap.treemapDelete seqCmp rb.startPos).2
      rw [heq] at hrelease
      exact ⟨_, startBlock, blocks, (Option.some.inj hrelease).symm, Or.inl rfl⟩
    · rename_i hpart
      split at hrelease
      · cases hrelease
      · rename_i fstart fend hfirst
        split at hrelease
        · rename_i ranges hinsert
          obtain ⟨startBlock, blocks, heq⟩ := hblocks ranges
          rw [heq] at hrelease
          refine ⟨_, startBlock, blocks, (Option.some.inj hrelease).symm,
            Or.inr ⟨fstart, fend, hpart, hfirst, ?_⟩⟩
          rw [hinsert]
        · cases hrelease

theorem rbufRelease_true {nodeAlloc : Bool} {rb rb' : Rbuf} {size : U32}
    (hrelease : rb.rbufRelease nodeAlloc size = some rb') :
    rb.rbufRelease true size = some rb' := by
  cases nodeAlloc with
  | true => exact hrelease
  | false =>
      unfold rbufRelease at hrelease ⊢
      dsimp only at hrelease ⊢
      split at hrelease
      · cases hrelease
      · split at hrelease
        · rename_i hle heq
          rw [if_neg hle, if_pos heq]
          exact hrelease
        · split at hrelease <;> cases hrelease

theorem Spans.release {rb rb' : Rbuf} {base : Nat} {ranges : List (Nat × Nat)}
    (hspans : Spans rb base ranges) {nodeAlloc : Bool} {size : U32}
    (hrelease : rb.rbufRelease nodeAlloc size = some rb') :
    base + size.toNat ≤ frontEnd base ranges ∧
      Spans rb' (base + size.toNat) (dropFront base size.toNat ranges) ∧
      rb'.blocksCount = rb.blocksCount ∧
      ∀ q, Covers (dropFront base size.toNat ranges) q →
        rb'.cell (base + size.toNat) q = rb.cell base q := by
  have hsize := (rbufRelease_cases hrelease).1
  have hbase := hspans.base_le_frontEnd
  have hn : base + size.toNat ≤ frontEnd base ranges := by
    rw [BitVec.le_def, hspans.rbufReadableBytes_toNat] at hsize
    omega
  obtain ⟨after, hafter, hspans', -, hcount, hcell⟩ := hspans.rbufRelease_eq hn
  rw [wire_of_toNat, rbufRelease_true hrelease] at hafter
  obtain rfl := Option.some.inj hafter
  exact ⟨hn, hspans', hcount, hcell⟩

theorem Ranged.release {rb rb' : Rbuf} {base : Nat} {ranges : List (Nat × Nat)}
    (hranged : Ranged rb base ranges) {nodeAlloc : Bool} {size : U32}
    (hrelease : rb.rbufRelease nodeAlloc size = some rb') :
    Ranged rb' (base + size.toNat) (dropFront base size.toNat ranges) :=
  (hranged.spans.release hrelease).2.1.ranged (dropFront_nonempty hranged.separated.nonempty _)

theorem Holds.release {rb rb' : Rbuf} {base : Nat} {ranges : List (Nat × Nat)}
    (hholds : Holds rb base ranges) {nodeAlloc : Bool} {size : U32}
    (hrelease : rb.rbufRelease nodeAlloc size = some rb') :
    Holds rb' (base + size.toNat) (dropFront base size.toNat ranges) := by
  obtain ⟨hn, -, -, hcell⟩ := hholds.spans.release hrelease
  refine ⟨hholds.toRanged.release hrelease, fun q hq => ?_⟩
  rw [hcell q hq]
  exact hholds.allocated q ((hholds.covers_dropFront hn q).mp hq).1

/-! ### Range maps, whatever the allocations -/

theorem insertRange_true {nodeAlloc : Bool} {ranges tree : Treemap U32 U32} {pos fin it : U32}
    {ret : Int} (hok : insertRange nodeAlloc ranges pos fin = .ok (ret, it, tree)) :
    insertRange true ranges pos fin = .ok (ret, it, tree) := by
  cases nodeAlloc with
  | true => exact hok
  | false =>
      unfold insertRange at hok ⊢
      dsimp only at hok ⊢
      split at hok
      · split at hok
        · cases hok
        · rename_i hdup
          split at hok
          · rename_i hwithin
            rw [if_neg hdup, if_pos hwithin]
            exact hok
          · cases hok
      · cases hok

theorem Ranged.frontEnd_mono {rb : Rbuf} {base base' : Nat} {ranges ranges' : List (Nat × Nat)}
    (hranged : Ranged rb base' ranges') (hle : base ≤ base')
    (hcovers : ∀ q, base' ≤ q → Covers ranges q → Covers ranges' q) :
    frontEnd base ranges ≤ frontEnd base' ranges' := by
  by_contra hlt
  have hbase := hranged.base_le_frontEnd
  have hold : Covers ranges (frontEnd base' ranges') :=
    frontEnd_covers (hle.trans hbase) (Nat.not_le.mp hlt)
  exact hranged.not_covers_frontEnd (hcovers _ hbase hold)

theorem Ring.wire_offset {rb : Rbuf} {base : Nat} (hring : Ring rb base) (pos : U32) :
    pos = wire (base + (pos - rb.startPos).toNat) := by
  rw [wire_add, ← hring.start, wire, BitVec.ofNat_toNat, BitVec.setWidth_eq, BitVec.add_comm,
    BitVec.sub_add_cancel]

theorem Spans.insertRange_widens {rb : Rbuf} {base : Nat} {ranges : List (Nat × Nat)}
    (hspans : Spans rb base ranges) {nodeAlloc : Bool} {p : Nat} {data : List Byte}
    {ret : Int} {it : U32} {tree : Treemap U32 U32} (hp : base ≤ p)
    (hend : p + data.length ≤ rb.windowEnd base)
    (hok : insertRange nodeAlloc rb.rangeMap (wire p) (wire p + BitVec.ofNat 32 data.length) =
      .ok (ret, it, tree)) :
    ret = 0 ∧ ∃ ranges',
      Widens base (rb.windowEnd base) ranges p (p + data.length) (mergedRanges it tree) ranges' := by
  have hfin : wire p + BitVec.ofNat 32 data.length = wire (p + data.length) := (wire_add _ _).symm
  have htrue := insertRange_true hok
  rw [hfin] at htrue
  rcases Rbuf.insertRange_widens hspans.windowEnd_lt hspans.balanced (Nat.le_add_right _ _) hend hp
    hspans.toList_eq hspans.spaced hspans.inside with
    ⟨hdup, -⟩ | ⟨it', tree', ranges', hspec, hwidens⟩
  · rw [hdup] at htrue
    cases htrue
  · rw [hspec] at htrue
    cases htrue
    exact ⟨rfl, ranges', hwidens⟩

section Ranged

variable {rb : Rbuf} {base : Nat} {ranges : List (Nat × Nat)} (hranged : Ranged rb base ranges)

include hranged

theorem Ranged.insertRange_added {nodeAlloc : Bool} {p : Nat} {data : List Byte}
    {ret : Int} {it : U32} {tree : Treemap U32 U32} (hlen : 0 < data.length) (hp : base ≤ p)
    (hend : p + data.length ≤ rb.windowEnd base)
    (hok : insertRange nodeAlloc rb.rangeMap (wire p) (wire p + BitVec.ofNat 32 data.length) =
      .ok (ret, it, tree)) :
    ret = 0 ∧ Added base (rb.windowEnd base) ranges p (p + data.length) (mergedRanges it tree) := by
  obtain ⟨hret, ranges', hwidens⟩ := hranged.spans.insertRange_widens hp hend hok
  exact ⟨hret, hwidens.added hranged.separated (by omega)⟩

theorem Ranged.rbufWrite_keeps (alloc : Alloc) (pos : U32) {data : List Byte}
    (hlen : 0 < data.length) (hlong : data.length < 2 ^ 32) :
    ∃ ranges', Ranged (rb.rbufWrite alloc pos data).2 base ranges' ∧
      (rb.rbufWrite alloc pos data).2.blocksCount = rb.blocksCount ∧
      ∀ q, Covers ranges q → Covers ranges' q := by
  rcases Nat.lt_or_ge (rb.windowEnd base) (base + (pos - rb.startPos).toNat + data.length) with
    hout | hend
  · rw [hranged.rbufWrite_refused alloc hout hlong]
    exact ⟨ranges, hranged, rfl, fun _ h => h⟩
  · have hpos := hranged.wire_offset pos
    rcases rbufWrite_cases alloc rb pos data with
      ⟨ret, -, heq⟩ | ⟨ret, it, tree, ret', blocks, hok, heq, -⟩
    · rw [heq]
      exact ⟨ranges, hranged, rfl, fun _ h => h⟩
    · rw [hpos] at hok
      obtain ⟨-, hbal, ranges', hlist, hsep, hin, hcovers⟩ :=
        hranged.insertRange_added hlen (Nat.le_add_right _ _) hend hok
      rw [heq]
      exact ⟨ranges', ⟨⟨hranged.start, hranged.small, hranged.first⟩, hbal, hlist, hsep, hin⟩, rfl,
        fun q hq => (hcovers q).mpr (Or.inl hq)⟩

theorem Ranged.rbufWrite_accepted (alloc : Alloc) {p : Nat} {data : List Byte}
    (hlen : 0 < data.length) (hp : base ≤ p) (hend : p + data.length ≤ rb.windowEnd base) :
    (rb.rbufWrite alloc (wire p) data).1 ≠ rbufOutOfRange := by
  have hfin : wire p + BitVec.ofNat 32 data.length = wire (p + data.length) := (wire_add _ _).symm
  obtain ⟨hfits, hwindow⟩ := hranged.write_fits hp hend
  rw [rbufWrite]
  dsimp only
  rw [if_neg hfits, hfin, if_neg hwindow]
  split
  · rename_i ret herror
    rcases insertRange_cases alloc.node rb.rangeMap (wire p) (wire (p + data.length)) with
      ⟨ret', hret, heq⟩ | ⟨rstart, rend, -, -, -, heq⟩ | heq
    · rw [heq] at herror
      cases herror
      rcases hret with rfl | rfl <;> simp [rbufOutOfRange]
    · rw [heq] at herror
      cases herror
    · rw [heq] at herror
      cases herror
  · rename_i ret it tree hok
    rw [← hfin] at hok
    obtain ⟨rfl, -⟩ := hranged.insertRange_added hlen hp hend hok
    obtain ⟨copied, blocks, hcopy, hcopied⟩ := copyToBlocks_cases alloc data.length 0
      { rb with rangeMap := mergeSuccessors tree.treemapSize tree it } (wire p) data
    rw [hcopy]
    rcases hcopied with rfl | ⟨rfl, -⟩ <;> simp [rbufOutOfRange]

end Ranged

theorem Holds.rbufWrite_keeps {rb : Rbuf} {base : Nat} {ranges : List (Nat × Nat)}
    (hholds : Holds rb base ranges) {alloc : Alloc} (halloc : alloc.Succeeds) (pos : U32)
    {data : List Byte} (hlen : 0 < data.length) (hlong : data.length < 2 ^ 32) :
    ∃ ranges', Holds (rb.rbufWrite alloc pos data).2 base ranges' := by
  rcases Nat.lt_or_ge (rb.windowEnd base) (base + (pos - rb.startPos).toNat + data.length) with
    hout | hend
  · rw [hholds.rbufWrite_refused alloc hout hlong]
    exact ⟨ranges, hholds⟩
  · have hpos : pos = wire (base + (pos - rb.startPos).toNat) := hholds.wire_offset pos
    rcases hholds.rbufWrite_inside halloc hlen (Nat.le_add_right _ _) hend with
      ⟨hdup, -⟩ | ⟨rb', ranges', hwrite, hholds', -, -, -, -⟩
    · rw [hpos, hdup]
      exact ⟨ranges, hholds⟩
    · rw [hpos, hwrite]
      exact ⟨ranges', hholds'⟩

/-! ### A buffer written only at its end -/

/-- The buffer holds exactly the positions from `base` to `fin`, where the next write goes. -/
structure Filled (rb : Rbuf) (base fin : Nat) : Prop where
  holds : ∃ ranges, Holds rb base ranges ∧ ∀ q, Covers ranges q ↔ base ≤ q ∧ q < fin
  writePos_eq : rb.writePos = wire fin
  base_le : base ≤ fin

theorem Ranged.frontEnd_eq {rb : Rbuf} {base fin : Nat} {ranges : List (Nat × Nat)}
    (hranged : Ranged rb base ranges) (hcovers : ∀ q, Covers ranges q ↔ base ≤ q ∧ q < fin)
    (hle : base ≤ fin) : frontEnd base ranges = fin := by
  have hmax := hranged.not_covers_frontEnd
  have hbase := hranged.base_le_frontEnd
  rw [hcovers] at hmax
  by_contra hne
  have hlt : fin < frontEnd base ranges := by omega
  have := (hcovers fin).mp (frontEnd_covers hle hlt)
  omega

section Filled

variable {rb : Rbuf} {base fin : Nat} (hfilled : Filled rb base fin)

include hfilled

theorem Filled.ring : Ring rb base := by
  obtain ⟨ranges, hholds, -⟩ := hfilled.holds
  exact hholds.toRing

theorem Filled.fin_le : fin ≤ rb.windowEnd base := by
  obtain ⟨ranges, hholds, hcovers⟩ := hfilled.holds
  rw [← hholds.frontEnd_eq hcovers hfilled.base_le]
  exact hholds.frontEnd_le

theorem Filled.rbufReadableBytes_toNat : rb.rbufReadableBytes.toNat = fin - base := by
  obtain ⟨ranges, hholds, hcovers⟩ := hfilled.holds
  rw [hholds.rbufReadableBytes_toNat, hholds.frontEnd_eq hcovers hfilled.base_le]

theorem Filled.rbufWritableBytes_toNat :
    rb.rbufWritableBytes.toNat = rb.windowEnd base - fin := by
  have hring := hfilled.ring
  have hsize := hring.windowSize_toNat
  have hspan := hring.windowEnd_lt
  have hfin := hfilled.fin_le
  have hbase := hfilled.base_le
  have hdist : (rb.writePos - rb.startPos).toNat = fin - base := by
    rw [hfilled.writePos_eq, hring.start, toNat_wire_sub hbase (by omega)]
  rw [rbufWritableBytes, BitVec.toNat_sub_of_le (by rw [BitVec.le_def]; omega), hsize, hdist]
  omega

theorem Filled.rbufWriteFront_eq {alloc : Alloc} (halloc : alloc.Succeeds) {data : List Byte}
    (hlen : 0 < data.length) (hfits : fin + data.length ≤ rb.windowEnd base) :
    ∃ rb', rb.rbufWriteFront alloc data = (0, rb') ∧ Filled rb' base (fin + data.length) ∧
      rb'.blocksCount = rb.blocksCount ∧
      (∀ q, base ≤ q → q < fin → rb'.cell base q = rb.cell base q) ∧
      ∀ q, fin ≤ q → q < fin + data.length → rb'.cell base q = data[q - fin]? := by
  obtain ⟨ranges, hholds, hcovers⟩ := hfilled.holds
  have hbase := hfilled.base_le
  have hroom : ¬ rb.rbufWritableBytes.toNat < data.length := by
    rw [hfilled.rbufWritableBytes_toNat]
    omega
  rcases hholds.rbufWrite_inside halloc hlen hbase hfits with
    ⟨-, hdup⟩ | ⟨rb', ranges', hwrite, hholds', hpos, hcount, hcovers', hcopied⟩
  · have := (hcovers fin).mp (hdup fin le_rfl (by omega))
    omega
  · rw [rbufWriteFront, if_neg hroom, hfilled.writePos_eq, hwrite]
    refine ⟨_, rfl, ⟨⟨ranges', ⟨⟨⟨hholds'.start, hholds'.small, hholds'.first⟩, hholds'.balanced,
      hholds'.toList_eq, hholds'.separated, hholds'.inside⟩, hholds'.allocated⟩, fun q => ?_⟩, ?_,
      by omega⟩, hcount, fun q hq hq' => ?_, fun q hq hq' => ?_⟩
    · rw [hcovers', hcovers]
      omega
    · rw [hpos, hfilled.writePos_eq, wire_add]
      rfl
    · obtain ⟨byte, hbyte⟩ := Option.isSome_iff_exists.mp
        (hholds.allocated q ((hcovers q).mpr ⟨hq, hq'⟩))
      rw [hbyte]
      exact (hcopied q hq (by omega)).2 (Or.inl hq') byte hbyte
    · exact (hcopied q (by omega) (by omega)).1 hq hq'

theorem Filled.rbufRelease_eq {n : Nat} (hn : base + n ≤ fin) :
    ∃ rb', rb.rbufRelease true (wire n) = some rb' ∧ Filled rb' (base + n) fin ∧
      rb'.blocksCount = rb.blocksCount ∧
      ∀ q, base + n ≤ q → q < fin → rb'.cell (base + n) q = rb.cell base q := by
  obtain ⟨ranges, hholds, hcovers⟩ := hfilled.holds
  have hfront := hholds.frontEnd_eq hcovers hfilled.base_le
  have hn' : base + n ≤ frontEnd base ranges := by omega
  obtain ⟨rb', hrel, hholds', hwrite, hcount, hcell⟩ := hholds.rbufRelease_eq hn'
  have hcovers' : ∀ q, Covers (dropFront base n ranges) q ↔ base + n ≤ q ∧ q < fin := by
    intro q
    rw [hholds.covers_dropFront hn', hcovers]
    omega
  exact ⟨rb', hrel, ⟨⟨_, hholds', hcovers'⟩, hwrite.trans hfilled.writePos_eq, by omega⟩, hcount,
    fun q hq hq' => hcell q ((hcovers' q).mpr ⟨hq, hq'⟩)⟩

theorem Filled.rbufRead_eq {p n : Nat} (hp : base ≤ p) (hn : p + n ≤ fin) :
    ∃ data, rb.rbufRead (wire p) n = some data ∧ data.length = n ∧
      ∀ i, i < n → data[i]? = rb.cell base (p + i) := by
  obtain ⟨ranges, hholds, hcovers⟩ := hfilled.holds
  exact hholds.rbufRead_eq (fun q hq hq' => (hcovers q).mpr ⟨by omega, by omega⟩)

end Filled

theorem filled_init {blocksCount : Nat} (hsmall : blocksCount * rbufBlockSize < 2 ^ 31) :
    Filled (init blocksCount) 0 0 :=
  ⟨⟨[], holds_init hsmall, by simp⟩, rfl, le_rfl⟩

end Rbuf

end Liteflow

import Liteflow.Proof.Window
import Mathlib.Data.Finset.Card
import Mathlib.Data.Finset.Image

/-!
# Writes that fail

`rbuf_write` puts the new range into the map, merges it with its successors, and only then asks for the
blocks that the data needs. When one of them cannot be had it returns `-1` and leaves the map as it is
by then. So a failed write leaves the buffer alone if and only if it is not taken at all (it is outside
the window, or a duplicate, or the map has no node for it) or finds all its blocks, and in the second
case it does not fail.

As long as every taken write finds its blocks, each position of the map has a block with the byte that
was last written there.
-/

namespace Liteflow

open Intervals

def Alloc.filled (alloc : Alloc) : Alloc :=
  { node := true, block := fun i => some ((alloc.block i).getD (fun _ => 0)) }

namespace Rbuf

/-! ### The blocks that a write needs -/

/-- The blocks of the `len` positions from `pos` on that do not exist. -/
def missing (rb : Rbuf) (pos : U32) (len : Nat) : Finset Nat :=
  ((Finset.range len).image (fun i => rb.blockOf (pos + BitVec.ofNat 32 i))).filter
    (fun id => (rb.blocks id).isNone)

theorem mem_missing {rb : Rbuf} {pos : U32} {len id : Nat} :
    id ∈ rb.missing pos len ↔
      (∃ i < len, rb.blockOf (pos + BitVec.ofNat 32 i) = id) ∧ rb.blocks id = none := by
  simp [missing]

def HasBlocks (alloc : Alloc) (attempt count : Nat) : Prop :=
  ∀ i < count, (alloc.block (attempt + i)).isSome

theorem offset_add {pos : U32} {i : Nat} (hi : offset pos + i < rbufBlockSize) :
    offset (pos + BitVec.ofNat 32 i) = offset pos + i := by
  unfold offset at hi ⊢
  rw [rbufBlockSize_eq] at hi ⊢
  rw [BitVec.toNat_add, BitVec.toNat_ofNat]
  omega

theorem blockOf_add (rb : Rbuf) {pos : U32} {i : Nat} (hi : offset pos + i < rbufBlockSize) :
    rb.blockOf (pos + BitVec.ofNat 32 i) = rb.blockOf pos := by
  have hstart : pos + BitVec.ofNat 32 i - BitVec.ofNat 32 (offset (pos + BitVec.ofNat 32 i)) =
      pos - BitVec.ofNat 32 (offset pos) := by
    rw [offset_add hi, BitVec.ofNat_add]
    bv_omega
  have hid : rb.getBlockId (pos + BitVec.ofNat 32 i) = rb.getBlockId pos := by
    unfold getBlockId
    rw [hstart]
  simp only [blockOf, hid]

theorem missing_chunk (rb : Rbuf) {pos : U32} {len size : Nat} (hpos : 0 < size) (hle : size ≤ len)
    (hfits : offset pos + size ≤ rbufBlockSize) :
    rb.missing pos len =
      (insert (rb.blockOf pos) ((Finset.range (len - size)).image
        (fun i => rb.blockOf (pos + BitVec.ofNat 32 size + BitVec.ofNat 32 i)))).filter
        (fun id => (rb.blocks id).isNone) := by
  rw [missing]
  congr 1
  ext id
  simp only [Finset.mem_image, Finset.mem_range, Finset.mem_insert]
  constructor
  · rintro ⟨i, hi, rfl⟩
    by_cases hchunk : i < size
    · exact Or.inl (rb.blockOf_add (by omega))
    · refine Or.inr ⟨i - size, by omega, ?_⟩
      rw [BitVec.add_assoc, ← BitVec.ofNat_add, show size + (i - size) = i by omega]
  · rintro (rfl | ⟨i, hi, rfl⟩)
    · refine ⟨0, by omega, ?_⟩
      rw [BitVec.add_zero]
    · refine ⟨size + i, by omega, ?_⟩
      rw [BitVec.ofNat_add, BitVec.add_assoc]

theorem card_missing_chunk (rb : Rbuf) {pos : U32} {len size : Nat} (hpos : 0 < size) (hle : size ≤ len)
    (hfits : offset pos + size ≤ rbufBlockSize) (block : Block) :
    (rb.missing pos len).card =
      ((rb.setBlock (rb.blockOf pos) block).missing (pos + BitVec.ofNat 32 size) (len - size)).card +
        if (rb.blocks (rb.blockOf pos)).isNone then 1 else 0 := by
  have hafter : (rb.setBlock (rb.blockOf pos) block).missing (pos + BitVec.ofNat 32 size) (len - size) =
      (rb.missing pos len).erase (rb.blockOf pos) := by
    ext id
    rw [Finset.mem_erase, rb.missing_chunk hpos hle hfits, Finset.mem_filter, Finset.mem_insert,
      Finset.mem_image, mem_missing]
    by_cases hid : id = rb.blockOf pos
    · simp [hid, setBlock]
    · have hsame : (rb.setBlock (rb.blockOf pos) block).blocks id = rb.blocks id :=
        Function.update_of_ne hid _ _
      rw [hsame]
      simp only [hid, ne_eq, not_false_eq_true, true_and, false_or, Finset.mem_range,
        Option.isNone_iff_eq_none]
      rfl
  rw [hafter]
  split
  · rename_i hnone
    refine (Finset.card_erase_add_one (mem_missing.mpr ⟨⟨0, by omega, ?_⟩, by simpa using hnone⟩)).symm
    rw [BitVec.add_zero]
  · rename_i hsome
    rw [Finset.erase_eq_of_notMem fun hmem => hsome (by simp [(mem_missing.mp hmem).2]), Nat.add_zero]

def chunkSize (pos : U32) (data : List Byte) : Nat :=
  min data.length (rbufBlockSize - offset pos)

section Turn

variable {rb : Rbuf} {pos : U32} {data : List Byte} (alloc : Alloc) (fuel attempt : Nat)

def copyRest (rb : Rbuf) (pos : U32) (data : List Byte) (block : Block) : Int × Rbuf :=
  copyToBlocks alloc fuel attempt
    (rb.setBlock (rb.blockOf pos) (copyIn block (offset pos) (data.take (chunkSize pos data))))
    (pos + BitVec.ofNat 32 (chunkSize pos data)) (data.drop (chunkSize pos data))

theorem copyToBlocks_found (hdata : data ≠ []) {block : Block}
    (hblock : rb.blocks (rb.blockOf pos) = some block) :
    copyToBlocks alloc (fuel + 1) attempt rb pos data =
      copyRest alloc fuel attempt rb pos data block := by
  obtain ⟨first, rest, rfl⟩ := List.exists_cons_of_ne_nil hdata
  simp only [copyToBlocks, hblock]
  rfl

theorem copyToBlocks_refused (hdata : data ≠ []) (hmissing : rb.blocks (rb.blockOf pos) = none)
    (hblock : alloc.block attempt = none) :
    copyToBlocks alloc (fuel + 1) attempt rb pos data = (-1, rb) := by
  obtain ⟨first, rest, rfl⟩ := List.exists_cons_of_ne_nil hdata
  simp only [copyToBlocks, hmissing, hblock]

theorem copyToBlocks_created (hdata : data ≠ []) (hmissing : rb.blocks (rb.blockOf pos) = none)
    {block : Block} (hblock : alloc.block attempt = some block) :
    copyToBlocks alloc (fuel + 1) attempt rb pos data =
      copyRest alloc fuel (attempt + 1) rb pos data block := by
  obtain ⟨first, rest, rfl⟩ := List.exists_cons_of_ne_nil hdata
  simp only [copyToBlocks, hmissing, hblock]
  rfl

end Turn

theorem hasBlocks_succ {alloc : Alloc} {attempt count : Nat} :
    HasBlocks alloc attempt (count + 1) ↔
      (alloc.block attempt).isSome ∧ HasBlocks alloc (attempt + 1) count := by
  constructor
  · intro hhas
    refine ⟨hhas 0 (by omega), fun i hi => ?_⟩
    rw [show attempt + 1 + i = attempt + (i + 1) by omega]
    exact hhas (i + 1) (by omega)
  · rintro ⟨hfirst, hrest⟩ i hi
    cases i with
    | zero => exact hfirst
    | succ i =>
        rw [show attempt + (i + 1) = attempt + 1 + i by omega]
        exact hrest i (by omega)

theorem copyToBlocks_missing (alloc : Alloc) : ∀ (fuel attempt : Nat) (rb : Rbuf) (pos : U32)
    {data : List Byte}, data.length ≤ fuel →
    (HasBlocks alloc attempt (rb.missing pos data.length).card ∧
        copyToBlocks alloc fuel attempt rb pos data =
          copyToBlocks alloc.filled fuel attempt rb pos data) ∨
      ¬HasBlocks alloc attempt (rb.missing pos data.length).card ∧
        (copyToBlocks alloc fuel attempt rb pos data).1 = -1 := by
  intro fuel
  induction fuel with
  | zero =>
      intro attempt rb pos data hlen
      obtain rfl : data = [] := List.length_eq_zero_iff.mp (by omega)
      exact Or.inl ⟨fun i hi => absurd hi (by simp [missing]), rfl⟩
  | succ fuel ih =>
      intro attempt rb pos data hlen
      by_cases hdata : data = []
      · subst hdata
        exact Or.inl ⟨fun i hi => absurd hi (by simp [missing]), rfl⟩
      have hoffset : offset pos < rbufBlockSize := Nat.mod_lt _ (by decide)
      have hpos : 0 < data.length := List.length_pos_of_ne_nil hdata
      have hsize : 0 < chunkSize pos data ∧ chunkSize pos data ≤ data.length ∧
          offset pos + chunkSize pos data ≤ rbufBlockSize := by
        unfold chunkSize
        omega
      have hcard := rb.card_missing_chunk hsize.1 hsize.2.1 hsize.2.2
      have hrest : (data.drop (chunkSize pos data)).length ≤ fuel := by
        rw [List.length_drop]
        omega
      cases hblock : rb.blocks (rb.blockOf pos) with
      | some block =>
          rw [copyToBlocks_found _ _ _ hdata hblock, copyToBlocks_found _ _ _ hdata hblock,
            hcard (copyIn block (offset pos) (data.take (chunkSize pos data))), hblock,
            ← List.length_drop]
          exact ih attempt _ _ hrest
      | none =>
          cases hfresh : alloc.block attempt with
          | none =>
              refine Or.inr ⟨fun hhas => ?_, ?_⟩
              · rw [hcard (fun _ => 0), hblock] at hhas
                simpa [hfresh] using (hasBlocks_succ.mp hhas).1
              · rw [copyToBlocks_refused _ _ _ hdata hblock hfresh]
          | some block =>
              have hfilled : alloc.filled.block attempt = some block := by
                simp [Alloc.filled, hfresh]
              rw [copyToBlocks_created _ _ _ hdata hblock hfresh,
                copyToBlocks_created _ _ _ hdata hblock hfilled,
                hcard (copyIn block (offset pos) (data.take (chunkSize pos data))), hblock,
                ← List.length_drop]
              have hfirst : (alloc.block attempt).isSome := by rw [hfresh]; rfl
              rcases ih (attempt + 1) _ _ hrest with ⟨hhas, heq⟩ | ⟨hlacks, hret⟩
              · exact Or.inl ⟨hasBlocks_succ.mpr ⟨hfirst, hhas⟩, heq⟩
              · exact Or.inr ⟨fun hhas => hlacks (hasBlocks_succ.mp hhas).2, hret⟩

/-! ### Taken writes -/

/-- The range checks of `rbuf_write`. -/
structure Fits (rb : Rbuf) (pos : U32) (data : List Byte) : Prop where
  fits : ¬ rb.windowSize < BitVec.ofNat 32 data.length
  inWindow : ¬ (rb.windowSize < pos - rb.startPos ∨
    rb.windowSize < pos + BitVec.ofNat 32 data.length - rb.startPos)

structure Taken (alloc : Alloc) (rb : Rbuf) (pos : U32) (data : List Byte) : Prop extends
    Fits rb pos data where
  fresh : ∀ range, rangeAt rb.rangeMap pos = some range →
    ¬ lessEqual (pos + BitVec.ofNat 32 data.length) range.2
  placed : alloc.node ∨ ∃ range, rangeAt rb.rangeMap pos = some range ∧
    lessEqual range.1 pos ∧ lessEqual pos range.2

theorem treemapInsert_ret {κ ν : Type} (cmp : κ → κ → Ordering) (key : κ) (value : ν)
    (t : Treemap κ ν) : 0 ≤ (t.treemapInsert cmp key value).1 := by
  have hret : ∀ t : Treemap κ ν, 0 ≤ (t.treemapInsertInternal cmp key value).1 := by
    intro t
    induction t with
    | nil => exact le_rfl
    | node c l k v r ihl ihr =>
        rw [Treemap.treemapInsertInternal]
        split
        · dsimp only
          split
          · exact ihr
          · exact le_rfl
        · dsimp only
          split
          · exact ihl
          · exact le_rfl
        · exact Int.one_nonneg
  exact hret t

section Write

variable {alloc : Alloc} {rb : Rbuf} {pos : U32} {data : List Byte}

theorem rbufWrite_of_not_taken (hnot : ¬Taken alloc rb pos data) :
    ∃ ret, ret ≠ 0 ∧ rb.rbufWrite alloc pos data = (ret, rb) := by
  by_cases hfits : rb.windowSize < BitVec.ofNat 32 data.length
  · exact ⟨rbufOutOfRange, by decide, by simp only [rbufWrite, if_pos hfits]⟩
  by_cases hwindow : rb.windowSize < pos - rb.startPos ∨
      rb.windowSize < pos + BitVec.ofNat 32 data.length - rb.startPos
  · exact ⟨rbufOutOfRange, by decide, by simp only [rbufWrite, if_neg hfits, if_pos hwindow]⟩
  have hinsert : ∃ ret, ret ≠ 0 ∧ insertRange alloc.node rb.rangeMap pos
      (pos + BitVec.ofNat 32 data.length) = .error ret := by
    rw [insertRange]
    cases hat : rangeAt rb.rangeMap pos with
    | none =>
        have hnode : ¬alloc.node := fun hnode =>
          hnot ⟨⟨hfits, hwindow⟩, by simp [hat], Or.inl hnode⟩
        exact ⟨-1, by decide, if_neg hnode⟩
    | some range =>
        by_cases hdup : lessEqual (pos + BitVec.ofNat 32 data.length) range.2
        · exact ⟨1, by decide, if_pos hdup⟩
        · have hfresh : ∀ found, rangeAt rb.rangeMap pos = some found →
              ¬ lessEqual (pos + BitVec.ofNat 32 data.length) found.2 := by
            intro found hfound
            rw [hat] at hfound
            exact Option.some.inj hfound ▸ hdup
          have hnode : ¬alloc.node := fun hnode => hnot ⟨⟨hfits, hwindow⟩, hfresh, Or.inl hnode⟩
          have hapart : ¬(lessEqual range.1 pos && lessEqual pos range.2) := fun hwithin =>
            hnot ⟨⟨hfits, hwindow⟩, hfresh, Or.inr ⟨range, hat, Bool.and_eq_true_iff.mp hwithin⟩⟩
          refine ⟨-1, by decide, ?_⟩
          dsimp only
          rw [if_neg hdup, if_neg hapart, if_neg hnode]
  obtain ⟨ret, hret, herror⟩ := hinsert
  exact ⟨ret, hret, by simp only [rbufWrite, if_neg hfits, if_neg hwindow, herror]⟩

theorem Taken.insertRange_ok (htaken : Taken alloc rb pos data) :
    ∃ ret it tree, 0 ≤ ret ∧ insertRange alloc.node rb.rangeMap pos
      (pos + BitVec.ofNat 32 data.length) = .ok (ret, it, tree) := by
  rw [insertRange]
  cases hat : rangeAt rb.rangeMap pos with
  | none =>
      have hnode : alloc.node = true := htaken.placed.resolve_right (by simp [hat])
      exact ⟨_, _, _, treemapInsert_ret _ _ _ _, if_pos hnode⟩
  | some range =>
      dsimp only
      rw [if_neg (htaken.fresh range hat)]
      by_cases hwithin : lessEqual range.1 pos && lessEqual pos range.2
      · exact ⟨0, _, _, le_rfl, if_pos hwithin⟩
      · have hnode : alloc.node = true := by
          refine htaken.placed.resolve_right ?_
          rintro ⟨found, hfound, hfrom, hto⟩
          rw [hat] at hfound
          obtain rfl := Option.some.inj hfound
          exact hwithin (Bool.and_eq_true_iff.mpr ⟨hfrom, hto⟩)
        rw [if_neg hwithin]
        exact ⟨_, _, _, treemapInsert_ret _ _ _ _, if_pos hnode⟩

theorem Taken.rbufWrite_eq (htaken : Taken alloc rb pos data) :
    ∃ ret it tree blocks, 0 ≤ ret ∧
      insertRange alloc.node rb.rangeMap pos (pos + BitVec.ofNat 32 data.length) =
        .ok (ret, it, tree) ∧
      ((HasBlocks alloc 0 (rb.missing pos data.length).card ∧
          rb.rbufWrite alloc pos data =
            (ret, { rb with rangeMap := mergedRanges it tree, blocks := blocks }) ∧
          copyToBlocks alloc.filled data.length 0 { rb with rangeMap := mergedRanges it tree } pos data =
            (0, { rb with rangeMap := mergedRanges it tree, blocks := blocks })) ∨
        ¬HasBlocks alloc 0 (rb.missing pos data.length).card ∧
          rb.rbufWrite alloc pos data =
            (-1, { rb with rangeMap := mergedRanges it tree, blocks := blocks })) := by
  obtain ⟨ret, it, tree, hret, hok⟩ := htaken.insertRange_ok
  have hwrite : rb.rbufWrite alloc pos data =
      if (copyToBlocks alloc data.length 0 { rb with rangeMap := mergedRanges it tree } pos data).1 < 0
      then copyToBlocks alloc data.length 0 { rb with rangeMap := mergedRanges it tree } pos data
      else (ret, (copyToBlocks alloc data.length 0
        { rb with rangeMap := mergedRanges it tree } pos data).2) := by
    simp only [rbufWrite, if_neg htaken.fits, if_neg htaken.inWindow, hok]
    rfl
  rcases copyToBlocks_missing alloc data.length 0 { rb with rangeMap := mergedRanges it tree } pos
    le_rfl with ⟨hhas, heq⟩ | ⟨hlacks, hfailed⟩
  · obtain ⟨copied, blocks, hcopy, hcopied⟩ := copyToBlocks_cases alloc.filled data.length 0
      { rb with rangeMap := mergedRanges it tree } pos data
    obtain rfl : copied = 0 := by
      rcases hcopied with hzero | ⟨-, i, hnone⟩
      · exact hzero
      · simp [Alloc.filled] at hnone
    rw [heq, hcopy, if_neg (lt_irrefl (0 : Int))] at hwrite
    exact ⟨ret, it, tree, blocks, hret, hok, Or.inl ⟨hhas, hwrite, hcopy⟩⟩
  · obtain ⟨copied, blocks, hcopy, -⟩ := copyToBlocks_cases alloc data.length 0
      { rb with rangeMap := mergedRanges it tree } pos data
    rw [hcopy] at hfailed hwrite
    obtain rfl : copied = -1 := hfailed
    rw [if_pos (show (-1 : Int) < 0 by decide)] at hwrite
    exact ⟨ret, it, tree, blocks, hret, hok, Or.inr ⟨hlacks, hwrite⟩⟩

theorem rbufWrite_supplied
    (hsupplied : Taken alloc rb pos data → HasBlocks alloc 0 (rb.missing pos data.length).card) :
    (rb.rbufWrite alloc pos data).1 < 0 → (rb.rbufWrite alloc pos data).2 = rb := by
  by_cases htaken : Taken alloc rb pos data
  · obtain ⟨ret, it, tree, blocks, hret, -, ⟨-, hwrite, -⟩ | ⟨hlacks, -⟩⟩ := htaken.rbufWrite_eq
    · rw [hwrite]
      exact fun hneg => absurd hret (not_le.mpr hneg)
    · exact absurd (hsupplied htaken) hlacks
  · obtain ⟨ret, -, hwrite⟩ := rbufWrite_of_not_taken htaken
    rw [hwrite]
    exact fun _ => rfl

end Write

/-! ### Taken writes in a window -/

section Window

variable {alloc : Alloc} {rb : Rbuf} {base : Nat} {ranges : List (Nat × Nat)} {pos : U32}
  {data : List Byte} (hspans : Spans rb base ranges) (htaken : Taken alloc rb pos data)
  (hlen : data.length < 2 ^ 32)

include hspans htaken hlen

theorem Spans.taken_end : base + (pos - rb.startPos).toNat + data.length ≤ rb.windowEnd base := by
  by_contra hout
  have hrefused := hspans.rbufWrite_refused alloc (not_le.mp hout) hlen
  obtain ⟨ret, it, tree, blocks, hret, -, ⟨-, hwrite, -⟩ | ⟨-, hwrite⟩⟩ := htaken.rbufWrite_eq
  · rw [hwrite] at hrefused
    have hneg : ret = -100 := (Prod.mk.inj hrefused).1
    omega
  · rw [hwrite] at hrefused
    exact absurd (Prod.mk.inj hrefused).1 (by decide)

theorem Spans.taken_widens {ret : Int} {it : U32} {tree : Treemap U32 U32}
    (hok : insertRange alloc.node rb.rangeMap pos (pos + BitVec.ofNat 32 data.length) =
      .ok (ret, it, tree)) :
    ret = 0 ∧ ∃ ranges', Widens base (rb.windowEnd base) ranges
      (base + (pos - rb.startPos).toNat) (base + (pos - rb.startPos).toNat + data.length)
      (mergedRanges it tree) ranges' := by
  have hend := hspans.taken_end htaken hlen
  have hpos := hspans.wire_offset pos
  rw [hpos] at hok
  exact hspans.insertRange_widens (Nat.le_add_right _ _) hend hok

theorem Spans.rbufWrite_lacking (hlacks : ¬HasBlocks alloc 0 (rb.missing pos data.length).card) :
    (rb.rbufWrite alloc pos data).1 = -1 ∧
      (rb.rbufWrite alloc pos data).2.rangeMap ≠ rb.rangeMap := by
  have hend := hspans.taken_end htaken hlen
  have hspan := hspans.windowEnd_lt
  obtain ⟨ret, it, tree, blocks, -, hok, ⟨hhas, -, -⟩ | ⟨-, hwrite⟩⟩ := htaken.rbufWrite_eq
  · exact absurd hhas hlacks
  obtain ⟨-, ranges', hwidens⟩ := hspans.taken_widens htaken hlen hok
  rw [hwrite]
  refine ⟨rfl, fun hsame => ?_⟩
  have hsame : mergedRanges it tree = rb.rangeMap := hsame
  have hpos : 0 < data.length := by
    by_contra hzero
    obtain rfl : data = [] := List.length_eq_zero_iff.mp (by omega)
    exact hlacks fun i hi => absurd hi (by simp [missing])
  obtain ⟨p, hp⟩ : ∃ p, p = base + (pos - rb.startPos).toNat := ⟨_, rfl⟩
  rw [← hp] at hwidens hend
  have hwire : pos = wire p := hp ▸ hspans.wire_offset pos
  -- a range that the map has before and after covers the same positions
  have hcovers : ∀ q, p ≤ q → q < p + data.length → Covers ranges q := by
    intro q hq hq'
    obtain ⟨range, hrange, hle, hlt⟩ := (hwidens.covers q).mpr (Or.inr ⟨hq, hq'⟩)
    have hmem : (wire range.1, wire range.2) ∈ wireRanges ranges := by
      rw [← hspans.toList_eq, ← hsame, hwidens.toList_eq]
      exact List.mem_map_of_mem hrange
    obtain ⟨old, hold, heq⟩ := List.mem_map.mp hmem
    have hin := hwidens.inside range hrange
    have hin' := hspans.inside old hold
    have hordered := hspans.spaced.ordered old hold
    have hstart := wire_inj (by omega) (by omega) (Prod.mk.inj heq).1
    have hfinish := wire_inj (by omega) (by omega) (Prod.mk.inj heq).2
    exact ⟨old, hold, by omega, by omega⟩
  have hdup := insertRange_covered hspan hend (show p < p + data.length by omega) (by omega)
    hspans.toList_eq hspans.spaced hspans.inside hcovers alloc.node
  rw [wire_add, ← hwire] at hdup
  rw [show wire data.length = BitVec.ofNat 32 data.length from rfl, hok] at hdup
  cases hdup

end Window

/-! ### What the blocks hold -/

/-- The bytes of `content` with those of `data` from the 32-bit position `pos` on. -/
def overwrite (content : U32 → Option Byte) (pos : U32) (data : List Byte) : U32 → Option Byte :=
  fun q => if (q - pos).toNat < data.length then data[(q - pos).toNat]? else content q

theorem overwrite_wire (content : U32 → Option Byte) {p q : Nat} {data : List Byte}
    (hpq : p < q + 2 ^ 31) (hqp : q < p + 2 ^ 31) (hlen : data.length ≤ 2 ^ 31) :
    overwrite content (wire p) data (wire q) =
      if p ≤ q ∧ q < p + data.length then data[q - p]? else content (wire q) := by
  unfold overwrite
  rcases Nat.lt_or_ge q p with hbefore | hafter
  · have hback : (wire p - wire q).toNat = p - q := toNat_wire_sub hbefore.le (by omega)
    have hneg : wire q - wire p = -(wire p - wire q) := by
      rw [BitVec.neg_sub, BitVec.add_comm, ← BitVec.sub_eq_add_neg]
    have hdist : (wire q - wire p).toNat = 2 ^ 32 - (p - q) := by
      rw [hneg, BitVec.toNat_neg, hback]
      omega
    rw [hdist, if_neg (by omega), if_neg (by omega)]
  · rw [toNat_wire_sub hafter (by omega)]
    by_cases hin : q - p < data.length
    · rw [if_pos hin, if_pos ⟨hafter, by omega⟩]
    · rw [if_neg hin, if_neg (by omega)]

structure Stored (rb : Rbuf) (base : Nat) (ranges : List (Nat × Nat)) (content : U32 → Option Byte) :
    Prop extends Spans rb base ranges where
  stored : ∀ q, Covers ranges q → ∃ byte, rb.cell base q = some byte ∧ content (wire q) = some byte

section Steps

variable {alloc : Alloc} {rb : Rbuf} {base : Nat} {ranges : List (Nat × Nat)} {pos : U32}
  {data : List Byte} {content : U32 → Option Byte}

theorem Spans.write (hspans : Spans rb base ranges) (alloc : Alloc) (pos : U32)
    (hlen : data.length < 2 ^ 32) :
    ∃ ranges', Spans (rb.rbufWrite alloc pos data).2 base ranges' := by
  by_cases htaken : Taken alloc rb pos data
  · obtain ⟨ret, it, tree, blocks, -, hok, hwrite⟩ := htaken.rbufWrite_eq
    obtain ⟨-, ranges', hwidens⟩ := hspans.taken_widens htaken hlen hok
    have hafter : (rb.rbufWrite alloc pos data).2 =
        { rb with rangeMap := mergedRanges it tree, blocks := blocks } := by
      rcases hwrite with ⟨-, hwrite, -⟩ | ⟨-, hwrite⟩ <;> rw [hwrite]
    rw [hafter]
    exact ⟨ranges', ⟨⟨hspans.start, hspans.small, hspans.first⟩, hwidens.balanced, hwidens.toList_eq,
      hwidens.spaced, hwidens.inside⟩⟩
  · obtain ⟨ret, -, hwrite⟩ := rbufWrite_of_not_taken htaken
    rw [hwrite]
    exact ⟨ranges, hspans⟩

theorem Stored.write (hstored : Stored rb base ranges content) (hlen : data.length < 2 ^ 32)
    (hsupplied : Taken alloc rb pos data → HasBlocks alloc 0 (rb.missing pos data.length).card) :
    ∃ ranges', Stored (rb.rbufWrite alloc pos data).2 base ranges'
      (if (rb.rbufWrite alloc pos data).1 = 0 then overwrite content pos data else content) := by
  have hspans := hstored.toSpans
  by_cases htaken : Taken alloc rb pos data
  · obtain ⟨ret, it, tree, blocks, -, hok, ⟨-, hwrite, hcopy⟩ | ⟨hlacks, -⟩⟩ := htaken.rbufWrite_eq
    · obtain ⟨rfl, ranges', hwidens⟩ := hspans.taken_widens htaken hlen hok
      have hend := hspans.taken_end htaken hlen
      have hspan := hspans.windowEnd_lt
      obtain ⟨p, hp⟩ : ∃ p, p = base + (pos - rb.startPos).toNat := ⟨_, rfl⟩
      have hwire : pos = wire p := hp ▸ hspans.wire_offset pos
      rw [← hp] at hwidens hend
      have hring : Ring { rb with rangeMap := mergedRanges it tree } base :=
        ⟨hspans.start, hspans.small, hspans.first⟩
      obtain ⟨blocks', hcopy', hcopied⟩ := copyToBlocks_spec
        (show alloc.filled.Succeeds from ⟨rfl, fun _ => rfl⟩) data.length 0 hring le_rfl
        (show base ≤ p by omega) hend
      rw [← hwire, hcopy] at hcopy'
      have hblocks : blocks = blocks' := congrArg (fun result => result.2.blocks) hcopy'
      rw [hwrite, if_pos rfl]
      refine ⟨ranges', ⟨⟨hspans.start, hspans.small, hspans.first⟩, hwidens.balanced,
        hwidens.toList_eq, hwidens.spaced, hwidens.inside⟩, fun q hq => ?_⟩
      subst hblocks
      have hbounds : base ≤ q ∧ q < rb.windowEnd base := by
        obtain ⟨range, hrange, hle, hlt⟩ := hq
        have := hwidens.inside range hrange
        omega
      obtain ⟨hnew, hkept⟩ := hcopied q hbounds.1 hbounds.2
      rw [hwire, overwrite_wire content (by omega) (by omega) (by omega)]
      by_cases hin : p ≤ q ∧ q < p + data.length
      · have hbyte := List.getElem?_eq_getElem (l := data) (show q - p < data.length by omega)
        rw [if_pos hin]
        exact ⟨data[q - p], (hnew hin.1 hin.2).trans hbyte, hbyte⟩
      · obtain ⟨byte, hbyte, hcontent⟩ :=
          hstored.stored q (((hwidens.covers q).mp hq).resolve_right hin)
        rw [if_neg hin]
        exact ⟨byte, hkept (by omega) byte hbyte, hcontent⟩
    · exact absurd (hsupplied htaken) hlacks
  · obtain ⟨ret, hret, hwrite⟩ := rbufWrite_of_not_taken htaken
    rw [hwrite, if_neg hret]
    exact ⟨ranges, hstored⟩

theorem Spans.setWritePos (hspans : Spans rb base ranges) (writePos : U32) :
    Spans { rb with writePos := writePos } base ranges :=
  ⟨⟨hspans.start, hspans.small, hspans.first⟩, hspans.balanced, hspans.toList_eq, hspans.spaced,
    hspans.inside⟩

theorem rbufWriteFront_cases (alloc : Alloc) (rb : Rbuf) (data : List Byte) :
    (rb.rbufWritableBytes.toNat < data.length ∧ rb.rbufWriteFront alloc data = (-1, rb)) ∨
      data.length ≤ rb.rbufWritableBytes.toNat ∧
        (((rb.rbufWrite alloc rb.writePos data).1 < 0 ∧
            rb.rbufWriteFront alloc data = rb.rbufWrite alloc rb.writePos data) ∨
          0 ≤ (rb.rbufWrite alloc rb.writePos data).1 ∧
            ∃ writePos, rb.rbufWriteFront alloc data = ((rb.rbufWrite alloc rb.writePos data).1,
              { (rb.rbufWrite alloc rb.writePos data).2 with writePos := writePos })) := by
  by_cases hroom : rb.rbufWritableBytes.toNat < data.length
  · exact Or.inl ⟨hroom, if_pos hroom⟩
  · refine Or.inr ⟨not_lt.mp hroom, ?_⟩
    rw [rbufWriteFront, if_neg hroom]
    cases rb.rbufWrite alloc rb.writePos data with
    | mk ret rb' =>
        by_cases hret : ret ≥ 0
        · exact Or.inr ⟨hret, _, if_pos hret⟩
        · exact Or.inl ⟨not_le.mp hret, if_neg hret⟩

theorem Stored.release (hstored : Stored rb base ranges content) {nodeAlloc : Bool} {size : U32}
    {rb' : Rbuf} (hrelease : rb.rbufRelease nodeAlloc size = some rb') :
    ∃ base' ranges', Stored rb' base' ranges' content := by
  obtain ⟨hn, hspans', -, hcell⟩ := hstored.toSpans.release hrelease
  refine ⟨base + size.toNat, dropFront base size.toNat ranges, hspans', fun q hq => ?_⟩
  rw [hcell q hq]
  exact hstored.stored q ((hstored.toSpans.covers_dropFront hn q).mp hq).1

end Steps

def Covered (rb : Rbuf) (pos : U32) : Prop :=
  ∃ range ∈ rb.rangeMap.toList, (pos - range.1).toNat < (range.2 - range.1).toNat

def HoldsByte (rb : Rbuf) (content : U32 → Option Byte) (pos : U32) : Prop :=
  ∃ block, rb.blocks (rb.blockOf pos) = some block ∧ content pos = some (block (offset pos))

theorem Spans.covers_of_covered {rb : Rbuf} {base : Nat} {ranges : List (Nat × Nat)}
    (hspans : Spans rb base ranges) {pos : U32} (hcovered : rb.Covered pos) :
    ∃ q, pos = wire q ∧ Covers ranges q := by
  obtain ⟨entry, hentry, hlt⟩ := hcovered
  rw [hspans.toList_eq] at hentry
  obtain ⟨range, hrange, rfl⟩ := List.mem_map.mp hentry
  have hin := hspans.inside range hrange
  have hspan := hspans.windowEnd_lt
  have hle := hspans.spaced.ordered range hrange
  dsimp only at hlt
  rw [toNat_wire_sub hle (by omega)] at hlt
  refine ⟨range.1 + (pos - wire range.1).toNat, ?_, range, hrange, Nat.le_add_right _ _, by omega⟩
  rw [wire_add, wire_of_toNat, BitVec.add_comm, BitVec.sub_add_cancel]

theorem Stored.holdsByte {rb : Rbuf} {base : Nat} {ranges : List (Nat × Nat)}
    {content : U32 → Option Byte} (hstored : Stored rb base ranges content) {pos : U32}
    (hcovered : rb.Covered pos) : rb.HoldsByte content pos := by
  obtain ⟨q, rfl, hq⟩ := hstored.toSpans.covers_of_covered hcovered
  have hbounds := hstored.toSpans.covers_bounds hq
  obtain ⟨byte, hbyte, hcontent⟩ := hstored.stored q hq
  obtain ⟨block, hblock, hvalue⟩ := Option.map_eq_some_iff.mp hbyte
  refine ⟨block, ?_, ?_⟩
  · rw [hstored.blockOf_wire hbounds.1 hbounds.2]
    exact hblock
  · rw [offset_wire, hvalue]
    exact hcontent

end Rbuf

/-! ### Runs of calls -/

namespace RbufOp

open Rbuf

def Sized : RbufOp → Prop
  | write _ data | writeFront data => data.length < 2 ^ 32
  | release _ => True

/-- The write gets to `treemap_insert2` on the empty range map, and there is no memory for a node. -/
def Dies (alloc : Alloc) (rb : Rbuf) : RbufOp → Prop
  | write pos data => rb.Fits pos data ∧ rb.rangeMap.insertDies alloc.node
  | writeFront data =>
      data.length ≤ rb.rbufWritableBytes.toNat ∧ rb.Fits rb.writePos data ∧
        rb.rangeMap.insertDies alloc.node
  | release _ => False

/-- The blocks that a write which is taken still needs. -/
def Equipped (alloc : Alloc) (rb : Rbuf) : RbufOp → Prop
  | write pos data =>
      Taken alloc rb pos data → HasBlocks alloc 0 (rb.missing pos data.length).card
  | writeFront data =>
      data.length ≤ rb.rbufWritableBytes.toNat → Taken alloc rb rb.writePos data →
        HasBlocks alloc 0 (rb.missing rb.writePos data.length).card
  | release _ => True

def Supplied (alloc : Alloc) (rb : Rbuf) (op : RbufOp) : Prop :=
  ¬op.Dies alloc rb ∧ op.Equipped alloc rb

end RbufOp

structure Rbuf.Untouched (rb rb' : Rbuf) : Prop where
  rangeMap : rb'.rangeMap = rb.rangeMap
  writePos : rb'.writePos = rb.writePos
  readable : rb'.rbufReadableBytes = rb.rbufReadableBytes
  bytes : ∀ n, rb'.rbufReadFront n = rb.rbufReadFront n

namespace RbufOp

open Rbuf

variable {alloc : Alloc} {rb rb' : Rbuf} {op : RbufOp} {content : U32 → Option Byte}

/-- The call survives, and when it fails it leaves everything as it was. -/
def FailsClean (alloc : Alloc) (rb : Rbuf) (op : RbufOp) : Prop :=
  ¬op.Dies alloc rb ∧ ∀ ret rb', op.apply alloc rb = some (ret, rb') → ret < 0 → Untouched rb rb'

theorem Supplied.failsClean (hsupplied : op.Supplied alloc rb) : op.FailsClean alloc rb := by
  obtain ⟨hlives, hsupplied⟩ := hsupplied
  refine ⟨hlives, fun ret rb' happly hneg => ?_⟩
  suffices hsame : rb' = rb by
    subst hsame
    exact ⟨rfl, rfl, rfl, fun _ => rfl⟩
  cases op with
  | write pos data =>
      have hresult := Option.some.inj happly
      have hkept := rbufWrite_supplied hsupplied
      rw [hresult] at hkept
      exact hkept hneg
  | writeFront data =>
      have hresult := Option.some.inj happly
      rcases rbufWriteFront_cases alloc rb data with ⟨-, heq⟩ | ⟨hroom, ⟨-, heq⟩ | ⟨hret, _, heq⟩⟩
      · rw [heq] at hresult
        exact (Prod.mk.inj hresult).2.symm
      · have hkept := rbufWrite_supplied (hsupplied hroom)
        rw [← heq, hresult] at hkept
        exact hkept hneg
      · rw [heq] at hresult
        rw [(Prod.mk.inj hresult).1] at hret
        exact absurd hret (not_le.mpr hneg)
  | release size =>
      obtain ⟨after, -, hafter⟩ := Option.map_eq_some_iff.mp happly
      exact absurd hneg ((Prod.mk.inj hafter).1 ▸ lt_irrefl 0)

theorem failsClean_iff {base : Nat} {ranges : List (Nat × Nat)} (hspans : Spans rb base ranges)
    (hsized : op.Sized) : op.FailsClean alloc rb ↔ op.Supplied alloc rb := by
  refine ⟨fun hclean => ⟨hclean.1, ?_⟩, Supplied.failsClean⟩
  obtain ⟨-, hclean⟩ := hclean
  cases op with
  | write pos data =>
      intro htaken
      by_contra hlacks
      obtain ⟨hret, hmap⟩ := hspans.rbufWrite_lacking htaken hsized hlacks
      have hfailed : (rb.rbufWrite alloc pos data).1 < 0 := by
        rw [hret]
        decide
      exact hmap (hclean _ (rb.rbufWrite alloc pos data).2 rfl hfailed).rangeMap
  | writeFront data =>
      intro hroom htaken
      by_contra hlacks
      obtain ⟨hret, hmap⟩ := hspans.rbufWrite_lacking htaken hsized hlacks
      rcases rbufWriteFront_cases alloc rb data with ⟨hfull, -⟩ | ⟨-, ⟨-, heq⟩ | ⟨hnonneg, -⟩⟩
      · omega
      · have hfailed : (rb.rbufWrite alloc rb.writePos data).1 < 0 := by
          rw [hret]
          decide
        exact hmap (hclean _ (rb.rbufWrite alloc rb.writePos data).2 (congrArg some heq) hfailed).rangeMap
      · rw [hret] at hnonneg
        exact absurd hnonneg (by decide)
  | release size => trivial

/-- The bytes written by the calls that returned 0, the last one at each position. -/
def record (rb : Rbuf) (ret : Int) (content : U32 → Option Byte) : RbufOp → U32 → Option Byte
  | write pos data => if ret = 0 then overwrite content pos data else content
  | writeFront data => if ret = 0 then overwrite content rb.writePos data else content
  | release _ => content

def recordAll : Rbuf → (U32 → Option Byte) → List (Alloc × RbufOp) → U32 → Option Byte
  | _, content, [] => content
  | rb, content, (alloc, op) :: rest =>
      match op.apply alloc rb with
      | none => content
      | some (ret, rb') => recordAll rb' (op.record rb ret content) rest

def AllSupplied : Rbuf → List (Alloc × RbufOp) → Prop
  | _, [] => True
  | rb, (alloc, op) :: rest =>
      op.Supplied alloc rb ∧ ∀ ret rb', op.apply alloc rb = some (ret, rb') → AllSupplied rb' rest

theorem spans_apply {base : Nat} {ranges : List (Nat × Nat)} {ret : Int}
    (hspans : Spans rb base ranges) (hsized : op.Sized)
    (happly : op.apply alloc rb = some (ret, rb')) : ∃ base' ranges', Spans rb' base' ranges' := by
  cases op with
  | write pos data =>
      have hresult := Option.some.inj happly
      have hafter := hspans.write alloc pos hsized
      rw [hresult] at hafter
      exact ⟨base, hafter⟩
  | writeFront data =>
      have hresult := Option.some.inj happly
      obtain ⟨ranges', hafter⟩ := hspans.write alloc rb.writePos hsized
      rcases rbufWriteFront_cases alloc rb data with ⟨-, heq⟩ | ⟨-, ⟨-, heq⟩ | ⟨-, writePos, heq⟩⟩
      · rw [heq] at hresult
        exact (Prod.mk.inj hresult).2 ▸ ⟨base, ranges, hspans⟩
      · rw [← heq, hresult] at hafter
        exact ⟨base, ranges', hafter⟩
      · rw [heq] at hresult
        exact (Prod.mk.inj hresult).2 ▸ ⟨base, ranges', hafter.setWritePos writePos⟩
  | release size =>
      obtain ⟨after, hrelease, hafter⟩ := Option.map_eq_some_iff.mp happly
      obtain ⟨-, hspans', -⟩ := hspans.release hrelease
      exact (Prod.mk.inj hafter).2 ▸ ⟨_, _, hspans'⟩

theorem stored_apply {base : Nat} {ranges : List (Nat × Nat)} {ret : Int}
    (hstored : Stored rb base ranges content) (hsized : op.Sized) (hsupplied : op.Equipped alloc rb)
    (happly : op.apply alloc rb = some (ret, rb')) :
    ∃ base' ranges', Stored rb' base' ranges' (op.record rb ret content) := by
  cases op with
  | write pos data =>
      have hresult := Option.some.inj happly
      have hafter := hstored.write hsized hsupplied
      rw [hresult] at hafter
      exact ⟨base, hafter⟩
  | writeFront data =>
      have hresult := Option.some.inj happly
      rcases rbufWriteFront_cases alloc rb data with ⟨-, heq⟩ | ⟨hroom, ⟨hret, heq⟩ | ⟨-, writePos, heq⟩⟩
      · rw [heq] at hresult
        obtain ⟨rfl, rfl⟩ := Prod.mk.inj hresult
        exact ⟨base, ranges, hstored⟩
      · obtain ⟨ranges', hafter⟩ := hstored.write hsized (hsupplied hroom)
        rw [← heq, hresult] at hafter
        exact ⟨base, ranges', hafter⟩
      · obtain ⟨ranges', hafter⟩ := hstored.write hsized (hsupplied hroom)
        rw [heq] at hresult
        obtain ⟨rfl, rfl⟩ := Prod.mk.inj hresult
        exact ⟨base, ranges', hafter.toSpans.setWritePos writePos, hafter.stored⟩
  | release size =>
      obtain ⟨after, hrelease, hafter⟩ := Option.map_eq_some_iff.mp happly
      obtain ⟨base', ranges', hstored'⟩ := hstored.release hrelease
      exact (Prod.mk.inj hafter).2 ▸ ⟨base', ranges', hstored'⟩

theorem applyAll_cons {rest : List (Alloc × RbufOp)} {rets : List Int}
    (hrun : applyAll rb ((alloc, op) :: rest) = some (rets, rb')) :
    ∃ ret mid rets', op.apply alloc rb = some (ret, mid) ∧ applyAll mid rest = some (rets', rb') := by
  rw [applyAll] at hrun
  split at hrun
  · cases hrun
  · rename_i ret mid happly
    obtain ⟨result, hresult, heq⟩ := Option.map_eq_some_iff.mp hrun
    exact ⟨ret, mid, result.1, happly, hresult.trans (congrArg some (Prod.ext rfl (Prod.mk.inj heq).2))⟩

theorem spans_applyAll : ∀ (calls : List (Alloc × RbufOp)) {rb rb' : Rbuf} {base : Nat}
    {ranges : List (Nat × Nat)} {rets : List Int}, Spans rb base ranges →
    (∀ call ∈ calls, call.2.Sized) → applyAll rb calls = some (rets, rb') →
    ∃ base' ranges', Spans rb' base' ranges' := by
  intro calls
  induction calls with
  | nil =>
      intro rb rb' base ranges rets hspans _ hrun
      cases hrun
      exact ⟨base, ranges, hspans⟩
  | cons call rest ih =>
      intro rb rb' base ranges rets hspans hsized hrun
      obtain ⟨ret, mid, rets', happly, hrest⟩ := applyAll_cons hrun
      obtain ⟨base', ranges', hmid⟩ := spans_apply hspans (hsized call (by simp)) happly
      exact ih hmid (fun later hlater => hsized later (by simp [hlater])) hrest

theorem stored_applyAll : ∀ (calls : List (Alloc × RbufOp)) {rb rb' : Rbuf} {base : Nat}
    {ranges : List (Nat × Nat)} {content : U32 → Option Byte} {rets : List Int},
    Stored rb base ranges content → (∀ call ∈ calls, call.2.Sized) → AllSupplied rb calls →
    applyAll rb calls = some (rets, rb') →
    ∃ base' ranges', Stored rb' base' ranges' (recordAll rb content calls) := by
  intro calls
  induction calls with
  | nil =>
      intro rb rb' base ranges content rets hstored _ _ hrun
      cases hrun
      exact ⟨base, ranges, hstored⟩
  | cons call rest ih =>
      obtain ⟨alloc, op⟩ := call
      intro rb rb' base ranges content rets hstored hsized hsupplied hrun
      obtain ⟨ret, mid, rets', happly, hrest⟩ := applyAll_cons hrun
      obtain ⟨base', ranges', hmid⟩ :=
        stored_apply hstored (hsized (alloc, op) (by simp)) hsupplied.1.2 happly
      have hrecord : recordAll rb content ((alloc, op) :: rest) =
          recordAll mid (op.record rb ret content) rest := by
        rw [recordAll, happly]
      rw [hrecord]
      exact ih hmid (fun later hlater => hsized later (by simp [hlater])) (hsupplied.2 ret mid happly)
        hrest

end RbufOp

open RbufOp in
/-- **Failed writes.** A supplied write that fails leaves the buffer as it was. In each state that
calls reach from `rbuf_init`, whatever allocations fail, that is the exact condition; and after a run
of supplied calls each position of the range map has a block with the byte last written there. -/
theorem rbuf_failedWrites (alloc : Alloc) (op : RbufOp) :
    (∀ rb : Rbuf, op.Supplied alloc rb → op.FailsClean alloc rb) ∧
    ∀ (blocksCount : Nat) (calls : List (Alloc × RbufOp)) (rets : List Int) (rb : Rbuf),
      blocksCount * rbufBlockSize < 2 ^ 31 → (∀ call ∈ calls, call.2.Sized) →
      applyAll (Rbuf.init blocksCount) calls = some (rets, rb) →
      (op.Sized → (op.FailsClean alloc rb ↔ op.Supplied alloc rb)) ∧
      (AllSupplied (Rbuf.init blocksCount) calls → ∀ pos, rb.Covered pos →
        rb.HoldsByte (recordAll (Rbuf.init blocksCount) (fun _ => none) calls) pos) := by
  refine ⟨fun _ => Supplied.failsClean, fun blocksCount calls rets rb hsmall hsized hrun => ?_⟩
  have hinit := (Rbuf.holds_init hsmall).toRanged.spans
  refine ⟨fun hop => ?_, fun hsupplied pos hcovered => ?_⟩
  · obtain ⟨base, ranges, hspans⟩ := spans_applyAll calls hinit hsized hrun
    exact failsClean_iff hspans hop
  · have hstored : Rbuf.Stored (Rbuf.init blocksCount) 0 [] (fun _ => none) :=
      ⟨hinit, fun q hq => absurd hq (covers_nil q)⟩
    obtain ⟨base, ranges, hafter⟩ := stored_applyAll calls hstored hsized hsupplied hrun
    exact hafter.holdsByte hcovered

def RbufOp.twoWritten : List (Alloc × RbufOp) :=
  [(.zeroed, .write 0 [1, 2]), (.zeroed, .release 1)]

open RbufOp in
/-- With no memory for a node any more, a write apart from the range that exists returns `-1`, and
fails clean. -/
theorem rbuf_failedWrites_twoWritten :
    ∃ rets rb, applyAll (Rbuf.init 1) twoWritten = some (rets, rb) ∧
      (rb.rbufWrite ⟨false, fun _ => none⟩ 5 [7]).1 = -1 ∧
      FailsClean ⟨false, fun _ => none⟩ rb (.write 5 [7]) ∧
      rb.HoldsByte (recordAll (Rbuf.init 1) (fun _ => none) twoWritten) 1 := by
  have hafter : (applyAll (Rbuf.init 1) twoWritten).any (fun result =>
      (result.2.rbufWrite ⟨false, fun _ => none⟩ 5 [7]).1 = -1 ∧ result.2.rangeMap.isNil = false ∧
        Rbuf.rangeAt result.2.rangeMap 5 = some (1, 2) ∧ (1, 2) ∈ result.2.rangeMap.toList) = true := by
    decide +kernel
  obtain ⟨⟨rets, rb⟩, hrun, hchecks⟩ := (Option.any_eq_true _ _).mp hafter
  obtain ⟨hfailed, hmap, hat, hrange⟩ := of_decide_eq_true hchecks
  have hsized : ∀ call ∈ twoWritten, call.2.Sized := by
    simp [twoWritten, Sized]
  have hsupplied : Supplied ⟨false, fun _ => none⟩ rb (.write 5 [7]) := by
    refine ⟨fun hdies => absurd hdies.2 (by simp [Treemap.insertDies, hmap]), fun htaken => ?_⟩
    rcases htaken.placed with hnode | ⟨range, hfound, -, hbelow⟩
    · cases hnode
    · cases hat.symm.trans hfound
      exact absurd hbelow (by decide)
  obtain ⟨hclean, hreached⟩ := rbuf_failedWrites ⟨false, fun _ => none⟩ (.write 5 [7])
  have hheld := (hreached 1 twoWritten rets rb (by decide) hsized hrun).2
  refine ⟨rets, rb, hrun, hfailed, hclean rb hsupplied, hheld ?_ 1 ⟨(1, 2), hrange, by decide⟩⟩
  exact ⟨⟨fun hdies => absurd hdies.2 (by decide), fun _ _ _ => rfl⟩, fun _ _ _ =>
    ⟨⟨not_false, trivial⟩, fun _ _ _ => trivial⟩⟩

open RbufOp in
/-- The first write finds no block: it returns `-1`, and the byte counts as readable. -/
theorem not_failsClean_noBlock :
    let result := (Rbuf.init 1).rbufWrite ⟨true, fun _ => none⟩ 0 [1]
    result.1 = -1 ∧ (Rbuf.init 1).rbufReadableBytes = 0 ∧ result.2.rbufReadableBytes = 1 ∧
      result.2.blocks (result.2.blockOf 0) = none ∧
      ¬FailsClean ⟨true, fun _ => none⟩ (Rbuf.init 1) (.write 0 [1]) := by
  intro result
  refine ⟨by decide +kernel, by decide +kernel, by decide +kernel, by decide +kernel, fun hclean => ?_⟩
  have hsame := (hclean.2 result.1 result.2 rfl (by decide +kernel)).readable
  exact absurd hsame (by decide +kernel)

end Liteflow

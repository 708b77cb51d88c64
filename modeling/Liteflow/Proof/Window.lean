import Liteflow.Proof.Rbuffer

/-!
# The buffer over whole runs

The abstract buffer is a partial map from stream positions to bytes, with the position at which its
window starts and the one at which the next append goes. Every call of the code, on a buffer that
represents such a map, returns what the abstract call returns and leaves a buffer that represents
the abstract result, whatever the starting position: positions here are natural numbers, and the
wrap at `2 ^ 32` is only in their 32-bit form.
-/

namespace Liteflow

open Intervals Rbuf

inductive RbufOp where
  | write (pos : U32) (data : List Byte)
  | writeFront (data : List Byte)
  | release (size : U32)

namespace RbufOp

def apply (alloc : Alloc) (rb : Rbuf) : RbufOp → Option (Int × Rbuf)
  | write pos data => some (rb.rbufWrite alloc pos data)
  | writeFront data => some (rb.rbufWriteFront alloc data)
  | release size => (rb.rbufRelease alloc.node size).map (fun rb' => (0, rb'))

/-- Writes have a length, which is a `uint32_t`, and a release is of readable bytes. -/
def Allowed (rb : Rbuf) : RbufOp → Prop
  | write _ data | writeFront data => 0 < data.length ∧ data.length < 2 ^ 32
  | release size => size ≤ rb.rbufReadableBytes

def applyAll : Rbuf → List (Alloc × RbufOp) → Option (List Int × Rbuf)
  | rb, [] => some ([], rb)
  | rb, (alloc, op) :: rest =>
      match op.apply alloc rb with
      | none => none
      | some (ret, rb') => (applyAll rb' rest).map (fun result => (ret :: result.1, result.2))

def AllAllowed : Rbuf → List (Alloc × RbufOp) → Prop
  | _, [] => True
  | rb, (alloc, op) :: rest =>
      alloc.Succeeds ∧ op.Allowed rb ∧
        ∀ ret rb', op.apply alloc rb = some (ret, rb') → AllAllowed rb' rest

end RbufOp

/-! ### The abstract buffer -/

structure Window where
  blocksCount : Nat
  base : Nat
  writePos : U32
  bytes : Nat → Option Byte

namespace Window

/-- The number of positions in the window: whole blocks, less what has been released of the
first. -/
def size (w : Window) : Nat :=
  rbufBlockSize * w.blocksCount - w.base % rbufBlockSize

def hasAll (w : Window) (p n : Nat) : Bool :=
  (List.range n).all (fun i => (w.bytes (p + i)).isSome)

def overwrite (w : Window) (p : Nat) (data : List Byte) : Window :=
  { w with bytes := fun q => if p ≤ q ∧ q < p + data.length then data[q - p]? else w.bytes q }

/-- A write at the 32-bit position `pos`, counted from the start of the window. -/
def write (w : Window) (pos : U32) (data : List Byte) : Int × Window :=
  let p := w.base + (pos - wire w.base).toNat
  if p + data.length ≤ w.base + w.size then
    if w.hasAll p data.length then (1, w) else (0, w.overwrite p data)
  else (rbufOutOfRange, w)

/-- An append. The room for it is a 32-bit difference. -/
def writeFront (w : Window) (data : List Byte) : Int × Window :=
  if (wire w.size - (w.writePos - wire w.base)).toNat < data.length then (-1, w)
  else
    let (ret, w') := w.write w.writePos data
    (ret, if ret ≥ 0 then { w' with writePos := w.writePos + wire data.length } else w')

def release (w : Window) (n : Nat) : Window :=
  { w with base := w.base + n, bytes := fun q => if q < w.base + n then none else w.bytes q }

def apply (w : Window) : RbufOp → Int × Window
  | .write pos data => w.write pos data
  | .writeFront data => w.writeFront data
  | .release size => (0, w.release size.toNat)

def applyAll : Window → List (Alloc × RbufOp) → List Int × Window
  | w, [] => ([], w)
  | w, (_, op) :: rest =>
      ((w.apply op).1 :: ((w.apply op).2.applyAll rest).1, ((w.apply op).2.applyAll rest).2)

end Window

structure Represents (rb : Rbuf) (w : Window) : Prop where
  blocksCount_eq : rb.blocksCount = w.blocksCount
  writePos_eq : rb.writePos = w.writePos
  holds : ∃ ranges, Holds rb w.base ranges ∧ (∀ q, Covers ranges q ↔ (w.bytes q).isSome) ∧
    ∀ q, Covers ranges q → rb.cell w.base q = w.bytes q

namespace Represents

variable {rb : Rbuf} {w : Window} (hrep : Represents rb w)

include hrep

theorem ring : Ring rb w.base := by
  obtain ⟨ranges, hholds, -⟩ := hrep.holds
  exact hholds.toRing

theorem windowEnd_eq : rb.windowEnd w.base = w.base + w.size := by
  have hle := hrep.ring.base_le_windowEnd
  have hmod := Nat.div_add_mod w.base rbufBlockSize
  have hlt := Nat.mod_lt w.base (show 0 < rbufBlockSize by decide)
  rw [windowEnd, Nat.add_mul, hrep.blocksCount_eq] at hle ⊢
  rw [Window.size, Nat.mul_comm rbufBlockSize w.blocksCount]
  rw [Nat.mul_comm] at hmod
  omega

theorem windowSize_eq : rb.windowSize = wire w.size := by
  have hring := hrep.ring
  have hspan := hring.windowEnd_lt
  apply BitVec.eq_of_toNat_eq
  rw [hring.windowSize_toNat, hrep.windowEnd_eq, wire_toNat]
  rw [hrep.windowEnd_eq] at hspan
  omega

theorem write {alloc : Alloc} (halloc : alloc.Succeeds) (pos : U32) {data : List Byte}
    (hpos : 0 < data.length) (hlen : data.length < 2 ^ 32) :
    (rb.rbufWrite alloc pos data).1 = (w.write pos data).1 ∧
      Represents (rb.rbufWrite alloc pos data).2 (w.write pos data).2 := by
  obtain ⟨ranges, hholds, hdom, hcell⟩ := hrep.holds
  have hspan := hholds.windowEnd_lt
  have hend := hrep.windowEnd_eq
  obtain ⟨d, hd, hd32⟩ : ∃ d, (pos - wire w.base).toNat = d ∧ d < 2 ^ 32 :=
    ⟨_, rfl, BitVec.isLt _⟩
  have hwire : pos = wire (w.base + d) := by
    rw [wire_add, ← hd, wire, wire, BitVec.ofNat_toNat, BitVec.setWidth_eq, BitVec.add_comm,
      BitVec.sub_add_cancel]
  rw [Window.write, hd]
  split
  · rename_i hfits
    rw [hwire]
    split
    · rename_i hall
      have hcovers : ∀ q, w.base + d ≤ q → q < w.base + d + data.length → Covers ranges q := by
        intro q hq hq'
        rw [hdom]
        have := List.all_eq_true.mp hall (q - (w.base + d)) (List.mem_range.mpr (by omega))
        rwa [show w.base + d + (q - (w.base + d)) = q by omega] at this
      have hdup := hholds.rbufWrite_covered alloc hpos (show w.base ≤ w.base + d by omega)
        (by omega) hcovers
      rw [hdup]
      exact ⟨rfl, hrep⟩
    · rename_i hsome
      rcases hholds.rbufWrite_inside halloc hpos (show w.base ≤ w.base + d by omega) (by omega) with
        ⟨-, hcovers⟩ | ⟨rb', ranges', hwrite, hholds', hwp, hcount, hcovers, hcopied⟩
      · refine absurd (List.all_eq_true.mpr (fun i hi => ?_)) hsome
        have hi' := List.mem_range.mp hi
        exact (hdom _).mp (hcovers _ (by omega) (by omega))
      · rw [hwrite]
        refine ⟨rfl, hcount.trans hrep.blocksCount_eq, hwp.trans hrep.writePos_eq, ranges', hholds',
          fun q => ?_, fun q hq => ?_⟩
        · rw [hcovers q, hdom q, Window.overwrite]
          dsimp only
          by_cases hin : w.base + d ≤ q ∧ q < w.base + d + data.length
          · rw [if_pos hin, List.getElem?_eq_getElem (by omega)]
            simp [hin]
          · rw [if_neg hin]
            simp [hin]
        · have hbounds := hholds'.covers_bounds hq
          have hend' : rb'.windowEnd w.base = rb.windowEnd w.base := by
            rw [windowEnd, windowEnd, hcount]
          obtain ⟨hnew, hkept⟩ := hcopied q hbounds.1 (hend' ▸ hbounds.2)
          rw [Window.overwrite]
          dsimp only
          by_cases hin : w.base + d ≤ q ∧ q < w.base + d + data.length
          · rw [if_pos hin]
            exact hnew hin.1 hin.2
          · rw [if_neg hin]
            have hold := ((hcovers q).mp hq).resolve_right hin
            obtain ⟨byte, hbyte⟩ := Option.isSome_iff_exists.mp ((hdom q).mp hold)
            rw [hbyte]
            exact hkept (by omega) byte ((hcell q hold).trans hbyte)
  · rename_i hout
    have hpast : rb.windowEnd w.base < w.base + (pos - rb.startPos).toNat + data.length := by
      rw [hholds.start, hd]
      omega
    rw [hholds.rbufWrite_refused alloc hpast hlen]
    exact ⟨rfl, hrep⟩

theorem setWritePos (pos : U32) :
    Represents { rb with writePos := pos } { w with writePos := pos } := by
  obtain ⟨ranges, hholds, hdom, hcell⟩ := hrep.holds
  exact ⟨hrep.blocksCount_eq, rfl, ranges, ⟨⟨⟨hholds.start, hholds.small, hholds.first⟩,
    hholds.balanced, hholds.toList_eq, hholds.separated, hholds.inside⟩, hholds.allocated⟩, hdom,
    hcell⟩

theorem writeFront {alloc : Alloc} (halloc : alloc.Succeeds) {data : List Byte}
    (hpos : 0 < data.length) (hlen : data.length < 2 ^ 32) :
    (rb.rbufWriteFront alloc data).1 = (w.writeFront data).1 ∧
      Represents (rb.rbufWriteFront alloc data).2 (w.writeFront data).2 := by
  have hroom : rb.rbufWritableBytes = wire w.size - (w.writePos - wire w.base) := by
    rw [rbufWritableBytes, hrep.windowSize_eq, hrep.writePos_eq, hrep.ring.start]
  rw [rbufWriteFront, Window.writeFront, hroom]
  split
  · exact ⟨rfl, hrep⟩
  · obtain ⟨hret, hafter⟩ := hrep.write halloc rb.writePos hpos hlen
    rw [← hrep.writePos_eq]
    cases hwrite : rb.rbufWrite alloc rb.writePos data with
    | mk ret rb' =>
        rw [hwrite] at hret hafter
        dsimp only at hret hafter ⊢
        rw [hret] at *
        split
        · rename_i hge
          have hwp : rb'.writePos = rb.writePos := by
            rw [hafter.writePos_eq, Window.write]
            split
            · split
              · exact hrep.writePos_eq.symm
              · exact hrep.writePos_eq.symm
            · exact hrep.writePos_eq.symm
          rw [hwp]
          exact ⟨rfl, hafter.setWritePos _⟩
        · exact ⟨rfl, hafter⟩

theorem readable (n : Nat) :
    n ≤ rb.rbufReadableBytes.toNat ↔ ∀ i < n, (w.bytes (w.base + i)).isSome := by
  obtain ⟨ranges, hholds, hdom, -⟩ := hrep.holds
  have hmax := hholds.not_covers_frontEnd
  have hle := hholds.base_le_frontEnd
  rw [hholds.rbufReadableBytes_toNat]
  constructor
  · intro hn i hi
    have hlt : w.base + i < frontEnd w.base ranges := by omega
    rw [← hdom]
    exact frontEnd_covers (Nat.le_add_right _ _) hlt
  · intro hall
    by_contra hlt
    refine hmax ?_
    rw [hdom]
    have := hall (frontEnd w.base ranges - w.base) (by omega)
    rwa [show w.base + (frontEnd w.base ranges - w.base) = frontEnd w.base ranges by omega] at this

theorem release {alloc : Alloc} (halloc : alloc.Succeeds) {size : U32}
    (hsize : size ≤ rb.rbufReadableBytes) :
    ∃ rb', rb.rbufRelease alloc.node size = some rb' ∧ Represents rb' (w.release size.toNat) := by
  obtain ⟨ranges, hholds, hdom, hcell⟩ := hrep.holds
  have hle := hholds.base_le_frontEnd
  have hn : w.base + size.toNat ≤ frontEnd w.base ranges := by
    rw [BitVec.le_def, hholds.rbufReadableBytes_toNat] at hsize
    omega
  obtain ⟨rb', hrel, hholds', hwp, hcount, hcell'⟩ := hholds.rbufRelease_eq hn
  rw [wire_of_toNat] at hrel
  rw [halloc.1]
  refine ⟨rb', hrel, hcount.trans hrep.blocksCount_eq, hwp.trans hrep.writePos_eq, _, hholds',
    fun q => ?_, fun q hq => ?_⟩
  · rw [hholds.covers_dropFront hn, hdom, Window.release]
    dsimp only
    split
    · rename_i hlt
      simp only [Option.isSome_none, Bool.false_eq_true, iff_false, not_and]
      omega
    · rename_i hge
      exact and_iff_left (by omega)
  · obtain ⟨hold, hge⟩ := (hholds.covers_dropFront hn q).mp hq
    change rb'.cell (w.base + size.toNat) q = if q < w.base + size.toNat then none else w.bytes q
    rw [if_neg (by omega), hcell' q hq, hcell q hold]

theorem apply {alloc : Alloc} (halloc : alloc.Succeeds) {op : RbufOp} (hop : op.Allowed rb) :
    ∃ rb', op.apply alloc rb = some ((w.apply op).1, rb') ∧ Represents rb' (w.apply op).2 := by
  cases op with
  | write pos data =>
      obtain ⟨hret, hafter⟩ := hrep.write halloc pos hop.1 hop.2
      exact ⟨_, congrArg some (Prod.ext hret rfl), hafter⟩
  | writeFront data =>
      obtain ⟨hret, hafter⟩ := hrep.writeFront halloc hop.1 hop.2
      exact ⟨_, congrArg some (Prod.ext hret rfl), hafter⟩
  | release size =>
      obtain ⟨rb', hrel, hafter⟩ := hrep.release halloc hop
      refine ⟨rb', ?_, hafter⟩
      rw [RbufOp.apply, hrel, Option.map_some, Window.apply]

omit hrep in
theorem applyAll : ∀ (ops : List (Alloc × RbufOp)) {rb : Rbuf} {w : Window}, Represents rb w →
    RbufOp.AllAllowed rb ops →
    ∃ rb', RbufOp.applyAll rb ops = some ((w.applyAll ops).1, rb') ∧
      Represents rb' (w.applyAll ops).2 := by
  intro ops
  induction ops with
  | nil => exact fun hrep _ => ⟨_, rfl, hrep⟩
  | cons call rest ih =>
      obtain ⟨alloc, op⟩ := call
      intro rb w hrep ⟨halloc, hop, hrest⟩
      obtain ⟨rb', happly, hrep'⟩ := hrep.apply halloc hop
      obtain ⟨rb'', hrun, hrep''⟩ := ih hrep' (hrest _ _ happly)
      refine ⟨rb'', ?_, hrep''⟩
      rw [RbufOp.applyAll, happly]
      dsimp only
      rw [hrun, Option.map_some]
      rfl

theorem read {p n : Nat} (hheld : ∀ i < n, (w.bytes (p + i)).isSome) :
    ∃ data, rb.rbufRead (wire p) n = some data ∧ data.length = n ∧
      ∀ i < n, data[i]? = w.bytes (p + i) := by
  obtain ⟨ranges, hholds, hdom, hcell⟩ := hrep.holds
  have hcovers : ∀ q, p ≤ q → q < p + n → Covers ranges q := by
    intro q hq hq'
    rw [hdom, ← Nat.add_sub_of_le hq]
    exact hheld (q - p) (by omega)
  obtain ⟨data, hread, hlength, hdata⟩ := hholds.rbufRead_eq hcovers
  refine ⟨data, hread, hlength, fun i hi => ?_⟩
  rw [hdata i hi, hcell _ (hcovers _ (by omega) (by omega))]

end Represents

structure Shows (rb : Rbuf) (w : Window) : Prop where
  blocks : rb.blocksCount = w.blocksCount
  start : rb.startPos = wire w.base
  inside : ∀ q, (w.bytes q).isSome → w.base ≤ q ∧ q < w.base + w.size
  range_map : ∃ ranges : List (Nat × Nat), rb.rangeMap.toList = wireRanges ranges ∧
    Separated ranges ∧ ∀ q, Covers ranges q ↔ (w.bytes q).isSome
  readable : ∀ n, n ≤ rb.rbufReadableBytes.toNat ↔ ∀ i < n, (w.bytes (w.base + i)).isSome
  read : ∀ p n, (∀ i < n, (w.bytes (p + i)).isSome) →
    ∃ data, rb.rbufRead (wire p) n = some data ∧ data.length = n ∧
      ∀ i < n, data[i]? = w.bytes (p + i)

theorem Represents.shows {rb : Rbuf} {w : Window} (hrep : Represents rb w) : Shows rb w where
  blocks := hrep.blocksCount_eq
  start := hrep.ring.start
  inside := by
    obtain ⟨ranges, hholds, hdom, -⟩ := hrep.holds
    intro q hq
    rw [← hrep.windowEnd_eq]
    exact hholds.covers_bounds ((hdom q).mpr hq)
  range_map := by
    obtain ⟨ranges, hholds, hdom, -⟩ := hrep.holds
    exact ⟨ranges, hholds.toList_eq, hholds.separated, hdom⟩
  readable := hrep.readable
  read := fun _ _ => hrep.read

def Rbuf.startingAt (blocksCount : Nat) (start writePos : U32) : Rbuf :=
  { Rbuf.init blocksCount with startPos := start, writePos := writePos }

def Window.startingAt (blocksCount : Nat) (start writePos : U32) : Window where
  blocksCount := blocksCount
  base := start.toNat
  writePos := writePos
  bytes := fun _ => none

theorem represents_startingAt {blocksCount : Nat} {start : U32}
    (hpos : 0 < blocksCount ∨ start = 0) (hsmall : rbufBlockSize * blocksCount < 2 ^ 31)
    (writePos : U32) :
    Represents (Rbuf.startingAt blocksCount start writePos)
      (Window.startingAt blocksCount start writePos) where
  blocksCount_eq := rfl
  writePos_eq := rfl
  holds := by
    refine ⟨[], ⟨⟨⟨?_, ?_, ?_⟩, Treemap.balanced_nil, rfl, separated_nil, by simp⟩, by simp⟩,
      by simp [Window.startingAt], by simp⟩
    · rw [Window.startingAt, wire_of_toNat]
      rfl
    · rw [Nat.mul_comm]
      exact hsmall
    · rcases Nat.eq_zero_or_pos blocksCount with hzero | hblocks
      · refine Or.inr ⟨hzero, ?_⟩
        rw [Window.startingAt, hpos.resolve_left (by omega)]
        rfl
      · exact Or.inl hblocks

/-- Any run of non-empty writes and of releases of readable bytes, from any starting position, on a
buffer with at least one block, or with none and start 0: every call returns what it returns on the
partial map, and the buffer shows the map that results. -/
theorem rbuf_sparseWindow {blocksCount : Nat} {start : U32} (hpos : 0 < blocksCount ∨ start = 0)
    (hsmall : rbufBlockSize * blocksCount < 2 ^ 31) (writePos : U32)
    (ops : List (Alloc × RbufOp))
    (hops : RbufOp.AllAllowed (Rbuf.startingAt blocksCount start writePos) ops) :
    let w := Window.startingAt blocksCount start writePos
    ∃ rb, RbufOp.applyAll (Rbuf.startingAt blocksCount start writePos) ops =
        some ((w.applyAll ops).1, rb) ∧ Shows rb (w.applyAll ops).2 := by
  intro w
  obtain ⟨rb, hrun, hrep⟩ := Represents.applyAll ops
    (represents_startingAt hpos hsmall writePos) hops
  exact ⟨rb, hrun, hrep.shows⟩

def Alloc.zeroed : Alloc where
  node := true
  block := fun _ => some (fun _ => 0)

theorem rbuf_sparseWindow_wrap :
    let ops : List (Alloc × RbufOp) :=
      [(.zeroed, .write 0xFFFFFFFE [1, 2, 3]), (.zeroed, .release 1)]
    ∃ rb, RbufOp.applyAll (Rbuf.startingAt 2 0xFFFFFFFE 0) ops = some ([0, 0], rb) ∧
      Shows rb ((Window.startingAt 2 0xFFFFFFFE 0).applyAll ops).2 := by
  intro ops
  refine rbuf_sparseWindow (Or.inl (by decide)) (by decide) 0 ops
    ⟨⟨rfl, fun _ => rfl⟩, ⟨by decide, by decide⟩, fun ret rb' heq => ⟨⟨rfl, fun _ => rfl⟩, ?_, fun _ _ _ =>
      trivial⟩⟩
  obtain ⟨rfl, rfl⟩ := Prod.mk.inj (Option.some.inj heq)
  change (1 : U32) ≤ _
  decide +kernel

/-- An append of no bytes to an empty buffer leaves an empty interval in the range map. -/
theorem rbuf_sparseWindow_emptyFront :
    ¬ ∃ w, Shows ((Rbuf.startingAt 1 0 0).rbufWriteFront .zeroed []).2 w := by
  rintro ⟨w, hshows⟩
  obtain ⟨ranges, hlist, hsep, hcovers⟩ := hshows.range_map
  have hranges : wireRanges ranges = [(0, 0)] := by
    rw [← hlist]
    decide +kernel
  obtain ⟨⟨s, e⟩, rfl⟩ : ∃ range, ranges = [range] := by
    rw [← List.length_eq_one_iff, ← List.length_map, ← wireRanges, hranges]
    rfl
  simp only [wireRanges_cons, wireRanges_nil, List.cons.injEq, Prod.mk.injEq, and_true] at hranges
  have hlt : s < e := hsep.nonempty (s, e) (by simp)
  have hfirst := hshows.inside s ((hcovers s).mp (by simp [hlt]))
  have hlast := hshows.inside (e - 1) ((hcovers (e - 1)).mp (by simp; omega))
  have hsize : w.size ≤ 131072 := by
    rw [Window.size, ← hshows.blocks]
    exact Nat.sub_le _ _
  have heq := wire_inj (by omega) (by omega) (hranges.1.trans hranges.2.symm)
  omega

end Liteflow

import Liteflow.Lib.Serial
import Liteflow.Treemap

/-!
# The sparse buffer

`common/rbuffer.c`: a window of the stream kept in a ring of 128 KB blocks, with a map of the ranges
that have been written. Positions are the 32-bit ones of the source.

An allocation can fail. Every function that allocates takes an `Alloc`, which says what `malloc`
returns: for a node of the range map, and for the blocks in the order they are asked for. A fresh
block has arbitrary contents.
-/

namespace Liteflow

abbrev Byte := BitVec 8
abbrev U8 := BitVec 8
abbrev U16 := BitVec 16
abbrev U32 := BitVec 32
abbrev Time := Int

def rbufBlockBit : Nat := 17
def rbufBlockSize : Nat := 2 ^ rbufBlockBit
def rbufOutOfRange : Int := -100

abbrev Block := Nat → Byte

structure Rbuf where
  startPos : U32
  writePos : U32
  startBlock : Nat
  blocksCount : Nat
  rangeMap : Treemap U32 U32
  blocks : Nat → Option Block

structure Alloc where
  node : Bool
  block : Nat → Option Block

def Alloc.Succeeds (alloc : Alloc) : Prop :=
  alloc.node = true ∧ ∀ i, (alloc.block i).isSome

def seqCmp (a b : U32) : Ordering :=
  Serial.cmp a b

def lessEqual (a b : U32) : Bool :=
  Serial.le a b

namespace Rbuf

def init (blocksCount : Nat) : Rbuf where
  startPos := 0
  writePos := 0
  startBlock := 0
  blocksCount := blocksCount
  rangeMap := .nil
  blocks := fun _ => none

/-- `pos & RBUF_BLOCK_MASK`. -/
def offset (pos : U32) : Nat :=
  pos.toNat % rbufBlockSize

/-- `RBUF_BLOCK_SIZE * blocks_count - (start_pos & RBUF_BLOCK_MASK)`. -/
def windowSize (rb : Rbuf) : U32 :=
  BitVec.ofNat 32 (rbufBlockSize * rb.blocksCount) - BitVec.ofNat 32 (offset rb.startPos)

def getBlockId (rb : Rbuf) (pos : U32) : Nat :=
  let blockDist :=
    (pos - BitVec.ofNat 32 (offset pos)) - (rb.startPos - BitVec.ofNat 32 (offset rb.startPos))
  let id := rb.startBlock + blockDist.toNat / rbufBlockSize
  if id ≥ rb.blocksCount then id - rb.blocksCount else id

/-- The block of `pos`, after the second reduction that the copy loops make. -/
def blockOf (rb : Rbuf) (pos : U32) : Nat :=
  let id := rb.getBlockId pos
  if id ≥ rb.blocksCount then id - rb.blocksCount else id

/-! ### Writing -/

/-- The range that starts last at or before `pos`. -/
def rangeAt {ν : Type} (ranges : Treemap U32 ν) (pos : U32) : Option (U32 × ν) :=
  match ranges.treemapUpperBound seqCmp pos with
  | none => ranges.treemapLast
  | some (key, _) => ranges.treemapPrev key

/-- "merge successor range overlapped": `it` is the key of the range just written, and the loop takes
over every range that starts at or before its end. -/
def mergeSuccessors : Nat → Treemap U32 U32 → U32 → Treemap U32 U32
  | 0, ranges, _ => ranges
  | fuel + 1, ranges, it =>
      match ranges.treemapValue it, ranges.treemapNext it with
      | some pend, some (nstart, nend) =>
          if lessEqual nstart pend then
            let extended :=
              if lessEqual pend nend then ranges.treemapSetValue it (fun _ => nend) else ranges
            mergeSuccessors fuel (extended.treemapDelete seqCmp nstart).2 it
          else
            ranges
      | _, _ => ranges

/-- What `rbuf_write` does to the range map: the key of the range that now holds the data, or the
value `rbuf_write` returns at once. It returns no -1 to anybody where the insertion dies
(`Treemap.insertDies`); the model goes on there, so that what holds of it holds of the runs that
survive. -/
def insertRange (nodeAlloc : Bool) (ranges : Treemap U32 U32) (pos fin : U32) :
    Except Int (Int × U32 × Treemap U32 U32) :=
  let insert :=
    if nodeAlloc then
      let (ret, ranges') := ranges.treemapInsert seqCmp pos fin
      .ok (ret, pos, ranges')
    else
      .error (-1)
  match rangeAt ranges pos with
  | some (rstart, rend) =>
      if lessEqual fin rend then
        .error 1 -- data duplicated
      else if lessEqual rstart pos && lessEqual pos rend then
        .ok (0, rstart, ranges.treemapSetValue rstart (fun _ => fin))
      else
        insert
  | none => insert

def copyIn (block : Block) (start : Nat) (data : List Byte) : Block := fun i =>
  if start ≤ i then (data[i - start]?).getD (block i) else block i

/-- The copy loop of `rbuf_write`, one block at a time. `attempt` counts the calls of `block_create`.
Returns -1 with what has been copied so far when a block cannot be had. -/
def copyToBlocks (alloc : Alloc) : Nat → Nat → Rbuf → U32 → List Byte → Int × Rbuf
  | 0, _, rb, _, _ => (0, rb)
  | fuel + 1, attempt, rb, pos, data =>
      match data with
      | [] => (0, rb)
      | _ :: _ =>
          let copySize := min data.length (rbufBlockSize - offset pos)
          let id := rb.blockOf pos
          let rest := copyToBlocks alloc fuel
          match rb.blocks id with
          | some block =>
              let copied := copyIn block (offset pos) (data.take copySize)
              rest attempt { rb with blocks := Function.update rb.blocks id (some copied) }
                (pos + BitVec.ofNat 32 copySize) (data.drop copySize)
          | none =>
              match alloc.block attempt with
              | none => (-1, rb)
              | some block =>
                  let copied := copyIn block (offset pos) (data.take copySize)
                  rest (attempt + 1)
                    { rb with blocks := Function.update rb.blocks id (some copied) }
                    (pos + BitVec.ofNat 32 copySize) (data.drop copySize)

def rbufWrite (alloc : Alloc) (rb : Rbuf) (pos : U32) (data : List Byte) : Int × Rbuf :=
  let dataLen := BitVec.ofNat 32 data.length
  let fin := pos + dataLen
  let maxSize := rb.windowSize
  if maxSize < dataLen then (rbufOutOfRange, rb)
  else if maxSize < pos - rb.startPos ∨ maxSize < fin - rb.startPos then (rbufOutOfRange, rb)
  else
    match insertRange alloc.node rb.rangeMap pos fin with
    | .error ret => (ret, rb)
    | .ok (ret, it, ranges) =>
        let merged := mergeSuccessors ranges.treemapSize ranges it
        let (copied, rb') :=
          copyToBlocks alloc data.length 0 { rb with rangeMap := merged } pos data
        if copied < 0 then (copied, rb') else (ret, rb')

/-! ### Reading and releasing -/

/-- The copy loop of `rbuf_read`. `none` when a block that does not exist is read. -/
def copyFromBlocks (rb : Rbuf) : Nat → U32 → Nat → Option (List Byte)
  | 0, _, _ => some []
  | fuel + 1, pos, dataLen =>
      if dataLen = 0 then
        some []
      else
        let copySize := min dataLen (rbufBlockSize - offset pos)
        match rb.blocks (rb.blockOf pos) with
        | none => none
        | some block =>
            (copyFromBlocks rb fuel (pos + BitVec.ofNat 32 copySize) (dataLen - copySize)).map
              (fun rest => (List.range copySize).map (fun i => block (offset pos + i)) ++ rest)

def rbufRead (rb : Rbuf) (pos : U32) (dataLen : Nat) : Option (List Byte) :=
  rb.copyFromBlocks dataLen pos dataLen

def rbufReadableBytes (rb : Rbuf) : U32 :=
  match rb.rangeMap.treemapFirst with
  | none => 0
  | some (fstart, fend) => if rb.startPos ≠ fstart then 0 else fend - fstart

def rbufWritableBytes (rb : Rbuf) : U32 :=
  rb.windowSize - (rb.writePos - rb.startPos)

def rbufWriteFront (alloc : Alloc) (rb : Rbuf) (data : List Byte) : Int × Rbuf :=
  if rb.rbufWritableBytes.toNat < data.length then (-1, rb)
  else
    let (ret, rb') := rb.rbufWrite alloc rb.writePos data
    if ret ≥ 0 then (ret, { rb' with writePos := rb'.writePos + BitVec.ofNat 32 data.length })
    else (ret, rb')

def rbufReadFront (rb : Rbuf) (dataSize : Nat) : Option (List Byte) :=
  rb.rbufRead rb.startPos (min dataSize rb.rbufReadableBytes.toNat)

/-- `rbuf_window_info`: start and size. -/
def rbufWindowInfo (rb : Rbuf) : U32 × U32 :=
  (rb.startPos, rb.windowSize)

/-- The loop of `rbuf_release` that frees the blocks it leaves. -/
def releaseBlocks : Nat → Rbuf → Nat → Rbuf
  | 0, rb, _ => rb
  | fuel + 1, rb, size =>
      if size = 0 then
        rb
      else
        let left := rbufBlockSize - offset rb.startPos
        if left ≤ size then
          releaseBlocks fuel
            { rb with
              blocks := Function.update rb.blocks rb.startBlock none
              startBlock := if rb.startBlock + 1 < rb.blocksCount then rb.startBlock + 1 else 0
              startPos := rb.startPos + BitVec.ofNat 32 left }
            (size - left)
        else
          { rb with startPos := rb.startPos + BitVec.ofNat 32 size }

/-- `none` when the assertion `r_size <= readable` fails, or the one on the insertion. -/
def rbufRelease (nodeAlloc : Bool) (rb : Rbuf) (size : U32) : Option Rbuf :=
  let readable := rb.rbufReadableBytes
  if readable < size then
    none
  else
    let removed := (rb.rangeMap.treemapDelete seqCmp rb.startPos).2
    if size = readable then
      some (releaseBlocks size.toNat { rb with rangeMap := removed } size.toNat)
    else
      match rb.rangeMap.treemapFirst with
      | none => none
      | some (_, fend) =>
          match nodeAlloc, removed.treemapInsert seqCmp (rb.startPos + size) fend with
          | true, (0, ranges) =>
              some (releaseBlocks size.toNat { rb with rangeMap := ranges } size.toNat)
          | _, _ => none

end Rbuf

end Liteflow

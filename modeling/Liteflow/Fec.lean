import Liteflow.Config
import Liteflow.HashQueue

/-!
# Forward error correction

`fec.c`, apart from the sending of a full group. The sender accumulates the exclusive or of the data
packets of a group; the receiver accumulates that of what it has seen of a group, and reads the one
missing packet off it. A buffer is a function from offsets to bytes, zero past what was written.
-/

namespace Liteflow

def fecMembersMax : U8 := 127

structure FecGroup where
  fecSeq : U32
  fecEnd : U32
  fecMembers : U8
  fecFinish : U8
  fecSum : Bool
  fecMap : U8 → Bool
  fecBuf : Nat → Byte

structure FecMod where
  currentFecSeq : U32
  currentFecEnd : U32
  currentFecIndex : U8
  currentFecMembers : U8
  fecRecvStart : U32
  fecRecvEnd : U32
  fecQueue : HashQueue U32 FecGroup
  fecLen : U16
  fecBuf : Nat → Byte

/-- The exclusive-or loops over `data`. -/
def xorInto (buf : Nat → Byte) (data : List Byte) : Nat → Byte := fun i =>
  buf i ^^^ (data[i]?).getD 0

namespace FecMod

def init (cfg : Config) : FecMod where
  currentFecSeq := 0
  currentFecEnd := 0
  currentFecIndex := 0
  currentFecMembers := cfg.fecGroupSize.setWidth 8
  fecRecvStart := 0
  fecRecvEnd := cfg.bufferSize
  fecQueue := []
  fecLen := 0
  fecBuf := fun _ => 0

/-! ### Sending -/

/-- `fec_push_data` up to the test whether the group is full. -/
def fecPushData (fm : FecMod) (post : DataPost) : FecMod :=
  let fecSize := sizeofDataPost + post.len.toNat
  { fm with
    fecBuf := xorInto fm.fecBuf post.bytes
    fecLen := BitVec.ofNat 16 (max fm.fecLen.toNat fecSize)
    currentFecEnd := post.seq + post.len.setWidth 32
    currentFecIndex := fm.currentFecIndex + 1 }

/-- The datagram of `fec_post`. -/
def groupPacket (fm : FecMod) : DataFec where
  fecSeq := fm.currentFecSeq
  fecMembers := fm.currentFecIndex
  fecData := (List.range fm.fecLen.toNat).map fm.fecBuf

def resetGroup (cfg : Config) (fm : FecMod) : FecMod :=
  { fm with
    currentFecSeq := fm.currentFecEnd
    currentFecIndex := 0
    currentFecMembers := cfg.fecGroupSize.setWidth 8
    fecLen := 0
    fecBuf := fun _ => 0 }

/-! ### Receiving -/

/-- The loop of `fec_checkpoint`. -/
def checkpointLoop (recvStart : U32) : Nat → FecMod → FecMod
  | 0, fm => fm
  | fuel + 1, fm =>
      match fm.fecQueue with
      | (_, fec1) :: (_, fec2) :: _ =>
          if lessEqual fec2.fecSeq recvStart then
            checkpointLoop recvStart fuel
              { fm with
                fecRecvStart := fec2.fecSeq
                fecQueue := fm.fecQueue.queueDel fec1.fecSeq }
          else
            fm
      | _ => fm

def fecCheckpoint (cfg : Config) (fm : FecMod) (recvStart : U32) : FecMod :=
  let checked := checkpointLoop recvStart fm.fecQueue.length fm
  { checked with fecRecvEnd := recvStart + cfg.bufferSize }

/-- The loop of `fec_insert` over `queue_prev`, from the end of the queue on: `before` has the groups
that are still to come, the next one first. -/
def arrangeLoop (fseq : U32) (entry : U32 × FecGroup) :
    HashQueue U32 FecGroup → HashQueue U32 FecGroup → HashQueue U32 FecGroup
  | [], later => entry :: later -- queue_move_front
  | prec :: before, later =>
      if lessEqual fseq prec.2.fecSeq then arrangeLoop fseq entry before (prec :: later)
      else before.reverse ++ prec :: entry :: later -- queue_move_to

/-- "Arrange fec queue by ascending order", after the new group has been appended. -/
def arrange (fseq : U32) (group : FecGroup) (queue : HashQueue U32 FecGroup) :
    HashQueue U32 FecGroup :=
  arrangeLoop fseq (fseq, group) queue.reverse []

def newGroup (fseq : U32) (fmems : U8) : FecGroup where
  fecSeq := fseq
  fecEnd := fseq
  fecMembers := fmems
  fecFinish := 0
  fecSum := false
  fecMap := fun _ => false
  fecBuf := fun _ => 0

/-- What `fec_insert` leaves: the packet it hands to `litedt_on_data_recv`, if any, and the indices it
has used with `FEC_ISSET` and `FEC_SET`. -/
structure Inserted where
  fec : FecMod
  recovered : Option DataPost := none
  indices : List U8 := []

/-- `if (LESS_EQUAL(fec->fec_end, fin)) fec->fec_end = fin`. -/
def FecGroup.extend (group : FecGroup) (fin : U32) : FecGroup :=
  if lessEqual group.fecEnd fin then { group with fecEnd := fin } else group

def FecGroup.mark (group : FecGroup) (idx : U8) : FecGroup :=
  { group with fecMap := Function.update group.fecMap idx true }

/-- The end of `fec_insert`, when `group` has counted the packet: the missing packet of a group is
read off the buffer once everything else is there. An index from 128 on is outside of `fec_map`, and
`FEC_SET` then writes to the `fec_buf` behind it: `indices` shows these, and what the source does
afterwards is not modelled. -/
def recover (fm : FecMod) (fseq : U32) (group : FecGroup) (used : List U8) : Inserted :=
  let store (group : FecGroup) : FecMod :=
    { fm with fecQueue := fm.fecQueue.queueModify fseq (fun _ => group) }
  if group.fecFinish = group.fecMembers ∧ group.fecSum then
    let dp := DataPost.ofBytes group.fecBuf
    if dp.fecSeq ≠ fseq then
      { fec := store group, indices := used }
    else if group.fecMap dp.fecIndex then
      { fec := store group, indices := used ++ [dp.fecIndex] }
    else
      let complete := FecGroup.extend (FecGroup.mark group dp.fecIndex)
        (dp.seq + dp.len.setWidth 32)
      { fec := { store complete with fecRecvStart := complete.fecEnd }
        recovered := some dp
        indices := used ++ [dp.fecIndex] }
  else
    { fec := store group, indices := used }

/-- `fec_insert`. For a data packet `fin` is `dp->seq + dp->len`. -/
def fecInsert (nodeAlloc : Bool) (fm : FecMod) (fseq : U32) (fidx fmems : U8) (buf : List Byte)
    (fin : U32) : Inserted :=
  if fm.fecRecvEnd - fm.fecRecvStart ≤ fseq - fm.fecRecvStart then
    { fec := fm } -- FEC packet out of range
  else if fmems = 0 ∨ fecMembersMax < fmems ∨ (fidx < fecMembersMax ∧ fmems ≤ fidx) ∨
      buf.length = 0 then
    { fec := fm }
  else if litedtMtuMax < buf.length then
    { fec := fm }
  else
    let opened :=
      match fm.fecQueue.queueGet fseq with
      | some _ => fm
      | none =>
          if nodeAlloc then { fm with fecQueue := arrange fseq (newGroup fseq fmems) fm.fecQueue }
          else fm
    match opened.fecQueue.queueGet fseq with
    | none => { fec := opened } -- queue_append has failed
    | some group =>
        let count (group : FecGroup) : FecGroup :=
          { group with
            fecBuf := xorInto group.fecBuf buf
            fecFinish := group.fecFinish + 1 }
        if fecMembersMax < fidx then
          if group.fecSum then
            { fec := opened }
          else
            opened.recover fseq (count { group with fecMembers := fmems, fecSum := true }) []
        else if group.fecMap fidx then
          { fec := opened, indices := [fidx] }
        else
          opened.recover fseq (count (FecGroup.extend (FecGroup.mark group fidx) fin)) [fidx]

def fecInsertData (nodeAlloc : Bool) (fm : FecMod) (data : DataPost) : Inserted :=
  fm.fecInsert nodeAlloc data.fecSeq data.fecIndex fecMembersMax data.bytes
    (data.seq + data.len.setWidth 32)

def fecInsertSum (nodeAlloc : Bool) (fm : FecMod) (fec : DataFec) : Inserted :=
  fm.fecInsert nodeAlloc fec.fecSeq (fecMembersMax + 1) fec.fecMembers fec.fecData 0

end FecMod

end Liteflow

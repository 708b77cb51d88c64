import Liteflow.Timerlist
import Mathlib.Algebra.Group.Int.Defs

/-!
# The timer list with its hash chains

`common/timerlist.c` once more, with the memory laid out as the code has it: the heap array, the
nodes with their keys and values, and for each bucket the chain of the addresses linked into it.
`Timerlist` leaves the chains out, which is enough for its users; here every operation walks the
chain of its key's bucket and reads each node's key on the way. The operations return what the code
returns, the number of nodes they touched.
-/

namespace Liteflow

namespace TimerlistData

variable {κ ν : Type}

/-- The conversion of an `int64_t` to `uint64_t`. -/
def asUint64 (time : Int) : Nat :=
  (time % 2 ^ 64).toNat

/-- One turn of the loop of `timerlist_resched`. The old time is kept as a `uint64_t`, and the
comparison converts the new one too. -/
def reschedNode (time : Int) (tq : TimerlistData κ ν) (address : Nat) : TimerlistData κ ν :=
  let id := tq.heapId address
  let origTime := asUint64 (tq.heap id).time
  let moved := tq.setTime id time
  if asUint64 time < origTime then moved.adjustUp id id else moved.adjustDown moved.nodeCount id

def node? (tq : TimerlistData κ ν) (address : Nat) : Option (TimerNode κ ν) :=
  tq.nodes.find? (fun n => n.id = address)

def timeOf (tq : TimerlistData κ ν) (address : Nat) : Int :=
  (tq.heap (tq.heapId address)).time

/-- `!memcmp(nkey, key, tq->key_size)` for the node at the address. -/
def hasKey [DecidableEq κ] (tq : TimerlistData κ ν) (key : κ) (address : Nat) : Bool :=
  (tq.node? address).any (fun n => n.key = key)

end TimerlistData

structure TimerTable (κ ν : Type) where
  hashFn : κ → Nat
  bucketSize : Nat
  data : TimerlistData κ ν
  hash : Nat → List Nat

namespace TimerTable

variable {κ ν : Type}

def timerlistInit (bucketSize : Nat) (hashFn : κ → Nat) : TimerTable κ ν where
  hashFn := hashFn
  bucketSize := bucketSize
  data := Timerlist.timerlistInit.toTimerlistData
  hash := fun _ => []

/-- `tq->hash_fn(key, tq->key_size) % tq->bucket_size`. -/
def bucket (tq : TimerTable κ ν) (key : κ) : Nat :=
  tq.hashFn key % tq.bucketSize

def chain (tq : TimerTable κ ν) (key : κ) : List Nat :=
  tq.hash (tq.bucket key)

/-- `list_del`: the node leaves the chain it is linked into. -/
def listDel (tq : TimerTable κ ν) (address : Nat) : TimerTable κ ν :=
  { tq with hash := fun hv => (tq.hash hv).filter (fun other => other ≠ address) }

def timerlistPush (tq : TimerTable κ ν) (time : Int) (key : κ) (value : ν) : TimerTable κ ν :=
  { tq with
    data := tq.data.push time key value
    hash := Function.update tq.hash (tq.bucket key) (tq.chain key ++ [tq.data.nextId]) }

def timerlistPop (tq : TimerTable κ ν) : TimerTable κ ν :=
  if tq.data.nodeCount = 0 then tq
  else { tq with data := tq.data.pop }.listDel (tq.data.heap 0).node

def timerlistReschedTop (tq : TimerTable κ ν) (time : Int) : TimerTable κ ν × Nat :=
  if tq.data.nodeCount = 0 then (tq, 0)
  else ({ tq with data := (tq.data.setTime 0 time).adjustDown tq.data.nodeCount 0 }, 1)

/-- The loop frees the nodes of the heap one after another and leaves the array as it is. -/
def timerlistClear (tq : TimerTable κ ν) : TimerTable κ ν :=
  let freed := (List.range tq.data.nodeCount).map (fun i => (tq.data.heap i).node)
  { tq with
    data :=
      { tq.data with
        nodeCount := 0
        nodes := tq.data.nodes.filter (fun n => n.id ∉ freed) }
    hash := fun hv => (tq.hash hv).filter (fun address => address ∉ freed) }

/-- Address and time of the first entry of the heap. -/
def timerlistTop (tq : TimerTable κ ν) : Option (Nat × Int) :=
  if tq.data.nodeCount = 0 then none
  else some ((tq.data.heap 0).node, (tq.data.heap 0).time)

section Keys

variable [DecidableEq κ]

/-- One turn of the loop over the chain that `timerlist_del`, `timerlist_moveup` and
`timerlist_resched` share: `touch` is what they do to a node with the key. -/
def turn (touch : TimerTable κ ν → Nat → TimerTable κ ν × Nat) (key : κ)
    (state : TimerTable κ ν × Nat) (address : Nat) : TimerTable κ ν × Nat :=
  if state.1.data.hasKey key address then
    ((touch state.1 address).1, state.2 + (touch state.1 address).2)
  else state

def walk (touch : TimerTable κ ν → Nat → TimerTable κ ν × Nat) (tq : TimerTable κ ν) (key : κ) :
    TimerTable κ ν × Nat :=
  (tq.chain key).foldl (turn touch key) (tq, 0)

def timerlistDel (tq : TimerTable κ ν) (key : κ) : TimerTable κ ν × Nat :=
  tq.walk (fun tq address => ({ tq with data := tq.data.delNode address }.listDel address, 1)) key

def timerlistMoveup (tq : TimerTable κ ν) (time : Int) (key : κ) : TimerTable κ ν × Nat :=
  tq.walk (fun tq address =>
    ({ tq with data := tq.data.moveupNode time address },
      if tq.data.timeOf address ≤ time then 0 else 1)) key

def timerlistResched (tq : TimerTable κ ν) (time : Int) (key : κ) : TimerTable κ ν × Nat :=
  tq.walk (fun tq address => ({ tq with data := tq.data.reschedNode time address }, 1)) key

def timerlistFindFirst (tq : TimerTable κ ν) (key : κ) : Option Nat :=
  (tq.chain key).find? (tq.data.hasKey key)

/-- The search goes on behind the node in the chain of its own key. -/
def timerlistFindNext (tq : TimerTable κ ν) (address : Nat) : Option Nat :=
  match tq.data.node? address with
  | none => none
  | some n =>
      ((tq.chain n.key).dropWhile (fun other => other ≠ address)).tail.find? (tq.data.hasKey n.key)

/-- Time and value of the first node with the key. -/
def timerlistGet (tq : TimerTable κ ν) (key : κ) : Option (Int × ν) :=
  match (tq.chain key).find? (tq.data.hasKey key) with
  | none => none
  | some address => (tq.data.node? address).map (fun n => (tq.data.timeOf address, n.value))

end Keys

end TimerTable

/-! ### Runs of operations -/

inductive TimerOp (κ ν : Type) where
  | push (time : Int) (key : κ) (value : ν)
  | pop
  | moveup (time : Int) (key : κ)
  | resched (time : Int) (key : κ)
  | reschedTop (time : Int)
  | del (key : κ)
  | clear

namespace TimerOp

variable {κ ν : Type}

/-- A non-negative `int64_t`. -/
def IsTime (time : Int) : Prop :=
  0 ≤ time ∧ time < 2 ^ 63

/-- The operation's time, if it has one, is non-negative. -/
def Timed : TimerOp κ ν → Prop
  | push time _ _ | moveup time _ | resched time _ | reschedTop time => IsTime time
  | pop | del _ | clear => True

variable [DecidableEq κ]

/-- The list after the operation, and the number that it returns; 0 where it returns nothing. -/
def apply (tq : TimerTable κ ν) : TimerOp κ ν → TimerTable κ ν × Nat
  | push time key value => (tq.timerlistPush time key value, 0)
  | pop => (tq.timerlistPop, 0)
  | moveup time key => tq.timerlistMoveup time key
  | resched time key => tq.timerlistResched time key
  | reschedTop time => tq.timerlistReschedTop time
  | del key => tq.timerlistDel key
  | clear => (tq.timerlistClear, 0)

def applyAll (tq : TimerTable κ ν) (ops : List (TimerOp κ ν)) : TimerTable κ ν :=
  ops.foldl (fun tq op => (op.apply tq).1) tq

end TimerOp

end Liteflow

import Liteflow.Treemap

/-!
# The tree map with its links

`common/treemap.c` once more, with what `Treemap` leaves out: every node has an address and the
`parent` field that the rotations and the deletion write, and the map has the cached `first` and the
count of its nodes. The `left` and `right` links are the subtrees themselves. A pointer to a node is
the node's address, and following one looks the address up in the tree.
-/

namespace Liteflow

inductive LinkedTree (κ ν : Type) where
  | nil
  | node (addr : Nat) (parent : Option Nat) (color : NodeColor) (left : LinkedTree κ ν) (key : κ)
      (value : ν) (right : LinkedTree κ ν)

namespace LinkedTree

variable {κ ν : Type}

/-- The pointer to the root of a subtree. -/
def addr? : LinkedTree κ ν → Option Nat
  | nil => none
  | node a _ _ _ _ _ _ => some a

def isNil : LinkedTree κ ν → Bool
  | nil => true
  | node _ _ _ _ _ _ _ => false

def isRed : LinkedTree κ ν → Bool
  | nil => false
  | node _ _ c _ _ _ _ => decide (c = .red)

def left : LinkedTree κ ν → LinkedTree κ ν
  | nil => nil
  | node _ _ _ l _ _ _ => l

def right : LinkedTree κ ν → LinkedTree κ ν
  | nil => nil
  | node _ _ _ _ _ _ r => r

/-- The assignment `node->parent = parent`, if there is a node. -/
def setParent (parent : Option Nat) : LinkedTree κ ν → LinkedTree κ ν
  | nil => nil
  | node a _ c l k v r => node a parent c l k v r

def flipRoot : LinkedTree κ ν → LinkedTree κ ν
  | nil => nil
  | node a p c l k v r => node a p c.flip l k v r

def setBlack : LinkedTree κ ν → LinkedTree κ ν
  | nil => nil
  | node a p _ l k v r => node a p .black l k v r

def addrs : LinkedTree κ ν → List Nat
  | nil => []
  | node a _ _ l _ _ r => addrs l ++ a :: addrs r

/-! ### Rotations -/

def rotateLeft : LinkedTree κ ν → LinkedTree κ ν
  | node a p c l k v (node ra _ _ rl rk rv rr) =>
      node ra p c (node a (some ra) .red l k v (rl.setParent (some a))) rk rv rr
  | t => t

def rotateRight : LinkedTree κ ν → LinkedTree κ ν
  | node a p c (node la _ _ ll lk lv lr) k v r =>
      node la p c ll lk lv (node a (some la) .red (lr.setParent (some a)) k v r)
  | t => t

def flipColor : LinkedTree κ ν → LinkedTree κ ν
  | nil => nil
  | node a p c l k v r => node a p c.flip (flipRoot l) k v (flipRoot r)

def rotateRightOfRight : LinkedTree κ ν → LinkedTree κ ν
  | nil => nil
  | node a p c l k v r => node a p c l k v (rotateRight r)

def moveRedLeft (t : LinkedTree κ ν) : LinkedTree κ ν :=
  let flipped := flipColor t
  if flipped.right.left.isRed then
    flipColor (rotateLeft (rotateRightOfRight flipped))
  else
    flipped

def moveRedRight (t : LinkedTree κ ν) : LinkedTree κ ν :=
  let flipped := flipColor t
  if flipped.left.left.isRed then
    flipColor (rotateRight flipped)
  else
    flipped

def adjustLeft (t : LinkedTree κ ν) : LinkedTree κ ν :=
  let rotated := if t.left.isRed && t.left.left.isRed then rotateRight t else t
  if rotated.left.isRed && rotated.right.isRed then flipColor rotated else rotated

def adjustBalance (t : LinkedTree κ ν) : LinkedTree κ ν :=
  adjustLeft (if !t.left.isRed && t.right.isRed then rotateLeft t else t)

def fixBalance (t : LinkedTree κ ν) : LinkedTree κ ν :=
  adjustLeft (if t.right.isRed then rotateLeft t else t)

def leanLeft (t : LinkedTree κ ν) : LinkedTree κ ν :=
  if !t.left.isRed && !t.left.left.isRed then moveRedLeft t else t

def leanRight (t : LinkedTree κ ν) : LinkedTree κ ν :=
  if !t.right.isNil && !t.right.isRed && !t.right.left.isRed then moveRedRight t else t

def unleanLeft (t : LinkedTree κ ν) : LinkedTree κ ν :=
  if t.left.isRed then rotateRight t else t

end LinkedTree

/-- The fields of `treemap_t` besides the root, and the address of the next allocation. -/
structure TreemapHeader where
  nodeCnt : Nat
  first : Option Nat
  nextAddr : Nat

/-- What a recursive call returns and leaves behind in the map and in the slot it was given. -/
structure TreemapStep (κ ν : Type) where
  ret : Int
  tm : TreemapHeader
  tree : LinkedTree κ ν

namespace LinkedTree

variable {κ ν : Type}

/-! ### Insertion -/

/-- `create_node` puts the new node into the slot; its address is what `inserted` receives. -/
def treemapInsertInternal (cmp : κ → κ → Ordering) (key : κ) (value : ν) (tm : TreemapHeader)
    (parent : Option Nat) : LinkedTree κ ν → TreemapStep κ ν
  | nil =>
      { ret := 0
        tm := { tm with nodeCnt := tm.nodeCnt + 1, nextAddr := tm.nextAddr + 1 }
        tree := node tm.nextAddr parent .red nil key value nil }
  | node a p c l k v r =>
      match cmp key k with
      | .gt =>
          let step := treemapInsertInternal cmp key value tm (some a) r
          if step.ret ≠ 0 then { step with tree := node a p c l k v step.tree }
          else { step with tree := adjustBalance (node a p c l k v step.tree) }
      | .lt =>
          let step := treemapInsertInternal cmp key value tm (some a) l
          let first :=
            if step.ret = 0 ∧ step.tm.first = some a then step.tree.addr? else step.tm.first
          let tm := { step.tm with first := first }
          if step.ret ≠ 0 then { step with tm := tm, tree := node a p c step.tree k v r }
          else { step with tm := tm, tree := adjustBalance (node a p c step.tree k v r) }
      | .eq => { ret := 1, tm := tm, tree := node a p c l k v r }

/-! ### Deletion

`fuel` bounds the depth of the recursion, which is not structural; the number of nodes is always
enough. -/

/-- Unlinks the leftmost node: its address, key and value. -/
def deleteMin : Nat → LinkedTree κ ν → Option (Nat × κ × ν) × LinkedTree κ ν
  | 0, t => (none, t)
  | _ + 1, nil => (none, nil)
  | _ + 1, node a _ _ nil k v _ => (some (a, k, v), nil)
  | fuel + 1, t =>
      match leanLeft t with
      | nil => (none, nil)
      | node a p c l k v r =>
          let (least, l') := deleteMin fuel l
          (least, fixBalance (node a p c l' k v r))

def releaseNode (tm : TreemapHeader) : TreemapHeader :=
  { tm with nodeCnt := tm.nodeCnt - 1 }

/-- `if (tm->first == *node) tm->first = heir`. -/
def inheritFirst (tm : TreemapHeader) (addr : Nat) (heir : Option Nat) : TreemapHeader :=
  { tm with first := if tm.first = some addr then heir else tm.first }

def deleteRight (cmp : κ → κ → Ordering) (key : κ)
    (descend : TreemapHeader → LinkedTree κ ν → TreemapStep κ ν)
    (unlinkMin : LinkedTree κ ν → Option (Nat × κ × ν) × LinkedTree κ ν) (tm : TreemapHeader)
    (t : LinkedTree κ ν) : TreemapStep κ ν :=
  match unleanLeft t with
  | nil => { ret := 0, tm := tm, tree := nil }
  | node a p c l k v r =>
      if cmp key k = .eq ∧ r.isNil then
        -- the left child is dropped with the node: there is none in a balanced tree
        { ret := 1, tm := releaseNode (inheritFirst tm a p), tree := nil }
      else
        match leanRight (node a p c l k v r) with
        | nil => { ret := 0, tm := tm, tree := nil }
        | node a p c l k v r =>
            if cmp key k = .eq then
              match unlinkMin r with
              | (some (minAddr, minKey, minValue), r') =>
                  -- the header of the node is copied into `min_node`, which takes its place
                  { ret := 1
                    tm := releaseNode (inheritFirst tm a (some minAddr))
                    tree := fixBalance (node minAddr p c (l.setParent (some minAddr)) minKey
                      minValue (r'.setParent (some minAddr))) }
              | (none, r') =>
                  { ret := 1, tm := releaseNode tm, tree := fixBalance (node a p c l k v r') }
            else
              let step := descend tm r
              { step with tree := fixBalance (node a p c l k v step.tree) }

def treemapDeleteInternal (cmp : κ → κ → Ordering) (key : κ) :
    Nat → TreemapHeader → LinkedTree κ ν → TreemapStep κ ν
  | 0, tm, t => { ret := 0, tm := tm, tree := t }
  | _ + 1, tm, nil => { ret := 0, tm := tm, tree := nil }
  | fuel + 1, tm, node a p c l k v r =>
      if cmp key k = .lt then
        if l.isNil then
          { ret := 0, tm := tm, tree := node a p c l k v r }
        else
          match leanLeft (node a p c l k v r) with
          | nil => { ret := 0, tm := tm, tree := nil }
          | node a p c l k v r =>
              let step := treemapDeleteInternal cmp key fuel tm l
              { step with tree := fixBalance (node a p c step.tree k v r) }
      else
        deleteRight cmp key (treemapDeleteInternal cmp key fuel) (deleteMin fuel) tm
          (node a p c l k v r)

/-! ### Searches and links -/

/-- The loop of `treemap_lower_bound`, with `result` the best node so far. -/
def lowerBoundFrom (cmp : κ → κ → Ordering) (key : κ) (result : Option Nat) :
    LinkedTree κ ν → Option Nat
  | nil => result
  | node a _ _ l k _ r =>
      if cmp k key = .lt then lowerBoundFrom cmp key result r
      else lowerBoundFrom cmp key (some a) l

/-- The loop of `treemap_upper_bound`. -/
def upperBoundFrom (cmp : κ → κ → Ordering) (key : κ) (result : Option Nat) :
    LinkedTree κ ν → Option Nat
  | nil => result
  | node a _ _ l k _ r =>
      if cmp key k = .lt then upperBoundFrom cmp key (some a) l
      else upperBoundFrom cmp key result r

def treemapGet (cmp : κ → κ → Ordering) (key : κ) : LinkedTree κ ν → Option ν
  | nil => none
  | node _ _ _ l k v r =>
      match cmp key k with
      | .gt => treemapGet cmp key r
      | .lt => treemapGet cmp key l
      | .eq => some v

/-- The node at an address, with what is below it. -/
def lookup (addr : Nat) : LinkedTree κ ν → Option (LinkedTree κ ν)
  | nil => none
  | node a p c l k v r =>
      if a = addr then some (node a p c l k v r) else (lookup addr l).or (lookup addr r)

/-- `treemap_next` goes to the right and then to the left as far as it can; `treemap_prev` is its
mirror image. -/
inductive Side where
  | left
  | right
deriving DecidableEq

def Side.other : Side → Side
  | left => right
  | right => left

def child (side : Side) (t : LinkedTree κ ν) : LinkedTree κ ν :=
  match side with
  | .left => t.left
  | .right => t.right

def parent? : LinkedTree κ ν → Option Nat
  | nil => none
  | node _ p _ _ _ _ _ => p

/-- The address at the end of the links to one side. -/
def outermost (side : Side) : LinkedTree κ ν → Option Nat
  | nil => none
  | node a _ _ l _ _ r =>
      match side with
      | .left => (outermost side l).or (some a)
      | .right => (outermost side r).or (some a)

/-- The loop that climbs while `curr` is the child of its parent on the given side. The first
argument bounds the number of turns; the number of nodes is enough. -/
def climb (root : LinkedTree κ ν) (side : Side) : Nat → Nat → Option Nat → Option Nat
  | _, _, none => none
  | 0, _, some _ => none
  | fuel + 1, curr, some parent =>
      match root.lookup parent with
      | none => none
      | some above =>
          if (above.child side).addr? = some curr then climb root side fuel parent above.parent?
          else some parent

def neighbour (root : LinkedTree κ ν) (side : Side) (addr : Nat) : Option Nat :=
  match root.lookup addr with
  | none => none
  | some curr =>
      if (curr.child side).isNil then root.climb side (root.addrs.length) addr curr.parent?
      else (curr.child side).outermost side.other

def treemapNext (root : LinkedTree κ ν) (addr : Nat) : Option Nat :=
  root.neighbour .right addr

def treemapPrev (root : LinkedTree κ ν) (addr : Nat) : Option Nat :=
  root.neighbour .left addr

end LinkedTree

/-! ### The map -/

structure LinkedTreemap (κ ν : Type) where
  tm : TreemapHeader
  root : LinkedTree κ ν

namespace LinkedTreemap

variable {κ ν : Type}

def treemapInit : LinkedTreemap κ ν where
  tm := { nodeCnt := 0, first := none, nextAddr := 0 }
  root := .nil

def treemapClear (map : LinkedTreemap κ ν) : LinkedTreemap κ ν where
  tm := { map.tm with nodeCnt := 0, first := none }
  root := .nil

def treemapInsert (cmp : κ → κ → Ordering) (map : LinkedTreemap κ ν) (key : κ) (value : ν) :
    Int × LinkedTreemap κ ν :=
  let step := map.root.treemapInsertInternal cmp key value map.tm none
  (step.ret, { tm := step.tm, root := step.tree.setBlack })

/-- `treemap_insert2` also gives the address of the new node, if it made one. -/
def treemapInsert2 (cmp : κ → κ → Ordering) (map : LinkedTreemap κ ν) (key : κ) (value : ν) :
    Int × LinkedTreemap κ ν × Option Nat :=
  let step := map.root.treemapInsertInternal cmp key value map.tm none
  (step.ret, { tm := step.tm, root := step.tree.setBlack },
    if step.ret = 0 then some map.tm.nextAddr else none)

def treemapDelete (cmp : κ → κ → Ordering) (map : LinkedTreemap κ ν) (key : κ) :
    Int × LinkedTreemap κ ν :=
  let step := map.root.treemapDeleteInternal cmp key map.root.addrs.length map.tm
  (step.ret, { tm := step.tm, root := step.tree.setBlack })

def treemapFirst (map : LinkedTreemap κ ν) : Option Nat × LinkedTreemap κ ν :=
  let first := if map.tm.first = none then map.root.outermost .left else map.tm.first
  (first, { map with tm := { map.tm with first := first } })

def treemapLast (map : LinkedTreemap κ ν) : Option Nat :=
  map.root.outermost .right

def treemapLowerBound (cmp : κ → κ → Ordering) (map : LinkedTreemap κ ν) (key : κ) : Option Nat :=
  map.root.lowerBoundFrom cmp key none

def treemapUpperBound (cmp : κ → κ → Ordering) (map : LinkedTreemap κ ν) (key : κ) : Option Nat :=
  map.root.upperBoundFrom cmp key none

def treemapGet (cmp : κ → κ → Ordering) (map : LinkedTreemap κ ν) (key : κ) : Option ν :=
  map.root.treemapGet cmp key

def treemapSize (map : LinkedTreemap κ ν) : Nat :=
  map.tm.nodeCnt

end LinkedTreemap

inductive TreemapOp (κ ν : Type) where
  | insert (key : κ) (value : ν)
  | insert2 (key : κ) (value : ν)
  | delete (key : κ)
  | clear
  | first

namespace TreemapOp

variable {κ ν : Type}

/-- The map after the call, and the number that it returns; 0 where it returns none. -/
def apply (cmp : κ → κ → Ordering) (map : LinkedTreemap κ ν) :
    TreemapOp κ ν → Int × LinkedTreemap κ ν
  | insert key value => map.treemapInsert cmp key value
  | insert2 key value =>
      let (ret, map', _) := map.treemapInsert2 cmp key value
      (ret, map')
  | delete key => map.treemapDelete cmp key
  | clear => (0, map.treemapClear)
  | first => (0, map.treemapFirst.2)

def applyAll (cmp : κ → κ → Ordering) (map : LinkedTreemap κ ν) (ops : List (TreemapOp κ ν)) :
    LinkedTreemap κ ν :=
  ops.foldl (fun map op => (op.apply cmp map).2) map

end TreemapOp

end Liteflow

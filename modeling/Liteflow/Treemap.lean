import Mathlib.Data.List.Sort

/-!
# The tree map

`common/treemap.c`: a left-leaning red-black tree. A node is a value of an inductive type, so a
pointer to a node is the node's key, and following `treemap_next` is moving along the in-order
traversal. `cmp_fn` is an argument of every operation that calls it. Node allocation succeeds.
-/

namespace Liteflow

inductive NodeColor where
  | black
  | red
deriving DecidableEq, Repr

inductive Treemap (κ ν : Type) where
  | nil
  | node (color : NodeColor) (left : Treemap κ ν) (key : κ) (value : ν) (right : Treemap κ ν)
deriving Repr

def NodeColor.flip : NodeColor → NodeColor
  | .black => .red
  | .red => .black

namespace Treemap

variable {κ ν : Type}

def isNil : Treemap κ ν → Bool
  | nil => true
  | node _ _ _ _ _ => false

def isRed : Treemap κ ν → Bool
  | nil => false
  | node c _ _ _ _ => decide (c = .red)

def left : Treemap κ ν → Treemap κ ν
  | nil => nil
  | node _ l _ _ _ => l

def right : Treemap κ ν → Treemap κ ν
  | nil => nil
  | node _ _ _ _ r => r

@[simp] theorem isNil_nil : (nil : Treemap κ ν).isNil = true := rfl
@[simp] theorem isRed_nil : (nil : Treemap κ ν).isRed = false := rfl
@[simp] theorem left_nil : (nil : Treemap κ ν).left = nil := rfl
@[simp] theorem right_nil : (nil : Treemap κ ν).right = nil := rfl

section Node

variable (c : NodeColor) (l r : Treemap κ ν) (k : κ) (v : ν)

@[simp] theorem isNil_node : (node c l k v r).isNil = false := rfl
@[simp] theorem isRed_node : (node c l k v r).isRed = decide (c = .red) := rfl
@[simp] theorem left_node : (node c l k v r).left = l := rfl
@[simp] theorem right_node : (node c l k v r).right = r := rfl

end Node

def flipRoot : Treemap κ ν → Treemap κ ν
  | nil => nil
  | node c l k v r => node c.flip l k v r

def setBlack : Treemap κ ν → Treemap κ ν
  | nil => nil
  | node _ l k v r => node .black l k v r

@[simp]
def toList : Treemap κ ν → List (κ × ν)
  | nil => []
  | node _ l k v r => toList l ++ (k, v) :: toList r

def treemapSize (t : Treemap κ ν) : Nat :=
  (toList t).length

/-! ### Lookup

`treemap_first`, `treemap_last`, `treemap_next` and `treemap_prev` walk the links of the tree, never
its keys; the searches compare keys on the way down. -/

def treemapFirst (t : Treemap κ ν) : Option (κ × ν) :=
  (toList t).head?

def treemapLast (t : Treemap κ ν) : Option (κ × ν) :=
  (toList t).getLast?

def treemapNext [DecidableEq κ] (t : Treemap κ ν) (key : κ) : Option (κ × ν) :=
  ((toList t).dropWhile (fun entry => entry.1 ≠ key)).tail.head?

def treemapPrev [DecidableEq κ] (t : Treemap κ ν) (key : κ) : Option (κ × ν) :=
  ((toList t).takeWhile (fun entry => entry.1 ≠ key)).getLast?

def treemapLowerBound (cmp : κ → κ → Ordering) (t : Treemap κ ν) (key : κ) : Option (κ × ν) :=
  match t with
  | nil => none
  | node _ l k v r =>
      if cmp k key = .lt then treemapLowerBound cmp r key
      else (treemapLowerBound cmp l key).or (some (k, v))

def treemapUpperBound (cmp : κ → κ → Ordering) (t : Treemap κ ν) (key : κ) : Option (κ × ν) :=
  match t with
  | nil => none
  | node _ l k v r =>
      if cmp key k = .lt then (treemapUpperBound cmp l key).or (some (k, v))
      else treemapUpperBound cmp r key

def treemapGet (cmp : κ → κ → Ordering) (t : Treemap κ ν) (key : κ) : Option ν :=
  match t with
  | nil => none
  | node _ l k v r =>
      match cmp key k with
      | .gt => treemapGet cmp r key
      | .lt => treemapGet cmp l key
      | .eq => some v

/-- The value in the node of `key`, read through a pointer to the node. -/
def treemapValue [DecidableEq κ] (t : Treemap κ ν) (key : κ) : Option ν :=
  ((toList t).find? (fun entry => entry.1 = key)).map Prod.snd

/-- A write through the pointer `treemap_value` returns for the node of `key`. -/
def treemapSetValue [DecidableEq κ] (t : Treemap κ ν) (key : κ) (update : ν → ν) : Treemap κ ν :=
  match t with
  | nil => nil
  | node c l k v r =>
      node c (treemapSetValue l key update) k (if k = key then update v else v)
        (treemapSetValue r key update)

/-! ### Rotations -/

def rotateLeft : Treemap κ ν → Treemap κ ν
  | node c l k v (node _ rl rk rv rr) => node c (node .red l k v rl) rk rv rr
  | t => t

def rotateRight : Treemap κ ν → Treemap κ ν
  | node c (node _ ll lk lv lr) k v r => node c ll lk lv (node .red lr k v r)
  | t => t

def flipColor : Treemap κ ν → Treemap κ ν
  | nil => nil
  | node c l k v r => node c.flip (flipRoot l) k v (flipRoot r)

/-- `rotate_right(&(*node)->right)`. -/
def rotateRightOfRight : Treemap κ ν → Treemap κ ν
  | nil => nil
  | node c l k v r => node c l k v (rotateRight r)

def moveRedLeft (t : Treemap κ ν) : Treemap κ ν :=
  let flipped := flipColor t
  if flipped.right.left.isRed then
    flipColor (rotateLeft (rotateRightOfRight flipped))
  else
    flipped

def moveRedRight (t : Treemap κ ν) : Treemap κ ν :=
  let flipped := flipColor t
  if flipped.left.left.isRed then
    flipColor (rotateRight flipped)
  else
    flipped

/-- The last two of the three repairs, shared by insertion and deletion. -/
def adjustLeft (t : Treemap κ ν) : Treemap κ ν :=
  let rotated := if t.left.isRed && t.left.left.isRed then rotateRight t else t
  if rotated.left.isRed && rotated.right.isRed then flipColor rotated else rotated

/-- "adjust llrb subtree balance", on the way up from an insertion. -/
def adjustBalance (t : Treemap κ ν) : Treemap κ ν :=
  adjustLeft (if !t.left.isRed && t.right.isRed then rotateLeft t else t)

/-- "fix node balance", on the way up from a deletion. -/
def fixBalance (t : Treemap κ ν) : Treemap κ ν :=
  adjustLeft (if t.right.isRed then rotateLeft t else t)

/-! ### Insertion -/

/-- Returns 1 and changes nothing when the key is present. -/
def treemapInsertInternal (cmp : κ → κ → Ordering) (key : κ) (value : ν) :
    Treemap κ ν → Int × Treemap κ ν
  | nil => (0, node .red nil key value nil)
  | node c l k v r =>
      match cmp key k with
      | .gt =>
          let (ret, r') := treemapInsertInternal cmp key value r
          if ret ≠ 0 then (ret, node c l k v r') else (0, adjustBalance (node c l k v r'))
      | .lt =>
          let (ret, l') := treemapInsertInternal cmp key value l
          if ret ≠ 0 then (ret, node c l' k v r) else (0, adjustBalance (node c l' k v r))
      | .eq => (1, node c l k v r)

def treemapInsert (cmp : κ → κ → Ordering) (t : Treemap κ ν) (key : κ) (value : ν) :
    Int × Treemap κ ν :=
  let (ret, t') := treemapInsertInternal cmp key value t
  (ret, setBlack t')

/-- `treemap_insert2` blackens the root of the map whatever the insertion has returned. When there is
no memory for a node an empty map has no root, and the process dies; otherwise -1 is returned. -/
def insertDies (nodeAlloc : Bool) (t : Treemap κ ν) : Bool :=
  !nodeAlloc && t.isNil

/-! ### Deletion

The recursion descends into a subtree of a rotated tree, so it is not structural: `fuel` bounds the
depth, and the size of the tree is always enough. -/

/-- The test before every step to the left: `move_red_left` unless the left child is red or has a red
child. -/
def leanLeft (t : Treemap κ ν) : Treemap κ ν :=
  if !t.left.isRed && !t.left.left.isRed then moveRedLeft t else t

/-- The test before every step to the right. -/
def leanRight (t : Treemap κ ν) : Treemap κ ν :=
  if !t.right.isNil && !t.right.isRed && !t.right.left.isRed then moveRedRight t else t

/-- The rotation a deletion at or after the node starts with. -/
def unleanLeft (t : Treemap κ ν) : Treemap κ ν :=
  if t.left.isRed then rotateRight t else t

/-- Unlinks the leftmost node. -/
def deleteMin : Nat → Treemap κ ν → Option (κ × ν) × Treemap κ ν
  | 0, t => (none, t)
  | _ + 1, nil => (none, nil)
  | _ + 1, node _ nil k v _ => (some (k, v), nil)
  | fuel + 1, t =>
      match leanLeft t with
      | nil => (none, nil)
      | node c l k v r =>
          let (least, l') := deleteMin fuel l
          (least, fixBalance (node c l' k v r))

/-- The part of `treemap_delete_internal` for a key at or after the node's: `descend` is the
recursive call on the right subtree, `unlinkMin` is `delete_min` on it. -/
def deleteRight (cmp : κ → κ → Ordering) (key : κ)
    (descend : Treemap κ ν → Int × Treemap κ ν)
    (unlinkMin : Treemap κ ν → Option (κ × ν) × Treemap κ ν) (t : Treemap κ ν) :
    Int × Treemap κ ν :=
  match unleanLeft t with
  | nil => (0, nil)
  | node c l k v r =>
      if cmp key k = .eq ∧ r.isNil then
        -- the left child is dropped with the node: there is none in a balanced tree
        (1, nil)
      else
        match leanRight (node c l k v r) with
        | nil => (0, nil)
        | node c l k v r =>
            if cmp key k = .eq then
              match unlinkMin r with
              | (some (minKey, minValue), r') => (1, fixBalance (node c l minKey minValue r'))
              | (none, r') => (1, fixBalance (node c l k v r'))
            else
              let (ret, r') := descend r
              (ret, fixBalance (node c l k v r'))

def treemapDeleteInternal (cmp : κ → κ → Ordering) (key : κ) :
    Nat → Treemap κ ν → Int × Treemap κ ν
  | 0, t => (0, t)
  | _ + 1, nil => (0, nil)
  | fuel + 1, node c l k v r =>
      if cmp key k = .lt then
        if l.isNil then
          (0, node c l k v r)
        else
          match leanLeft (node c l k v r) with
          | nil => (0, nil)
          | node c l k v r =>
              let (ret, l') := treemapDeleteInternal cmp key fuel l
              (ret, fixBalance (node c l' k v r))
      else
        deleteRight cmp key (treemapDeleteInternal cmp key fuel) (deleteMin fuel) (node c l k v r)

def treemapDelete (cmp : κ → κ → Ordering) (t : Treemap κ ν) (key : κ) : Int × Treemap κ ν :=
  let (ret, t') := treemapDeleteInternal cmp key (treemapSize t) t
  (ret, setBlack t')

end Treemap

end Liteflow

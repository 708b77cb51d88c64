import Mathlib.Data.List.Nodup
import Mathlib.Logic.Function.Basic

/-!
# The timer list

`common/timerlist.c`: a binary heap of nodes ordered by time, with a hash index by key. A node is
known by its address, a natural number that is never used twice. The hash chains are one list of the
nodes in the order they were pushed: an operation looks only at the nodes with its key, and these
have the same order in their chain as in the list, whatever the hash function.

A `Timerlist` carries the fact that the heap and the index agree: every node is in the heap exactly
once, at the place its `heap_id` says.
-/

namespace Liteflow

structure HeapNode where
  time : Int
  node : Nat

structure TimerNode (κ ν : Type) where
  id : Nat
  key : κ
  value : ν

structure TimerlistData (κ ν : Type) where
  nodeCount : Nat
  heap : Nat → HeapNode
  heapId : Nat → Nat
  nodes : List (TimerNode κ ν)
  nextId : Nat

namespace TimerlistData

variable {κ ν : Type}

/-- `HEAP_SWAP(tq->heap[a], tq->heap[b])`. -/
def swap (tq : TimerlistData κ ν) (a b : Nat) : TimerlistData κ ν :=
  let na := (tq.heap a).node
  let nb := (tq.heap b).node
  { tq with
    heapId := Function.update (Function.update tq.heapId na (tq.heapId nb)) nb (tq.heapId na)
    heap := Function.update (Function.update tq.heap a (tq.heap b)) b (tq.heap a) }

def setTime (tq : TimerlistData κ ν) (i : Nat) (time : Int) : TimerlistData κ ν :=
  { tq with heap := Function.update tq.heap i { tq.heap i with time := time } }

/-- The first argument bounds the number of turns; `s` is enough. -/
def adjustUp : Nat → TimerlistData κ ν → Nat → TimerlistData κ ν
  | 0, tq, _ => tq
  | fuel + 1, tq, s =>
      if s > 0 then
        let t := (s - 1) / 2
        if (tq.heap s).time < (tq.heap t).time then adjustUp fuel (tq.swap s t) t else tq
      else
        tq

/-- The child of `s` that `adjust_down` compares with it. -/
def smallerChild (tq : TimerlistData κ ν) (s : Nat) : Nat :=
  let t := 2 * s + 1
  if t + 1 < tq.nodeCount ∧ (tq.heap (t + 1)).time < (tq.heap t).time then t + 1 else t

/-- The first argument bounds the number of turns; the size of the heap is enough. -/
def adjustDown : Nat → TimerlistData κ ν → Nat → TimerlistData κ ν
  | 0, tq, _ => tq
  | fuel + 1, tq, s =>
      if 2 ≤ tq.nodeCount ∧ s ≤ (tq.nodeCount - 2) / 2 then
        let t := tq.smallerChild s
        if (tq.heap t).time < (tq.heap s).time then adjustDown fuel (tq.swap s t) t else tq
      else
        tq

def push (tq : TimerlistData κ ν) (time : Int) (key : κ) (value : ν) : TimerlistData κ ν :=
  let added : TimerlistData κ ν :=
    { nodeCount := tq.nodeCount + 1
      heap := Function.update tq.heap tq.nodeCount { time := time, node := tq.nextId }
      heapId := Function.update tq.heapId tq.nextId tq.nodeCount
      nodes := tq.nodes ++ [{ id := tq.nextId, key := key, value := value }]
      nextId := tq.nextId + 1 }
  added.adjustUp tq.nodeCount tq.nodeCount

/-- Takes the heap's entry at `id` out: the last entry takes its place, and `settle` restores the
order. The node leaves its hash chain, which the heap operations never look at. -/
def unlink (tq : TimerlistData κ ν) (id : Nat)
    (settle : TimerlistData κ ν → TimerlistData κ ν) : TimerlistData κ ν :=
  let last := tq.nodeCount - 1
  let nodes := tq.nodes.filter (fun n => n.id ≠ (tq.heap id).node)
  if id = last then { tq with nodeCount := last, nodes := nodes }
  else settle { tq.swap id last with nodeCount := last, nodes := nodes }

def pop (tq : TimerlistData κ ν) : TimerlistData κ ν :=
  if tq.nodeCount = 0 then tq
  else tq.unlink 0 (fun removed => removed.adjustDown removed.nodeCount 0)

/-- One turn of the loop of `timerlist_del`, for the node at `address`. -/
def delNode (tq : TimerlistData κ ν) (address : Nat) : TimerlistData κ ν :=
  let id := tq.heapId address
  tq.unlink id (fun removed =>
    let raised := removed.adjustUp id id
    raised.adjustDown raised.nodeCount id)

/-- One turn of the loop of `timerlist_moveup`. -/
def moveupNode (time : Int) (tq : TimerlistData κ ν) (address : Nat) : TimerlistData κ ν :=
  let id := tq.heapId address
  if (tq.heap id).time ≤ time then tq else (tq.setTime id time).adjustUp id id

variable [DecidableEq κ]

/-- The addresses of the nodes with the key, in chain order. -/
def withKey (tq : TimerlistData κ ν) (key : κ) : List Nat :=
  (tq.nodes.filter (fun n => n.key = key)).map TimerNode.id

def del (tq : TimerlistData κ ν) (key : κ) : TimerlistData κ ν :=
  (tq.withKey key).foldl delNode tq

def moveup (tq : TimerlistData κ ν) (time : Int) (key : κ) : TimerlistData κ ν :=
  (tq.withKey key).foldl (moveupNode time) tq

end TimerlistData

/-! ### Agreement of the heap and the index -/

/-- Every entry of the heap is a node that knows its place, and every node is in the heap. -/
structure TimerlistData.Linked {κ ν : Type} (tq : TimerlistData κ ν) : Prop where
  index : ∀ i < tq.nodeCount, tq.heapId (tq.heap i).node = i
  mem_nodes : ∀ i < tq.nodeCount, (tq.heap i).node ∈ tq.nodes.map TimerNode.id
  in_heap : ∀ id ∈ tq.nodes.map TimerNode.id,
    tq.heapId id < tq.nodeCount ∧ (tq.heap (tq.heapId id)).node = id
  nodup : (tq.nodes.map TimerNode.id).Nodup
  fresh : ∀ id ∈ tq.nodes.map TimerNode.id, id < tq.nextId

namespace TimerlistData

variable {κ ν : Type} {tq : TimerlistData κ ν}

theorem swap_heap (a b i : Nat) :
    (tq.swap a b).heap i = if i = b then tq.heap a else if i = a then tq.heap b else tq.heap i := by
  simp only [swap, Function.update_apply]

theorem swap_heapId (a b id : Nat) :
    (tq.swap a b).heapId id =
      if id = (tq.heap b).node then tq.heapId (tq.heap a).node
      else if id = (tq.heap a).node then tq.heapId (tq.heap b).node
      else tq.heapId id := by
  simp only [swap, Function.update_apply]

theorem Linked.node_inj (htq : Linked tq) {i j : Nat} (hi : i < tq.nodeCount)
    (hj : j < tq.nodeCount) (heq : (tq.heap i).node = (tq.heap j).node) : i = j := by
  rw [← htq.index i hi, ← htq.index j hj, heq]

theorem Linked.swap (htq : Linked tq) {a b : Nat} (ha : a < tq.nodeCount)
    (hb : b < tq.nodeCount) : Linked (tq.swap a b) := by
  have hida := htq.index a ha
  have hidb := htq.index b hb
  constructor
  · intro i hi
    have hidi := htq.index i hi
    rw [swap_heap, swap_heapId]
    grind
  · intro i hi
    have hmem := htq.mem_nodes i hi
    have hmema := htq.mem_nodes a ha
    have hmemb := htq.mem_nodes b hb
    rw [swap_heap]
    grind [swap]
  · intro id hid
    have hin := htq.in_heap id hid
    rw [swap_heap, swap_heapId]
    grind [swap]
  · exact htq.nodup
  · exact htq.fresh

theorem Linked.setTime (htq : Linked tq) (i : Nat) (time : Int) : Linked (tq.setTime i time) := by
  have hnode : ∀ j, ((tq.setTime i time).heap j).node = (tq.heap j).node := by
    intro j
    simp only [TimerlistData.setTime, Function.update_apply]
    split <;> simp_all
  refine ⟨fun j hj => ?_, fun j hj => ?_, fun id hid => ?_, htq.nodup, htq.fresh⟩
  · rw [hnode]
    exact htq.index j hj
  · rw [hnode]
    exact htq.mem_nodes j hj
  · rw [hnode]
    exact htq.in_heap id hid

/-- What reordering the heap keeps. -/
structure SameNodes (tq tq' : TimerlistData κ ν) : Prop where
  nodeCount_eq : tq'.nodeCount = tq.nodeCount
  nodes_eq : tq'.nodes = tq.nodes
  nextId_eq : tq'.nextId = tq.nextId

theorem SameNodes.refl (tq : TimerlistData κ ν) : SameNodes tq tq :=
  ⟨rfl, rfl, rfl⟩

theorem SameNodes.trans {tq' tq'' : TimerlistData κ ν} (h : SameNodes tq tq')
    (h' : SameNodes tq' tq'') : SameNodes tq tq'' :=
  ⟨h'.nodeCount_eq.trans h.nodeCount_eq, h'.nodes_eq.trans h.nodes_eq,
    h'.nextId_eq.trans h.nextId_eq⟩

theorem sameNodes_swap (a b : Nat) : SameNodes tq (tq.swap a b) :=
  ⟨rfl, rfl, rfl⟩

theorem adjustUp_spec : ∀ (fuel : Nat) {tq : TimerlistData κ ν} {s : Nat}, Linked tq →
    s < tq.nodeCount → Linked (tq.adjustUp fuel s) ∧ SameNodes tq (tq.adjustUp fuel s) := by
  intro fuel
  induction fuel with
  | zero => exact fun htq _ => ⟨htq, .refl _⟩
  | succ fuel ih =>
      intro tq s htq hs
      rw [adjustUp]
      split
      · dsimp only
        split
        · obtain ⟨hlinked, hsame⟩ := ih (htq.swap hs (show (s - 1) / 2 < tq.nodeCount by omega))
            (show (s - 1) / 2 < tq.nodeCount by omega)
          exact ⟨hlinked, (sameNodes_swap _ _).trans hsame⟩
        · exact ⟨htq, .refl _⟩
      · exact ⟨htq, .refl _⟩

theorem smallerChild_lt {s : Nat} (hcount : 2 ≤ tq.nodeCount) (hs : s ≤ (tq.nodeCount - 2) / 2) :
    tq.smallerChild s < tq.nodeCount := by
  unfold smallerChild
  dsimp only
  split <;> omega

theorem adjustDown_spec : ∀ (fuel : Nat) {tq : TimerlistData κ ν} {s : Nat}, Linked tq →
    Linked (tq.adjustDown fuel s) ∧ SameNodes tq (tq.adjustDown fuel s) := by
  intro fuel
  induction fuel with
  | zero => exact fun htq => ⟨htq, .refl _⟩
  | succ fuel ih =>
      intro tq s htq
      rw [adjustDown]
      split
      · rename_i hs
        dsimp only
        split
        · obtain ⟨hlinked, hsame⟩ := ih (htq.swap (show s < tq.nodeCount by omega)
            (smallerChild_lt hs.1 hs.2))
          exact ⟨hlinked, (sameNodes_swap _ _).trans hsame⟩
        · exact ⟨htq, .refl _⟩
      · exact ⟨htq, .refl _⟩

theorem Linked.added (htq : Linked tq) (time : Int) (key : κ) (value : ν) :
    Linked
      { nodeCount := tq.nodeCount + 1
        heap := Function.update tq.heap tq.nodeCount { time := time, node := tq.nextId }
        heapId := Function.update tq.heapId tq.nextId tq.nodeCount
        nodes := tq.nodes ++ [{ id := tq.nextId, key := key, value := value }]
        nextId := tq.nextId + 1 } := by
  have hne : ∀ i < tq.nodeCount, (tq.heap i).node ≠ tq.nextId := fun i hi =>
    Nat.ne_of_lt (htq.fresh _ (htq.mem_nodes i hi))
  constructor
  · intro i hi
    simp only [Function.update_apply] at hi ⊢
    by_cases hlast : i = tq.nodeCount
    · simp [hlast]
    · have hi' : i < tq.nodeCount := by omega
      simp [hlast, hne i hi', htq.index i hi']
  · intro i hi
    simp only [Function.update_apply, List.map_append, List.mem_append] at hi ⊢
    by_cases hlast : i = tq.nodeCount
    · simp [hlast]
    · rw [if_neg hlast]
      exact Or.inl (htq.mem_nodes i (by omega))
  · intro id hid
    simp only [Function.update_apply, List.map_append, List.mem_append] at hid ⊢
    rcases hid with hid | hid
    · obtain ⟨hlt, hheap⟩ := htq.in_heap id hid
      have hid' := Nat.ne_of_lt (htq.fresh id hid)
      rw [if_neg hid', if_neg (by omega)]
      exact ⟨by omega, hheap⟩
    · obtain rfl : id = tq.nextId := by simpa using hid
      simp
  · rw [List.map_append, List.nodup_append]
    refine ⟨htq.nodup, by simp, fun id hid id' hid' => ?_⟩
    have := htq.fresh id hid
    simp only [List.map_cons, List.map_nil, List.mem_singleton] at hid'
    omega
  · intro id hid
    simp only [List.map_append, List.mem_append] at hid
    rcases hid with hid | hid
    · have := htq.fresh id hid
      dsimp only
      omega
    · simp only [List.map_cons, List.map_nil, List.mem_singleton] at hid
      dsimp only
      omega

theorem Linked.push (htq : Linked tq) (time : Int) (key : κ) (value : ν) :
    Linked (tq.push time key value) ∧
      (tq.push time key value).nodes =
        tq.nodes ++ [{ id := tq.nextId, key := key, value := value }] := by
  obtain ⟨hlinked, hsame⟩ :=
    adjustUp_spec tq.nodeCount (htq.added time key value) (Nat.lt_succ_self tq.nodeCount)
  exact ⟨hlinked, hsame.nodes_eq⟩

theorem mem_ids_filter (nodes : List (TimerNode κ ν)) (id removed : Nat) :
    id ∈ (nodes.filter (fun n => n.id ≠ removed)).map TimerNode.id ↔
      id ∈ nodes.map TimerNode.id ∧ id ≠ removed := by
  simp only [List.mem_map, List.mem_filter, decide_eq_true_eq]
  constructor
  · rintro ⟨n, ⟨hn, hne⟩, rfl⟩
    exact ⟨⟨n, hn, rfl⟩, hne⟩
  · rintro ⟨⟨n, hn, rfl⟩, hne⟩
    exact ⟨n, ⟨hn, hne⟩, rfl⟩

theorem Linked.dropLast (htq : Linked tq) (hpos : 0 < tq.nodeCount) :
    Linked { tq with
      nodeCount := tq.nodeCount - 1
      nodes := tq.nodes.filter (fun n => n.id ≠ (tq.heap (tq.nodeCount - 1)).node) } := by
  have hlast : tq.nodeCount - 1 < tq.nodeCount := by omega
  constructor
  · intro i hi
    exact htq.index i (by dsimp only at hi; omega)
  · intro i hi
    dsimp only at hi ⊢
    rw [mem_ids_filter]
    refine ⟨htq.mem_nodes i (by omega), fun heq => ?_⟩
    have := htq.node_inj (by omega) hlast heq
    omega
  · intro id hid
    rw [mem_ids_filter] at hid
    obtain ⟨hlt, hheap⟩ := htq.in_heap id hid.1
    refine ⟨?_, hheap⟩
    have hne : tq.heapId id ≠ tq.nodeCount - 1 := fun heq => hid.2 (by rw [← hheap, heq])
    dsimp only
    omega
  · exact htq.nodup.sublist (List.filter_sublist.map _)
  · intro id hid
    rw [mem_ids_filter] at hid
    exact htq.fresh id hid.1

theorem Linked.unlink (htq : Linked tq) {id : Nat} (hid : id < tq.nodeCount)
    (settle : TimerlistData κ ν → TimerlistData κ ν)
    (hsettle : id + 1 < tq.nodeCount → ∀ tq' : TimerlistData κ ν, Linked tq' →
      tq'.nodeCount = tq.nodeCount - 1 → Linked (settle tq') ∧ SameNodes tq' (settle tq')) :
    Linked (tq.unlink id settle) ∧
      (tq.unlink id settle).nodes = tq.nodes.filter (fun n => n.id ≠ (tq.heap id).node) ∧
      (tq.unlink id settle).nextId = tq.nextId := by
  unfold TimerlistData.unlink
  dsimp only
  split
  · rename_i hlast
    subst hlast
    exact ⟨htq.dropLast (by omega), rfl, rfl⟩
  · rename_i hne
    have hlast : tq.nodeCount - 1 < tq.nodeCount := by omega
    have hnode : ((tq.swap id (tq.nodeCount - 1)).heap (tq.nodeCount - 1)).node =
        (tq.heap id).node := by
      rw [swap_heap, if_pos rfl]
    have hswap : Linked { tq.swap id (tq.nodeCount - 1) with
        nodeCount := tq.nodeCount - 1
        nodes := tq.nodes.filter (fun n => n.id ≠ (tq.heap id).node) } := by
      rw [← hnode]
      exact (htq.swap hid hlast).dropLast (show 0 < tq.nodeCount by omega)
    obtain ⟨hlinked, hsame⟩ := hsettle (by omega) _ hswap rfl
    exact ⟨hlinked, hsame.nodes_eq, hsame.nextId_eq⟩

theorem Linked.pop (htq : Linked tq) : Linked tq.pop ∧
    (0 < tq.nodeCount → tq.pop.nodes = tq.nodes.filter (fun n => n.id ≠ (tq.heap 0).node)) := by
  unfold TimerlistData.pop
  split
  · exact ⟨htq, fun h => by omega⟩
  · rename_i hpos
    obtain ⟨hlinked, hnodes, -⟩ := htq.unlink (show 0 < tq.nodeCount by omega)
      (fun removed => removed.adjustDown removed.nodeCount 0)
      (fun _ tq' htq' _ => adjustDown_spec tq'.nodeCount htq')
    exact ⟨hlinked, fun _ => hnodes⟩

theorem Linked.delNode (htq : Linked tq) {address : Nat}
    (hmem : address ∈ tq.nodes.map TimerNode.id) :
    Linked (tq.delNode address) ∧
      (tq.delNode address).nodes = tq.nodes.filter (fun n => n.id ≠ address) := by
  obtain ⟨hlt, hheap⟩ := htq.in_heap address hmem
  obtain ⟨hlinked, hnodes, -⟩ := htq.unlink hlt
    (fun removed =>
      (removed.adjustUp (tq.heapId address) (tq.heapId address)).adjustDown
        (removed.adjustUp (tq.heapId address) (tq.heapId address)).nodeCount (tq.heapId address))
    (fun hin tq' htq' hcount => by
      obtain ⟨hup, hsame⟩ := adjustUp_spec (tq.heapId address) htq'
        (show tq.heapId address < tq'.nodeCount by omega)
      obtain ⟨hdown, hsame'⟩ := adjustDown_spec _ (s := tq.heapId address) hup
      exact ⟨hdown, hsame.trans hsame'⟩)
  rw [hheap] at hnodes
  exact ⟨hlinked, hnodes⟩

theorem Linked.moveupNode (htq : Linked tq) (time : Int) {address : Nat}
    (hmem : address ∈ tq.nodes.map TimerNode.id) :
    Linked (moveupNode time tq address) ∧ SameNodes tq (moveupNode time tq address) := by
  unfold TimerlistData.moveupNode
  dsimp only
  split
  · exact ⟨htq, .refl _⟩
  · obtain ⟨hlinked, hsame⟩ :=
      adjustUp_spec (tq.heapId address) (htq.setTime (tq.heapId address) time)
        (show tq.heapId address < tq.nodeCount from (htq.in_heap address hmem).1)
    exact ⟨hlinked, hsame.nodeCount_eq, hsame.nodes_eq, hsame.nextId_eq⟩

theorem Linked.foldl_delNode : ∀ (addresses : List Nat) {tq : TimerlistData κ ν}, Linked tq →
    (∀ address ∈ addresses, address ∈ tq.nodes.map TimerNode.id) → addresses.Nodup →
    Linked (addresses.foldl TimerlistData.delNode tq) ∧
      (addresses.foldl TimerlistData.delNode tq).nodes =
        tq.nodes.filter (fun n => n.id ∉ addresses) := by
  intro addresses
  induction addresses with
  | nil => exact fun htq _ _ => ⟨htq, by simp⟩
  | cons address rest ih =>
      intro tq htq hmem hnodup
      obtain ⟨hnotin, hnodup'⟩ := List.nodup_cons.mp hnodup
      obtain ⟨hlinked, hnodes⟩ := htq.delNode (hmem address (by simp))
      obtain ⟨hlinked', hnodes'⟩ := ih hlinked (fun other hother => by
        rw [hnodes, mem_ids_filter]
        exact ⟨hmem other (by simp [hother]), fun heq => hnotin (heq ▸ hother)⟩) hnodup'
      refine ⟨hlinked', hnodes'.trans ?_⟩
      rw [hnodes, List.filter_filter]
      refine List.filter_congr fun n _ => ?_
      simp only [List.mem_cons, not_or, Bool.decide_and]
      rw [Bool.and_comm]

variable [DecidableEq κ]

theorem mem_withKey {key : κ} {address : Nat} :
    address ∈ tq.withKey key ↔ ∃ n ∈ tq.nodes, n.id = address ∧ n.key = key := by
  simp only [withKey, List.mem_map, List.mem_filter, decide_eq_true_eq]
  constructor
  · rintro ⟨n, ⟨hn, hkey⟩, hid⟩
    exact ⟨n, hn, hid, hkey⟩
  · rintro ⟨n, hn, hid, hkey⟩
    exact ⟨n, ⟨hn, hkey⟩, hid⟩

theorem Linked.mem_withKey_iff (htq : Linked tq) {n : TimerNode κ ν} (hn : n ∈ tq.nodes) (key : κ) :
    n.id ∈ tq.withKey key ↔ n.key = key := by
  rw [mem_withKey]
  constructor
  · rintro ⟨n', hn', hid, hkey⟩
    rw [← List.inj_on_of_nodup_map htq.nodup hn' hn hid]
    exact hkey
  · exact fun hkey => ⟨n, hn, rfl, hkey⟩

theorem mem_ids_of_withKey {key : κ} {address : Nat} (hmem : address ∈ tq.withKey key) :
    address ∈ tq.nodes.map TimerNode.id := by
  obtain ⟨n, hn, hid, -⟩ := mem_withKey.mp hmem
  exact List.mem_map.mpr ⟨n, hn, hid⟩

theorem Linked.del (htq : Linked tq) (key : κ) :
    Linked (tq.del key) ∧ (tq.del key).nodes = tq.nodes.filter (fun n => n.key ≠ key) := by
  obtain ⟨hlinked, hnodes⟩ := Linked.foldl_delNode (tq.withKey key) htq
    (fun _ => mem_ids_of_withKey) (htq.nodup.sublist (List.filter_sublist.map _))
  refine ⟨hlinked, hnodes.trans (List.filter_congr fun n hn => ?_)⟩
  simp only [htq.mem_withKey_iff hn, ne_eq]

theorem Linked.moveup (htq : Linked tq) (time : Int) (key : κ) :
    Linked (tq.moveup time key) ∧ SameNodes tq (tq.moveup time key) := by
  have hfold : ∀ (addresses : List Nat) {tq' : TimerlistData κ ν}, Linked tq' → SameNodes tq tq' →
      (∀ address ∈ addresses, address ∈ tq.nodes.map TimerNode.id) →
      Linked (addresses.foldl (TimerlistData.moveupNode time) tq') ∧
        SameNodes tq (addresses.foldl (TimerlistData.moveupNode time) tq') := by
    intro addresses
    induction addresses with
    | nil => exact fun htq' hsame _ => ⟨htq', hsame⟩
    | cons address rest ih =>
        intro tq' htq' hsame hmem
        obtain ⟨hlinked, hsame'⟩ := htq'.moveupNode time
          (show address ∈ tq'.nodes.map TimerNode.id by
            rw [hsame.nodes_eq]
            exact hmem address (by simp))
        exact ih hlinked (hsame.trans hsame') (fun other hother => hmem other (by simp [hother]))
  exact hfold (tq.withKey key) htq (.refl tq) fun _ => mem_ids_of_withKey

end TimerlistData

structure Timerlist (κ ν : Type) extends TimerlistData κ ν where
  linked : toTimerlistData.Linked

namespace Timerlist

variable {κ ν : Type}

def timerlistInit : Timerlist κ ν where
  nodeCount := 0
  heap := fun _ => { time := 0, node := 0 }
  heapId := fun _ => 0
  nodes := []
  nextId := 0
  linked := by constructor <;> simp

def timerlistPush (tq : Timerlist κ ν) (time : Int) (key : κ) (value : ν) : Timerlist κ ν :=
  ⟨tq.push time key value, (tq.linked.push time key value).1⟩

def timerlistPop (tq : Timerlist κ ν) : Timerlist κ ν :=
  ⟨tq.pop, tq.linked.pop.1⟩

def timerlistReschedTop (tq : Timerlist κ ν) (time : Int) : Timerlist κ ν :=
  ⟨(tq.setTime 0 time).adjustDown tq.nodeCount 0,
    (TimerlistData.adjustDown_spec tq.nodeCount (tq.linked.setTime 0 time)).1⟩

def timerlistEmpty (tq : Timerlist κ ν) : Bool :=
  tq.nodeCount = 0

def timerlistSize (tq : Timerlist κ ν) : Nat :=
  tq.nodeCount

/-- Time and key of the first entry; its value is at the node. -/
def timerlistTop (tq : Timerlist κ ν) : Option (Int × κ) :=
  if tq.nodeCount = 0 then none
  else (tq.nodes.find? (fun n => n.id = (tq.heap 0).node)).map (fun n => ((tq.heap 0).time, n.key))

section Keys

variable [DecidableEq κ]

def timerlistDel (tq : Timerlist κ ν) (key : κ) : Timerlist κ ν :=
  ⟨tq.del key, (tq.linked.del key).1⟩

def timerlistMoveup (tq : Timerlist κ ν) (time : Int) (key : κ) : Timerlist κ ν :=
  ⟨tq.moveup time key, (tq.linked.moveup time key).1⟩

def timerlistGet (tq : Timerlist κ ν) (key : κ) : Option ν :=
  (tq.nodes.find? (fun n => n.key = key)).map TimerNode.value

def modifyFirst (key : κ) (update : ν → ν) : List (TimerNode κ ν) → List (TimerNode κ ν)
  | [] => []
  | n :: rest =>
      if n.key = key then { n with value := update n.value } :: rest
      else n :: modifyFirst key update rest

theorem modifyFirst_map {β : Type} {f : TimerNode κ ν → β}
    (hf : ∀ n value, f { n with value := value } = f n) (key : κ) (update : ν → ν)
    (nodes : List (TimerNode κ ν)) : (modifyFirst key update nodes).map f = nodes.map f := by
  induction nodes with
  | nil => rfl
  | cons n rest ih =>
      rw [modifyFirst]
      split
      · rw [List.map_cons, hf, List.map_cons]
      · rw [List.map_cons, ih, List.map_cons]

/-- A write through the pointer that `timerlist_get` returns. -/
def timerlistModify (tq : Timerlist κ ν) (key : κ) (update : ν → ν) : Timerlist κ ν where
  toTimerlistData := { tq.toTimerlistData with nodes := modifyFirst key update tq.nodes }
  linked := by
    have hids := modifyFirst_map (f := TimerNode.id) (fun _ _ => rfl) key update tq.nodes
    refine ⟨tq.linked.index, ?_, ?_, ?_, ?_⟩ <;> dsimp only <;> rw [hids]
    · exact tq.linked.mem_nodes
    · exact tq.linked.in_heap
    · exact tq.linked.nodup
    · exact tq.linked.fresh

/-! ### What the operations do to the entries of a key -/

/-- The number of entries with the key. -/
def entries (tq : Timerlist κ ν) (key : κ) : Nat :=
  tq.nodes.countP (fun n => n.key = key)

variable (tq : Timerlist κ ν) (time : Int) (key key' : κ) (value : ν)

theorem timerlistGet_push :
    (tq.timerlistPush time key value).timerlistGet key' =
      (tq.timerlistGet key').or (if key = key' then some value else none) := by
  rw [timerlistGet, timerlistPush, (tq.linked.push time key value).2, List.find?_append,
    timerlistGet]
  cases tq.nodes.find? (fun n => n.key = key') with
  | some n => rfl
  | none => by_cases heq : key = key' <;> simp [heq]

theorem timerlistGet_del :
    (tq.timerlistDel key).timerlistGet key' =
      if key = key' then none else tq.timerlistGet key' := by
  rw [timerlistGet, timerlistDel, (tq.linked.del key).2, List.find?_filter, timerlistGet]
  by_cases heq : key = key'
  · subst heq
    simp
  · rw [if_neg heq]
    congr 2
    funext n
    by_cases hn : n.key = key'
    · simp [hn, Ne.symm heq]
    · simp [hn]

@[simp]
theorem timerlistGet_moveup :
    (tq.timerlistMoveup time key).timerlistGet key' = tq.timerlistGet key' := by
  rw [timerlistGet, timerlistMoveup, (tq.linked.moveup time key).2.nodes_eq, timerlistGet]

@[simp]
theorem timerlistGet_reschedTop :
    (tq.timerlistReschedTop time).timerlistGet key' = tq.timerlistGet key' := by
  have hsame := (TimerlistData.adjustDown_spec tq.nodeCount (s := 0) (tq.linked.setTime 0 time)).2
  rw [timerlistGet, timerlistReschedTop, hsame.nodes_eq, timerlistGet]
  rfl

theorem timerlistGet_modify (update : ν → ν) :
    (tq.timerlistModify key update).timerlistGet key' =
      if key = key' then (tq.timerlistGet key').map update else tq.timerlistGet key' := by
  simp only [timerlistGet, timerlistModify]
  induction tq.nodes with
  | nil => simp [modifyFirst]
  | cons n rest ih =>
      rw [modifyFirst]
      by_cases hn : n.key = key
      · rw [if_pos hn]
        by_cases heq : key = key'
        · subst heq
          simp [hn]
        · have hne : n.key ≠ key' := fun h => heq (hn.symm.trans h)
          rw [List.find?_cons_of_neg (by simpa using hne),
            List.find?_cons_of_neg (by simpa using hne), if_neg heq]
      · rw [if_neg hn]
        by_cases hkey : n.key = key'
        · have heq : key ≠ key' := fun h => hn (hkey.trans h.symm)
          simp [hkey, heq]
        · rw [List.find?_cons_of_neg (by simpa using hkey),
            List.find?_cons_of_neg (by simpa using hkey)]
          exact ih

/-! ### What the operations do to the nodes -/

omit [DecidableEq κ] in
theorem nodes_push :
    (tq.timerlistPush time key value).nodes =
      tq.nodes ++ [{ id := tq.nextId, key := key, value := value }] :=
  (tq.linked.push time key value).2

theorem nodes_del : (tq.timerlistDel key).nodes = tq.nodes.filter (fun n => n.key ≠ key) :=
  (tq.linked.del key).2

theorem nodes_moveup : (tq.timerlistMoveup time key).nodes = tq.nodes :=
  (tq.linked.moveup time key).2.nodes_eq

omit [DecidableEq κ] in
theorem nodes_reschedTop : (tq.timerlistReschedTop time).nodes = tq.nodes :=
  (TimerlistData.adjustDown_spec tq.nodeCount (s := 0) (tq.linked.setTime 0 time)).2.nodes_eq

theorem modifyFirst_append {before after : List (TimerNode κ ν)} {n : TimerNode κ ν}
    (hbefore : ∀ m ∈ before, m.key ≠ key) (hkey : n.key = key) (update : ν → ν) :
    modifyFirst key update (before ++ n :: after) =
      before ++ { n with value := update n.value } :: after := by
  induction before with
  | nil => rw [List.nil_append, modifyFirst, if_pos hkey, List.nil_append]
  | cons m rest ih =>
      rw [List.cons_append, modifyFirst, if_neg (hbefore m List.mem_cons_self),
        ih (fun m' hm' => hbefore m' (List.mem_cons_of_mem m hm')), List.cons_append]

variable {tq key value} in
theorem timerlistGet_split (hget : tq.timerlistGet key = some value) :
    ∃ before n after, tq.nodes = before ++ n :: after ∧ n.key = key ∧ n.value = value ∧
      ∀ m ∈ before, m.key ≠ key := by
  obtain ⟨n, hfind, rfl⟩ := Option.map_eq_some_iff.mp hget
  obtain ⟨hkey, before, after, hnodes, hbefore⟩ := List.find?_eq_some_iff_append.mp hfind
  exact ⟨before, n, after, hnodes, by simpa using hkey, rfl, fun m hm => by
    simpa using hbefore m hm⟩

variable {tq key} in
theorem modifyFirst_of_get_none (hget : tq.timerlistGet key = none) (update : ν → ν) :
    modifyFirst key update tq.nodes = tq.nodes := by
  have hnone := List.find?_eq_none.mp (Option.map_eq_none_iff.mp hget)
  generalize tq.nodes = nodes at hnone ⊢
  induction nodes with
  | nil => rfl
  | cons n rest ih =>
      rw [modifyFirst, if_neg (by simpa using hnone n List.mem_cons_self),
        ih fun m hm => hnone m (List.mem_cons_of_mem n hm)]

/-! ### Entries -/

theorem entries_push :
    (tq.timerlistPush time key value).entries key' =
      tq.entries key' + if key = key' then 1 else 0 := by
  rw [entries, timerlistPush, (tq.linked.push time key value).2, List.countP_append, entries]
  by_cases heq : key = key' <;> simp [heq]

theorem entries_del :
    (tq.timerlistDel key).entries key' = if key = key' then 0 else tq.entries key' := by
  rw [entries, timerlistDel, (tq.linked.del key).2, List.countP_filter, entries]
  by_cases heq : key = key'
  · subst heq
    simp
  · rw [if_neg heq]
    refine List.countP_congr fun n _ => ?_
    by_cases hn : n.key = key'
    · simp [hn, Ne.symm heq]
    · simp [hn]

omit [DecidableEq κ] in
theorem filter_id_ne {left right : List (TimerNode κ ν)} {n : TimerNode κ ν}
    (hnodup : ((left ++ n :: right).map TimerNode.id).Nodup) :
    (left ++ n :: right).filter (fun m => m.id ≠ n.id) = left ++ right := by
  have hothers : ∀ m ∈ left ++ right, m.id ≠ n.id := by
    rw [List.map_append, List.map_cons, List.nodup_middle, List.nodup_cons,
      ← List.map_append] at hnodup
    exact fun m hm heq => hnodup.1 (List.mem_map.mpr ⟨m, hm, heq⟩)
  rw [List.filter_append, List.filter_cons_of_neg (by simp), ← List.filter_append]
  exact List.filter_eq_self.mpr (by simpa using hothers)

theorem entries_pop {tq : Timerlist κ ν} {time : Int} {key : κ}
    (htop : tq.timerlistTop = some (time, key)) (key' : κ) :
    tq.timerlistPop.entries key' + (if key = key' then 1 else 0) = tq.entries key' := by
  rw [timerlistTop] at htop
  split at htop
  · exact absurd htop (by simp)
  · rename_i hcount
    obtain ⟨n, hfind, htime⟩ := Option.map_eq_some_iff.mp htop
    obtain ⟨-, rfl⟩ := Prod.mk.inj htime
    have hmem := List.mem_of_find?_eq_some hfind
    have hid : n.id = (tq.heap 0).node := by simpa using List.find?_some hfind
    rw [entries, timerlistPop, tq.linked.pop.2 (by omega), entries]
    obtain ⟨left, right, hsplit⟩ := List.append_of_mem hmem
    have hnodup := tq.linked.nodup
    rw [hsplit] at hnodup ⊢
    rw [← hid, filter_id_ne hnodup]
    by_cases heq : n.key = key'
    · simp [heq]
      omega
    · simp [heq]

theorem entries_top_pos {tq : Timerlist κ ν} {time : Int} {key : κ}
    (htop : tq.timerlistTop = some (time, key)) : 0 < tq.entries key := by
  rw [timerlistTop] at htop
  split at htop
  · exact absurd htop (by simp)
  · obtain ⟨n, hfind, htime⟩ := Option.map_eq_some_iff.mp htop
    obtain ⟨-, rfl⟩ := Prod.mk.inj htime
    exact List.countP_pos_iff.mpr ⟨n, List.mem_of_find?_eq_some hfind, by simp⟩

end Keys

end Timerlist

end Liteflow

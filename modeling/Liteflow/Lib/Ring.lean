import Mathlib.Data.List.Cycle

/-!
# Circular doubly linked lists

Nodes with a pointer to the next and one to the previous node, as in intrusive lists: the head of a
list is a node like its members, and following `next` from it leads through the members and back. The
operations write pointers and know nothing about the list they are in.

`ofCycle` gives the pointers of the nodes that stand in a circle. A circle can be read from any of its
nodes, so it is enough to look at the operations at its beginning.
-/

namespace Ring

variable {α : Type} [DecidableEq α]

/-- The pointers of all nodes; `none` is the null pointer. -/
@[ext]
structure Links (α : Type) where
  next : α → Option α
  prev : α → Option α

namespace Links

def setNext (links : Links α) (node : α) (target : Option α) : Links α :=
  { links with next := Function.update links.next node target }

def setPrev (links : Links α) (node : α) (target : Option α) : Links α :=
  { links with prev := Function.update links.prev node target }

def init (links : Links α) (head : α) : Links α :=
  (links.setNext head (some head)).setPrev head (some head)

def link (links : Links α) (node before after : α) : Links α :=
  (((links.setPrev after (some node)).setNext node (some after)).setPrev node
    (some before)).setNext before (some node)

def bypass (links : Links α) (before after : α) : Links α :=
  (links.setPrev after (some before)).setNext before (some after)

def add (links : Links α) (node head : α) : Option (Links α) :=
  (links.next head).map (fun after => links.link node head after)

def addTail (links : Links α) (node head : α) : Option (Links α) :=
  (links.prev head).map (fun before => links.link node before head)

def del (links : Links α) (node : α) : Option (Links α) :=
  match links.prev node, links.next node with
  | some before, some after =>
      some (((links.bypass before after).setNext node none).setPrev node none)
  | _, _ => none

def move (links : Links α) (node head : α) : Option (Links α) :=
  match links.prev node, links.next node with
  | some before, some after => (links.bypass before after).add node head
  | _, _ => none

/-! ### Circles -/

/-- The pointers of the nodes of a circle; all others are null. -/
def ofCycle (cycle : List α) : Links α where
  next x := if h : x ∈ cycle then some (cycle.next x h) else none
  prev x := if h : x ∈ cycle then some (cycle.prev x h) else none

variable {cycle cycle' : List α} {x : α}

theorem next_ofCycle (hx : x ∈ cycle) : (ofCycle cycle).next x = some (cycle.next x hx) :=
  dif_pos hx

theorem prev_ofCycle (hx : x ∈ cycle) : (ofCycle cycle).prev x = some (cycle.prev x hx) :=
  dif_pos hx

theorem next_ofCycle_of_notMem (hx : x ∉ cycle) : (ofCycle cycle).next x = none :=
  dif_neg hx

theorem prev_ofCycle_of_notMem (hx : x ∉ cycle) : (ofCycle cycle).prev x = none :=
  dif_neg hx

theorem ofCycle_eq_of_isRotated (hnodup : cycle.Nodup) (hrotated : cycle ~r cycle') :
    ofCycle cycle = ofCycle cycle' := by
  ext1
  · funext x
    by_cases hx : x ∈ cycle
    · rw [next_ofCycle hx, next_ofCycle (hrotated.mem_iff.mp hx),
        List.isRotated_next_eq hrotated hnodup hx]
    · rw [next_ofCycle_of_notMem hx, next_ofCycle_of_notMem fun h => hx (hrotated.mem_iff.mpr h)]
  · funext x
    by_cases hx : x ∈ cycle
    · rw [prev_ofCycle hx, prev_ofCycle (hrotated.mem_iff.mp hx),
        List.isRotated_prev_eq hrotated hnodup hx]
    · rw [prev_ofCycle_of_notMem hx, prev_ofCycle_of_notMem fun h => hx (hrotated.mem_iff.mpr h)]

theorem next_getLast (hne : cycle ≠ []) (hnodup : cycle.Nodup) :
    (ofCycle cycle).next (cycle.getLast hne) = some (cycle.head hne) := by
  rw [next_ofCycle (List.getLast_mem hne), List.next_getLast_eq_head cycle hne hnodup]

theorem prev_head (hne : cycle ≠ []) :
    (ofCycle cycle).prev (cycle.head hne) = some (cycle.getLast hne) := by
  rw [prev_ofCycle (List.head_mem hne), List.prev_head_eq_getLast]

theorem ofCycle_getElem (hnodup : cycle.Nodup) {i : Nat} {y : α} (hx : cycle[i]? = some x)
    (hy : cycle[(i + 1) % cycle.length]? = some y) :
    (ofCycle cycle).next x = some y ∧ (ofCycle cycle).prev y = some x := by
  obtain ⟨hi, rfl⟩ := List.getElem?_eq_some_iff.mp hx
  obtain ⟨hj, rfl⟩ := List.getElem?_eq_some_iff.mp hy
  have hnext := List.next_getElem cycle hnodup i hi
  have hprev := List.prev_next cycle hnodup _ (List.getElem_mem hi)
  refine ⟨by rw [next_ofCycle (List.getElem_mem hi), hnext], ?_⟩
  rw [prev_ofCycle (List.getElem_mem hj)]
  simp only [hnext] at hprev
  rw [hprev]

/-! ### The operations at the beginning of a circle -/

theorem link_congr {links links' : Links α} (hnext : ∀ y ≠ x, links.next y = links'.next y)
    (hprev : ∀ y ≠ x, links.prev y = links'.prev y) (before after : α) :
    links.link x before after = links'.link x before after := by
  ext1
  · funext y
    simp only [link, setNext, setPrev, Function.update_apply]
    by_cases hy : y = x
    · simp [hy]
    · simp [hy, hnext y hy]
  · funext y
    simp only [link, setNext, setPrev, Function.update_apply]
    by_cases hy : y = x
    · simp [hy]
    · simp [hy, hprev y hy]

theorem next_cons (hne : cycle ≠ []) (hnodup : (x :: cycle).Nodup) (y : α) :
    (ofCycle (x :: cycle)).next y =
      if y = cycle.getLast hne then some x
      else if y = x then some (cycle.head hne) else (ofCycle cycle).next y := by
  obtain ⟨hx, hcycle⟩ := List.nodup_cons.mp hnodup
  by_cases hlast : y = cycle.getLast hne
  · have hy : y ∈ x :: cycle := List.mem_cons_of_mem _ (hlast ▸ List.getLast_mem hne)
    rw [if_pos hlast, next_ofCycle hy]
    subst hlast
    have hend : cycle.getLast hne = (x :: cycle).getLast (List.cons_ne_nil _ _) :=
      (List.getLast_cons hne).symm
    exact congrArg some (List.next_getLast_cons cycle _ (List.getLast_mem hne) x hy
      (fun h => hx (h ▸ List.getLast_mem hne)) hend hcycle)
  · rw [if_neg hlast]
    by_cases hy : y = x
    · subst hy
      obtain ⟨first, rest, rfl⟩ := List.exists_cons_of_ne_nil hne
      rw [if_pos rfl, next_ofCycle List.mem_cons_self, List.next_cons_cons_eq]
      rfl
    · rw [if_neg hy]
      by_cases hmem : y ∈ cycle
      · have hdrop : y ∈ cycle.dropLast := by
          rw [← List.dropLast_append_getLast hne, List.mem_append, List.mem_singleton] at hmem
          exact hmem.resolve_right hlast
        rw [next_ofCycle (List.mem_cons_of_mem _ hmem), next_ofCycle hmem,
          List.next_cons_eq_next_of_mem_dropLast cycle y hdrop x hy]
      · rw [next_ofCycle_of_notMem hmem, next_ofCycle_of_notMem (by simp [hy, hmem])]

theorem prev_cons (hne : cycle ≠ []) (hnodup : (x :: cycle).Nodup) (y : α) :
    (ofCycle (x :: cycle)).prev y =
      if y = x then some (cycle.getLast hne)
      else if y = cycle.head hne then some x else (ofCycle cycle).prev y := by
  obtain ⟨first, rest, rfl⟩ := List.exists_cons_of_ne_nil hne
  by_cases hy : y = x
  · subst hy
    rw [if_pos rfl, prev_ofCycle List.mem_cons_self, List.prev_cons_cons_eq]
  · rw [if_neg hy, List.head_cons]
    by_cases hfirst : y = first
    · subst hfirst
      rw [if_pos rfl, prev_ofCycle (by simp), List.prev_cons_cons_of_ne _ _ _ _ hy]
    · rw [if_neg hfirst]
      by_cases hmem : y ∈ first :: rest
      · rw [prev_ofCycle (List.mem_cons_of_mem _ hmem), prev_ofCycle hmem,
          List.prev_ne_cons_cons _ _ _ _ _ hy hfirst]
      · rw [prev_ofCycle_of_notMem hmem, prev_ofCycle_of_notMem (by simp [hy, hmem])]

theorem link_ofCycle (hne : cycle ≠ []) (hnodup : (x :: cycle).Nodup) :
    (ofCycle cycle).link x (cycle.getLast hne) (cycle.head hne) = ofCycle (x :: cycle) := by
  ext1
  · funext y
    rw [next_cons hne hnodup]
    simp only [link, setNext, setPrev, Function.update_apply]
  · funext y
    rw [prev_cons hne hnodup]
    simp only [link, setNext, setPrev, Function.update_apply]

theorem bypass_ofCycle (hne : cycle ≠ []) (hnodup : (x :: cycle).Nodup) {y : α} (hy : y ≠ x) :
    ((ofCycle (x :: cycle)).bypass (cycle.getLast hne) (cycle.head hne)).next y =
        (ofCycle cycle).next y ∧
      ((ofCycle (x :: cycle)).bypass (cycle.getLast hne) (cycle.head hne)).prev y =
        (ofCycle cycle).prev y := by
  have hcycle := (List.nodup_cons.mp hnodup).2
  simp only [bypass, setNext, setPrev, Function.update_apply]
  rw [next_cons hne hnodup, prev_cons hne hnodup]
  constructor
  · by_cases hlast : y = cycle.getLast hne
    · rw [if_pos hlast, hlast, next_getLast hne hcycle]
    · rw [if_neg hlast, if_neg hlast, if_neg hy]
  · by_cases hfirst : y = cycle.head hne
    · rw [if_pos hfirst, hfirst, prev_head hne]
    · rw [if_neg hfirst, if_neg hy, if_neg hfirst]

theorem prev_first (hne : cycle ≠ []) (hnodup : (x :: cycle).Nodup) :
    (ofCycle (x :: cycle)).prev x = some (cycle.getLast hne) := by
  rw [prev_cons hne hnodup, if_pos rfl]

theorem next_first (hne : cycle ≠ []) (hnodup : (x :: cycle).Nodup) :
    (ofCycle (x :: cycle)).next x = some (cycle.head hne) := by
  have hlast : x ≠ cycle.getLast hne := fun h =>
    (List.nodup_cons.mp hnodup).1 (h ▸ List.getLast_mem hne)
  rw [next_cons hne hnodup, if_neg hlast, if_pos rfl]

theorem del_ofCycle (hne : cycle ≠ []) (hnodup : (x :: cycle).Nodup) :
    (ofCycle (x :: cycle)).del x = some (ofCycle cycle) := by
  have hx := (List.nodup_cons.mp hnodup).1
  rw [del, prev_first hne hnodup, next_first hne hnodup]
  dsimp only
  congr 1
  ext1
  · funext y
    by_cases hy : y = x
    · rw [hy, next_ofCycle_of_notMem hx]
      simp [setNext, setPrev]
    · rw [← (bypass_ofCycle hne hnodup hy).1]
      simp [setNext, setPrev, hy]
  · funext y
    by_cases hy : y = x
    · rw [hy, prev_ofCycle_of_notMem hx]
      simp [setPrev]
    · rw [← (bypass_ofCycle hne hnodup hy).2]
      simp [setNext, setPrev, hy]

theorem move_ofCycle (hne : cycle ≠ []) (hne' : cycle' ≠ []) (hnodup : (x :: cycle).Nodup)
    (hrotated : cycle ~r cycle') :
    (ofCycle (x :: cycle)).move x (cycle'.getLast hne') = some (ofCycle (x :: cycle')) := by
  obtain ⟨hx, hcycle⟩ := List.nodup_cons.mp hnodup
  have hx' : x ∉ cycle' := fun h => hx (hrotated.mem_iff.mpr h)
  have hcycle' : cycle'.Nodup := hrotated.nodup_iff.mp hcycle
  have hlast : cycle'.getLast hne' ≠ x := fun h => hx' (h ▸ List.getLast_mem hne')
  rw [move, prev_first hne hnodup, next_first hne hnodup]
  dsimp only
  rw [add, (bypass_ofCycle hne hnodup hlast).1, ofCycle_eq_of_isRotated hcycle hrotated,
    next_getLast hne' hcycle', Option.map_some,
    ← link_ofCycle hne' (List.nodup_cons.mpr ⟨hx', hcycle'⟩)]
  congr 1
  refine link_congr (fun y hy => ?_) (fun y hy => ?_) _ _
  · rw [(bypass_ofCycle hne hnodup hy).1, ofCycle_eq_of_isRotated hcycle hrotated]
  · rw [(bypass_ofCycle hne hnodup hy).2, ofCycle_eq_of_isRotated hcycle hrotated]

/-! ### A head and its members -/

variable {head : α} {members front back : List α}

theorem init_eq (links : Links α) (hnext : ∀ y ≠ head, links.next y = none)
    (hprev : ∀ y ≠ head, links.prev y = none) : links.init head = ofCycle [head] := by
  ext1
  · funext y
    simp only [init, setNext, setPrev, Function.update_apply]
    by_cases hy : y = head
    · rw [if_pos hy, hy, next_ofCycle (List.mem_singleton_self _), List.next_singleton]
    · rw [if_neg hy, hnext y hy, next_ofCycle_of_notMem (by simpa using hy)]
  · funext y
    simp only [init, setNext, setPrev, Function.update_apply]
    by_cases hy : y = head
    · rw [if_pos hy, hy, prev_ofCycle (List.mem_singleton_self _), List.prev_singleton]
    · rw [if_neg hy, hprev y hy, prev_ofCycle_of_notMem (by simpa using hy)]

theorem addTail_members (hnodup : (x :: head :: members).Nodup) :
    (ofCycle (head :: members)).addTail x head =
      some (ofCycle (head :: (members ++ [x]))) := by
  have hne : head :: members ≠ [] := List.cons_ne_nil _ _
  have hlast : (ofCycle (head :: members)).prev head = some ((head :: members).getLast hne) :=
    prev_head hne
  have hlinked : (ofCycle (head :: members)).link x ((head :: members).getLast hne) head =
      ofCycle (x :: head :: members) := link_ofCycle hne hnodup
  have hrotated : (x :: head :: members) ~r (head :: (members ++ [x])) :=
    (List.isRotated_append : ([x] ++ head :: members) ~r (head :: members ++ [x]))
  rw [addTail, hlast, Option.map_some, hlinked, ofCycle_eq_of_isRotated hnodup hrotated]

theorem del_members (hnodup : (head :: (front ++ x :: back)).Nodup) :
    (ofCycle (head :: (front ++ x :: back))).del x = some (ofCycle (head :: (front ++ back))) := by
  have hrotated : (head :: (front ++ x :: back)) ~r (x :: (back ++ head :: front)) :=
    (List.isRotated_append : (head :: front ++ x :: back) ~r (x :: back ++ head :: front))
  have hrest : (back ++ head :: front) ~r (head :: (front ++ back)) :=
    List.isRotated_append
  have hcut : (x :: (back ++ head :: front)).Nodup := hrotated.nodup_iff.mp hnodup
  rw [ofCycle_eq_of_isRotated hnodup hrotated, del_ofCycle (by simp) hcut,
    ofCycle_eq_of_isRotated (List.nodup_cons.mp hcut).2 hrest]

theorem prev_members (hnodup : (head :: (front ++ x :: back)).Nodup) :
    (ofCycle (head :: (front ++ x :: back))).prev x =
      some ((head :: front).getLast (List.cons_ne_nil _ _)) := by
  have hrotated : (head :: (front ++ x :: back)) ~r (x :: (back ++ head :: front)) :=
    (List.isRotated_append : (head :: front ++ x :: back) ~r (x :: back ++ head :: front))
  rw [ofCycle_eq_of_isRotated hnodup hrotated,
    prev_first (by simp) (hrotated.nodup_iff.mp hnodup),
    List.getLast_append_of_ne_nil _ (List.cons_ne_nil _ _)]

theorem move_head (hnodup : (head :: (front ++ back)).Nodup) (hne : front ≠ []) :
    (ofCycle (head :: (front ++ back))).move head (front.getLast hne) =
      some (ofCycle (head :: (back ++ front))) := by
  have hne₁ : front ++ back ≠ [] := by simp [hne]
  have hne₂ : back ++ front ≠ [] := by simp [hne]
  have hmoved := move_ofCycle hne₁ hne₂ hnodup List.isRotated_append
  rwa [List.getLast_append_of_ne_nil _ hne] at hmoved

end Links

end Ring

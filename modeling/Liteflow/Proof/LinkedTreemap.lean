import Liteflow.Proof.LinkedTree

/-!
# The tree map is an ordered map

Under a comparison that is a strict total order on the keys in use, the in-order list of a map's
nodes is sorted, and any key splits it into the nodes before it, its own node and those after it.
The operations of `Proof.Treemap` and the links of `Proof.LinkedTree` come together here, over whole
runs of operations.
-/

namespace Liteflow

variable {κ ν : Type}

/-- The comparison function orders the keys in use strictly and totally. -/
structure StrictTotalOn (cmp : κ → κ → Ordering) (used : κ → Prop) : Prop where
  eq_iff : ∀ {a b : κ}, used a → used b → (cmp a b = .eq ↔ a = b)
  lt_iff : ∀ {a b : κ}, used a → used b → (cmp a b = .lt ↔ cmp b a = .gt)
  trans : ∀ {a b c : κ}, used a → used b → used c → cmp a b = .lt → cmp b c = .lt → cmp a c = .lt

structure Ascending {β : Type} (cmp : κ → κ → Ordering) (used : κ → Prop) (list : List (κ × β)) :
    Prop where
  sorted : list.Pairwise (fun left right => cmp left.1 right.1 = .lt)
  used : ∀ entry ∈ list, used entry.1

/-! ### The sorted map that the tree stands for -/

section Spec

variable {β : Type} (cmp : κ → κ → Ordering) (key : κ) (list : List (κ × β))

def keysBefore : List (κ × β) :=
  list.filter (fun entry => cmp key entry.1 = .gt)

def keysAt : List (κ × β) :=
  list.filter (fun entry => cmp key entry.1 = .eq)

def keysAfter : List (κ × β) :=
  list.filter (fun entry => cmp key entry.1 = .lt)

variable {cmp} {key} {list} {used : κ → Prop}

theorem Ascending.split (hcmp : StrictTotalOn cmp used) (hlist : Ascending cmp used list)
    (hkey : used key) :
    list = keysBefore cmp key list ++ (keysAt cmp key list ++ keysAfter cmp key list) ∧
      (keysAt cmp key list).length ≤ 1 := by
  induction list with
  | nil => exact ⟨rfl, Nat.zero_le 1⟩
  | cons entry rest ih =>
      have hrest : Ascending cmp used rest :=
        ⟨(List.pairwise_cons.mp hlist.sorted).2, fun e he => hlist.used e (by simp [he])⟩
      have hentry := hlist.used entry (by simp)
      obtain ⟨hsplit, hone⟩ := ih hrest
      -- behind an entry at or after the key, everything is after it
      have hafter : cmp key entry.1 ≠ .gt →
          ∀ other ∈ rest, cmp key other.1 = .lt := by
        intro hle other hother
        have hlt := (List.pairwise_cons.mp hlist.sorted).1 other hother
        cases hcase : cmp key entry.1 with
        | gt => exact absurd hcase hle
        | eq =>
            rw [(hcmp.eq_iff hkey hentry).mp hcase]
            exact hlt
        | lt => exact hcmp.trans hkey hentry (hrest.used other hother) hcase hlt
      have hempty : cmp key entry.1 ≠ .gt → keysBefore cmp key rest = [] ∧
          keysAt cmp key rest = [] := by
        intro hle
        constructor <;> refine List.filter_eq_nil_iff.mpr (fun other hother => ?_) <;>
          simp [hafter hle other hother]
      cases hcase : cmp key entry.1 with
      | gt =>
          simp only [keysBefore, keysAt, keysAfter] at hsplit hone ⊢
          simp only [List.filter_cons, hcase, decide_true, if_true, List.cons_append]
          refine ⟨?_, hone⟩
          conv_lhs => rw [hsplit]
          rfl
      | eq =>
          obtain ⟨hbefore, hat⟩ := hempty (by simp [hcase])
          rw [hbefore, hat] at hsplit
          simp only [keysBefore, keysAt, keysAfter] at hsplit hbefore hat ⊢
          simp only [List.filter_cons, hcase, decide_true, if_true]
          rw [hat]
          refine ⟨?_, le_rfl⟩
          conv_lhs => rw [hsplit]
          simpa using hbefore
      | lt =>
          obtain ⟨hbefore, hat⟩ := hempty (by simp [hcase])
          rw [hbefore, hat] at hsplit
          simp only [keysBefore, keysAt, keysAfter] at hsplit hbefore hat ⊢
          simp only [List.filter_cons, hcase, decide_true, if_true]
          refine ⟨?_, ?_⟩
          · conv_lhs => rw [hsplit]
            simp [hbefore, hat]
          · simp [hat]

theorem Ascending.located (hcmp : StrictTotalOn cmp used) (hlist : Ascending cmp used list)
    (hkey : used key) :
    Treemap.Located cmp key (keysBefore cmp key list) (keysAt cmp key list)
      (keysAfter cmp key list) where
  before_gt := fun _ hmem => of_decide_eq_true (List.mem_filter.mp hmem).2
  after_lt := fun _ hmem => of_decide_eq_true (List.mem_filter.mp hmem).2
  hit_eq := fun _ hmem => of_decide_eq_true (List.mem_filter.mp hmem).2
  hit_length := (hlist.split hcmp hkey).2

theorem Ascending.sublist (hlist : Ascending cmp used list) {list' : List (κ × β)}
    (hsub : list'.Sublist list) : Ascending cmp used list' :=
  ⟨hlist.sorted.sublist hsub, fun entry hmem => hlist.used entry (hsub.subset hmem)⟩

theorem Ascending.insert (hcmp : StrictTotalOn cmp used) (hlist : Ascending cmp used list)
    (hkey : used key) (value : β) :
    Ascending cmp used (keysBefore cmp key list ++ (key, value) :: keysAfter cmp key list) := by
  have hbefore : ∀ entry ∈ keysBefore cmp key list, used entry.1 ∧ cmp entry.1 key = .lt := by
    intro entry hmem
    obtain ⟨hmem, hgt⟩ := List.mem_filter.mp hmem
    have hused := hlist.used entry hmem
    exact ⟨hused, (hcmp.lt_iff hused hkey).mpr (of_decide_eq_true hgt)⟩
  have hafter : ∀ entry ∈ keysAfter cmp key list, used entry.1 ∧ cmp key entry.1 = .lt := by
    intro entry hmem
    obtain ⟨hmem, hlt⟩ := List.mem_filter.mp hmem
    exact ⟨hlist.used entry hmem, of_decide_eq_true hlt⟩
  constructor
  · rw [List.pairwise_append, List.pairwise_cons]
    refine ⟨hlist.sorted.sublist List.filter_sublist,
      ⟨fun entry hmem => (hafter entry hmem).2, hlist.sorted.sublist List.filter_sublist⟩, ?_⟩
    intro left hleft right hright
    obtain ⟨husedl, hltl⟩ := hbefore left hleft
    rcases List.mem_cons.mp hright with rfl | hright
    · exact hltl
    · obtain ⟨husedr, hltr⟩ := hafter right hright
      exact hcmp.trans husedl hkey husedr hltl hltr
  · exact List.forall_mem_append.mpr ⟨fun entry hmem => (hbefore entry hmem).1,
      List.forall_mem_cons.mpr ⟨hkey, fun entry hmem => (hafter entry hmem).1⟩⟩

end Spec

def TreemapOp.spec {β : Type} (cmp : κ → κ → Ordering) (list : List (κ × β)) :
    TreemapOp κ β → Int × List (κ × β)
  | insert key value | insert2 key value =>
      if keysAt cmp key list = [] then
        (0, keysBefore cmp key list ++ (key, value) :: keysAfter cmp key list)
      else (1, list)
  | delete key =>
      ((keysAt cmp key list).length, keysBefore cmp key list ++ keysAfter cmp key list)
  | clear => (0, [])
  | first => (0, list)

namespace LinkedTreemap

variable {cmp : κ → κ → Ordering} {used : κ → Prop} {map : LinkedTreemap κ ν}

def entries (map : LinkedTreemap κ ν) : List (κ × Nat × ν) :=
  map.root.erase.toList

def bindings (map : LinkedTreemap κ ν) : List (κ × ν) :=
  map.entries.map (fun entry => (entry.1, entry.2.2))

structure Sound (cmp : κ → κ → Ordering) (used : κ → Prop) (map : LinkedTreemap κ ν) : Prop where
  balanced : map.root.erase.Balanced
  ascending : Ascending cmp used map.entries
  parented : LinkedTree.Parented none map.root
  nodup : map.root.addrs.Nodup
  fresh : ∀ addr ∈ map.root.addrs, addr < map.tm.nextAddr
  count : map.tm.nodeCnt = map.root.addrs.length
  first : LinkedTree.FirstOf map.tm.first map.root.addrs

theorem sound_init : Sound cmp used (treemapInit : LinkedTreemap κ ν) where
  balanced := Treemap.balanced_nil
  ascending := ⟨List.Pairwise.nil, fun _ hmem => absurd hmem List.not_mem_nil⟩
  parented := trivial
  nodup := List.nodup_nil
  fresh := fun _ hmem => absurd hmem List.not_mem_nil
  count := rfl
  first := Or.inl rfl

theorem addrs_eq_entries : map.root.addrs = map.entries.map (fun entry => entry.2.1) :=
  map.root.addrs_eq

theorem addrs_setBlack (t : LinkedTree κ ν) : t.setBlack.addrs = t.addrs := by
  cases t <;> rfl

theorem Sound.insert (hcmp : StrictTotalOn cmp used) (hmap : Sound cmp used map) {key : κ}
    (hkey : used key) (value : ν) :
    Sound cmp used (map.treemapInsert cmp key value).2 ∧
      (if keysAt cmp key map.entries = [] then
        (map.treemapInsert cmp key value).1 = 0 ∧
          (map.treemapInsert cmp key value).2.entries = keysBefore cmp key map.entries ++
            (key, map.tm.nextAddr, value) :: keysAfter cmp key map.entries
      else map.treemapInsert cmp key value = (1, map)) := by
  obtain ⟨hsplit, -⟩ := hmap.ascending.split hcmp hkey
  have hloc := hmap.ascending.located hcmp hkey
  have hinserts := LinkedTree.inserts_treemapInsertInternal cmp key value map.tm none map.root
  have herase := map.root.erase_treemapInsertInternal cmp key value map.tm none
  by_cases hnew : keysAt cmp key map.entries = []
  · rw [hnew, List.nil_append] at hsplit
    obtain ⟨hret, hbalanced, hlist⟩ := Treemap.treemapInsert_new (map.tm.nextAddr, value)
      hmap.balanced hloc.toSplits hsplit
    simp only [Treemap.treemapInsert, ← herase] at hret hbalanced hlist
    have hentries : (map.treemapInsert cmp key value).2.entries = keysBefore cmp key map.entries ++
        (key, map.tm.nextAddr, value) :: keysAfter cmp key map.entries := by
      rw [entries, treemapInsert, LinkedTree.erase_setBlack]
      exact hlist
    obtain heq | ⟨-, hcount, hnext⟩ := hinserts.tm_eq
    · rw [heq] at hret
      exact absurd hret (by simp)
    have hperm : (map.treemapInsert cmp key value).2.root.addrs.Perm
        (map.tm.nextAddr :: map.root.addrs) := by
      rw [addrs_eq_entries, addrs_eq_entries, hentries, List.map_append, List.map_cons]
      refine List.perm_middle.trans (List.Perm.cons _ ?_)
      rw [← List.map_append, ← hsplit]
    have hfresh : map.tm.nextAddr ∉ map.root.addrs := fun hmem =>
      absurd (hmap.fresh _ hmem) (lt_irrefl _)
    refine ⟨⟨?_, ?_, ?_, ?_, ?_, ?_, ?_⟩, ?_⟩
    · rw [treemapInsert, LinkedTree.erase_setBlack]
      exact hbalanced
    · rw [hentries]
      exact hmap.ascending.insert hcmp hkey _
    · exact (hinserts.parented hmap.parented).setBlack
    · exact hperm.nodup_iff.mpr (List.nodup_cons.mpr ⟨hfresh, hmap.nodup⟩)
    · intro addr hmem
      have htm : (map.treemapInsert cmp key value).2.tm.nextAddr = map.tm.nextAddr + 1 := hnext
      rcases List.mem_cons.mp (hperm.mem_iff.mp hmem) with rfl | hmem
      · omega
      · have := hmap.fresh addr hmem
        omega
    · have htm : (map.treemapInsert cmp key value).2.tm.nodeCnt = map.tm.nodeCnt + 1 := hcount
      rw [htm, hperm.length_eq, List.length_cons, hmap.count]
    · have hnodup : (map.root.addrs ++ []).Nodup := by simpa using hmap.nodup
      have hfirst := hinserts.firstOf hnodup (by simpa using hfresh) (by simpa using hmap.first)
      rw [List.append_nil] at hfirst
      change LinkedTree.FirstOf _ (LinkedTree.setBlack _).addrs
      rw [addrs_setBlack]
      rcases hfirst with ⟨hnil, hsame, -⟩ | ⟨-, -, hfirst⟩
      · refine Or.inl (hsame.trans ?_)
        rcases hmap.first with hnone | hhead
        · exact hnone
        · rw [hhead, hnil]
          rfl
      · exact hfirst
    · rw [if_pos hnew]
      exact ⟨hret, hentries⟩
  · obtain ⟨entry, hat⟩ : ∃ entry, keysAt cmp key map.entries = [entry] :=
      List.length_eq_one_iff.mp (le_antisymm hloc.hit_length (List.length_pos_iff.mpr hnew))
    have heq : cmp key entry.1 = .eq := hloc.hit_eq entry (by simp [hat])
    rw [hat, List.singleton_append] at hsplit
    have hdup := Treemap.treemapInsert_dup (map.tm.nextAddr, value) hmap.balanced hloc.toSplits heq
      hsplit
    simp only [Treemap.treemapInsert, ← herase, Prod.mk.injEq] at hdup
    have hstep := hinserts.of_ret (by simp [hdup.1])
    have hblack : map.root.setBlack = map.root := by
      obtain ⟨n, hllrb⟩ := hmap.balanced
      cases hroot : map.root with
      | nil => rfl
      | node a p c l k v r =>
          rw [hroot, LinkedTree.erase] at hllrb
          cases hllrb with
          | black => rfl
    have hresult : map.treemapInsert cmp key value = (1, map) := by
      rw [treemapInsert, hstep]
      dsimp only
      rw [hblack]
    rw [hresult, if_neg hnew]
    exact ⟨hmap, rfl⟩

theorem Sound.delete (hcmp : StrictTotalOn cmp used) (hmap : Sound cmp used map) {key : κ}
    (hkey : used key) :
    Sound cmp used (map.treemapDelete cmp key).2 ∧
      (map.treemapDelete cmp key).1 = (keysAt cmp key map.entries).length ∧
      (map.treemapDelete cmp key).2.entries =
        keysBefore cmp key map.entries ++ keysAfter cmp key map.entries := by
  obtain ⟨hsplit, hone⟩ := hmap.ascending.split hcmp hkey
  have hloc := hmap.ascending.located hcmp hkey
  have hdeletes := LinkedTree.deletes_treemapDeleteInternal cmp key map.root.addrs.length map.tm
    map.root
  have herase := LinkedTree.erase_treemapDeleteInternal cmp key map.root.addrs.length map.tm
    map.root
  have hfuel : map.root.addrs.length = map.root.erase.treemapSize := by
    rw [map.root.addrs_eq, List.length_map, Treemap.treemapSize]
  obtain ⟨⟨hret, hlist⟩, hbalanced⟩ := Treemap.treemapDelete_spec hmap.balanced hloc hsplit
  rw [Treemap.treemapDelete, ← hfuel] at hret hlist hbalanced
  simp only [← herase] at hret hlist hbalanced
  have hentries : (map.treemapDelete cmp key).2.entries =
      keysBefore cmp key map.entries ++ keysAfter cmp key map.entries := by
    rw [entries, treemapDelete, LinkedTree.erase_setBlack]
    exact hlist
  have hsub : ((map.treemapDelete cmp key).2.entries).Sublist map.entries := by
    rw [hentries]
    conv_rhs => rw [hsplit]
    exact (List.sublist_append_right _ _).append_left _
  have hsubaddrs : ((map.treemapDelete cmp key).2.root.addrs).Sublist map.root.addrs := by
    rw [addrs_eq_entries, addrs_eq_entries]
    exact hsub.map _
  have hlength : (map.treemapDelete cmp key).2.root.addrs.length +
      (keysAt cmp key map.entries).length = map.root.addrs.length := by
    rw [addrs_eq_entries, addrs_eq_entries, List.length_map, List.length_map, hentries]
    conv_rhs => rw [hsplit]
    simp only [List.length_append]
    omega
  have htree : (map.treemapDelete cmp key).2.root.addrs =
      (map.root.treemapDeleteInternal cmp key map.root.addrs.length map.tm).tree.addrs :=
    addrs_setBlack _
  refine ⟨⟨?_, hmap.ascending.sublist hsub, ?_, hmap.nodup.sublist hsubaddrs, ?_, ?_, ?_⟩, hret,
    hentries⟩
  · rw [treemapDelete, LinkedTree.erase_setBlack]
    exact hbalanced
  · exact (hdeletes.parented hmap.parented).setBlack
  · intro addr hmem
    have hnext : (map.treemapDelete cmp key).2.tm.nextAddr = map.tm.nextAddr := hdeletes.nextAddr_eq
    rw [hnext]
    exact hmap.fresh addr (hsubaddrs.subset hmem)
  · change (LinkedTree.treemapDeleteInternal cmp key _ _ _).tm.nodeCnt = _
    have hcount := hmap.count
    rcases hdeletes.nodeCnt_eq with ⟨hzero, hsame⟩ | ⟨hret1, hless⟩
    · rw [hzero] at hret
      rw [hsame]
      omega
    · rw [hret1] at hret
      rw [hless]
      omega
  · rw [htree]
    have hnodup : (map.root.addrs ++ []).Nodup := by simpa using hmap.nodup
    have hparented : LinkedTree.Parented ([] : List Nat).head? map.root := hmap.parented
    have hfirst := hdeletes.firstOf hparented hnodup (by rw [← htree]; omega)
      (by simpa using hmap.first)
    rwa [List.append_nil] at hfirst

theorem Sound.clear : Sound cmp used map.treemapClear where
  balanced := Treemap.balanced_nil
  ascending := ⟨List.Pairwise.nil, fun _ hmem => absurd hmem List.not_mem_nil⟩
  parented := trivial
  nodup := List.nodup_nil
  fresh := fun _ hmem => absurd hmem List.not_mem_nil
  count := rfl
  first := Or.inl rfl

theorem Sound.first_eq (hmap : Sound cmp used map) : map.treemapFirst.1 = map.root.addrs.head? := by
  have hleft : map.root.outermost .left = map.root.addrs.head? :=
    LinkedTree.outermost_eq .right map.root
  rw [treemapFirst]
  dsimp only
  split
  · exact hleft
  · rename_i hsome
    rcases hmap.first with hnone | hhead
    · exact absurd hnone hsome
    · exact hhead

theorem Sound.setFirst (hmap : Sound cmp used map) : Sound cmp used map.treemapFirst.2 where
  balanced := hmap.balanced
  ascending := hmap.ascending
  parented := hmap.parented
  nodup := hmap.nodup
  fresh := hmap.fresh
  count := hmap.count
  first := Or.inr hmap.first_eq

theorem last_eq (map : LinkedTreemap κ ν) : map.treemapLast = map.root.addrs.reverse.head? :=
  LinkedTree.outermost_eq .left map.root

/-! ### Bindings -/

section Bindings

variable {key : κ}

theorem filter_bindings (p : κ → Bool) :
    map.bindings.filter (fun binding => p binding.1) =
      (map.entries.filter (fun entry => p entry.1)).map (fun entry => (entry.1, entry.2.2)) := by
  rw [bindings, List.filter_map]
  rfl

theorem keysAt_bindings : keysAt cmp key map.bindings =
    (keysAt cmp key map.entries).map (fun entry => (entry.1, entry.2.2)) :=
  filter_bindings (fun k => cmp key k = .eq)

theorem keysBefore_bindings : keysBefore cmp key map.bindings =
    (keysBefore cmp key map.entries).map (fun entry => (entry.1, entry.2.2)) :=
  filter_bindings (fun k => cmp key k = .gt)

theorem keysAfter_bindings : keysAfter cmp key map.bindings =
    (keysAfter cmp key map.entries).map (fun entry => (entry.1, entry.2.2)) :=
  filter_bindings (fun k => cmp key k = .lt)

end Bindings

theorem Sound.insert_bindings (hcmp : StrictTotalOn cmp used) (hmap : Sound cmp used map) {key : κ}
    (hkey : used key) (value : ν) :
    ((map.treemapInsert cmp key value).1, (map.treemapInsert cmp key value).2.bindings) =
        (TreemapOp.insert key value).spec cmp map.bindings ∧
      ((map.treemapInsert cmp key value).1 = 1 → (map.treemapInsert cmp key value).2 = map) := by
  have hinsert := (hmap.insert hcmp hkey value).2
  rw [TreemapOp.spec, keysAt_bindings, keysBefore_bindings, keysAfter_bindings]
  by_cases hnew : keysAt cmp key map.entries = []
  · rw [if_pos hnew] at hinsert
    rw [if_pos (by rw [hnew, List.map_nil]), hinsert.1]
    refine ⟨?_, fun h => absurd h (by simp)⟩
    rw [bindings, hinsert.2, List.map_append, List.map_cons]
  · rw [if_neg hnew] at hinsert
    rw [if_neg (by rw [List.map_eq_nil_iff]; exact hnew), hinsert]
    exact ⟨rfl, fun _ => rfl⟩

end LinkedTreemap

def TreemapOp.Uses (used : κ → Prop) : TreemapOp κ ν → Prop
  | .insert key _ | .insert2 key _ | .delete key => used key
  | .clear | .first => True

def TreemapOp.KeepsPresent (map : LinkedTreemap κ ν) (result : Int × LinkedTreemap κ ν) :
    TreemapOp κ ν → Prop
  | .insert _ _ | .insert2 _ _ => result.1 = 1 → result.2 = map
  | .delete _ | .clear | .first => True

namespace LinkedTreemap

variable {cmp : κ → κ → Ordering} {used : κ → Prop} {map : LinkedTreemap κ ν}

theorem Sound.apply (hcmp : StrictTotalOn cmp used) (hmap : Sound cmp used map)
    (op : TreemapOp κ ν) (hop : op.Uses used) :
    Sound cmp used (op.apply cmp map).2 ∧
      ((op.apply cmp map).1, (op.apply cmp map).2.bindings) = op.spec cmp map.bindings ∧
      op.KeepsPresent map (op.apply cmp map) := by
  cases op with
  | insert key value =>
      exact ⟨(hmap.insert hcmp hop value).1, hmap.insert_bindings hcmp hop value⟩
  | insert2 key value =>
      exact ⟨(hmap.insert hcmp hop value).1, hmap.insert_bindings hcmp hop value⟩
  | delete key =>
      obtain ⟨hsound, hret, hentries⟩ := hmap.delete hcmp hop
      refine ⟨hsound, Prod.ext ?_ ?_, trivial⟩
      · rw [TreemapOp.spec, keysAt_bindings, List.length_map]
        exact hret
      · rw [TreemapOp.spec, keysBefore_bindings, keysAfter_bindings, ← List.map_append, ← hentries]
        rfl
  | clear => exact ⟨Sound.clear, rfl, trivial⟩
  | first => exact ⟨hmap.setFirst, rfl, trivial⟩

theorem Sound.applyAll (hcmp : StrictTotalOn cmp used) : ∀ (ops : List (TreemapOp κ ν))
    {map : LinkedTreemap κ ν}, Sound cmp used map → (∀ op ∈ ops, op.Uses used) →
    Sound cmp used (TreemapOp.applyAll cmp map ops) ∧
      (TreemapOp.applyAll cmp map ops).bindings =
        ops.foldl (fun list op => (op.spec cmp list).2) map.bindings := by
  intro ops
  induction ops with
  | nil => exact fun hmap _ => ⟨hmap, rfl⟩
  | cons op rest ih =>
      intro map hmap hops
      obtain ⟨hsound, hspec, -⟩ := hmap.apply hcmp op (hops op (by simp))
      obtain ⟨hrun, hbindings⟩ := ih hsound (fun other hother => hops other (by simp [hother]))
      refine ⟨hrun, ?_⟩
      rw [List.foldl_cons, ← hspec]
      exact hbindings

/-! ### Lookups -/

section Lookups

variable {key : κ}

theorem Sound.get_eq (hcmp : StrictTotalOn cmp used) (hmap : Sound cmp used map)
    (hkey : used key) :
    map.treemapGet cmp key =
      (map.bindings.find? (fun binding => cmp key binding.1 = .eq)).map Prod.snd := by
  have hloc := hmap.ascending.located hcmp hkey
  have hsplit := (hmap.ascending.split hcmp hkey).1
  rw [treemapGet, LinkedTree.treemapGet_eq, Treemap.treemapGet_eq hloc hsplit, ← List.head?_filter,
    show map.bindings.filter (fun binding => cmp key binding.1 = .eq) = _ from keysAt_bindings,
    List.head?_map, Option.map_map, Option.map_map]
  rfl

theorem find?_append_of_split {α : Type} {p : α → Bool} {front back : List α}
    (hfront : ∀ x ∈ front, p x = false) (hback : ∀ x ∈ back, p x = true) :
    (front ++ back).find? p = back.head? := by
  rw [List.find?_append, List.find?_eq_none.mpr (by simpa using hfront), Option.none_or]
  cases back with
  | nil => rfl
  | cons x rest => rw [List.find?_cons_of_pos (hback x (by simp)), List.head?_cons]

theorem Sound.lowerBound_eq (hcmp : StrictTotalOn cmp used) (hmap : Sound cmp used map)
    (hkey : used key) :
    map.treemapLowerBound cmp key =
      (map.entries.find? (fun entry => cmp entry.1 key ≠ .lt)).map (fun entry => entry.2.1) := by
  have hsplit := (hmap.ascending.split hcmp hkey).1
  have hbefore : ∀ entry ∈ keysBefore cmp key map.entries, cmp entry.1 key = .lt := by
    intro entry hmem
    obtain ⟨hmem, hgt⟩ := List.mem_filter.mp hmem
    exact (hcmp.lt_iff (hmap.ascending.used entry hmem) hkey).mpr (of_decide_eq_true hgt)
  have hrest : ∀ entry ∈ keysAt cmp key map.entries ++ keysAfter cmp key map.entries,
      cmp entry.1 key ≠ .lt := by
    intro entry hmem hlt
    rcases List.mem_append.mp hmem with hmem | hmem <;>
      obtain ⟨hmem, hcase⟩ := List.mem_filter.mp hmem <;>
      rw [(hcmp.lt_iff (hmap.ascending.used entry hmem) hkey).mp hlt] at hcase <;>
      exact absurd hcase (by simp)
  rw [treemapLowerBound, LinkedTree.lowerBoundFrom_eq, Option.or_none,
    Treemap.treemapLowerBound_eq_head hsplit hbefore hrest]
  conv_rhs => rw [hsplit, find?_append_of_split (by simpa using hbefore) (by simpa using hrest)]

theorem Sound.upperBound_eq (hcmp : StrictTotalOn cmp used) (hmap : Sound cmp used map)
    (hkey : used key) :
    map.treemapUpperBound cmp key =
      (map.entries.find? (fun entry => cmp key entry.1 = .lt)).map (fun entry => entry.2.1) := by
  have hloc := hmap.ascending.located hcmp hkey
  have hsplit := (hmap.ascending.split hcmp hkey).1
  rw [← List.append_assoc] at hsplit
  have hfront : ∀ entry ∈ keysBefore cmp key map.entries ++ keysAt cmp key map.entries,
      cmp key entry.1 ≠ .lt := by
    intro entry hmem hlt
    rcases List.mem_append.mp hmem with hmem | hmem
    · exact absurd (hlt.symm.trans (hloc.before_gt entry hmem)) (by simp)
    · exact absurd (hlt.symm.trans (hloc.hit_eq entry hmem)) (by simp)
  rw [treemapUpperBound, LinkedTree.upperBoundFrom_eq, Option.or_none,
    Treemap.treemapUpperBound_eq_head hsplit hfront hloc.after_lt, ← List.head?_filter]
  rfl

end Lookups

/-- A left-leaning red-black search tree with a black root, exact parent links and count, and the
least node or none cached. -/
structure Consistent (cmp : κ → κ → Ordering) (map : LinkedTreemap κ ν) : Prop where
  llrb : map.root.erase.Balanced
  search_tree : map.entries.Pairwise (fun left right => cmp left.1 right.1 = .lt)
  parents : LinkedTree.Parented none map.root
  distinct : map.root.addrs.Nodup
  node_cnt : map.treemapSize = map.bindings.length
  first : map.tm.first = none ∨ map.tm.first = map.root.addrs.head?

theorem Sound.consistent (hmap : Sound cmp used map) : Consistent cmp map where
  llrb := hmap.balanced
  search_tree := hmap.ascending.sorted
  parents := hmap.parented
  distinct := hmap.nodup
  node_cnt := by
    rw [treemapSize, hmap.count, addrs_eq_entries, List.length_map, bindings, List.length_map]
  first := hmap.first

/-- `treemap_next` from `treemap_first`, and `treemap_prev` from `treemap_last`, pass through the
nodes in key order, each once, and end. -/
def WalksInOrder (map : LinkedTreemap κ ν) : Prop :=
  ∀ fuel, map.bindings.length < fuel →
    map.root.visited .right fuel map.treemapFirst.1 = map.entries.map (fun entry => entry.2.1) ∧
      map.root.visited .left fuel map.treemapLast =
        (map.entries.map (fun entry => entry.2.1)).reverse

theorem Sound.walksInOrder (hmap : Sound cmp used map) : WalksInOrder map := by
  intro fuel hfuel
  have hlength : map.bindings.length = map.root.addrs.length := by
    rw [bindings, List.length_map, addrs_eq_entries, List.length_map]
  rw [hlength] at hfuel
  rw [hmap.first_eq, map.last_eq, ← addrs_eq_entries]
  have hright : (map.root.along .right).Nodup := hmap.nodup
  have hleft : (map.root.along .left).Nodup := List.nodup_reverse.mpr hmap.nodup
  constructor
  · exact LinkedTree.visited_eq hmap.parented hright _ (List.nil_append _).symm hfuel
  · have hfuel' : (map.root.along .left).length < fuel := by
      rwa [show map.root.along .left = map.root.addrs.reverse from rfl, List.length_reverse]
    exact LinkedTree.visited_eq hmap.parented hleft _ (List.nil_append _).symm hfuel'

end LinkedTreemap

/-- After any run of operations whose keys are ordered strictly and totally, the tree map is a
balanced search tree with exact links, and every operation, lookup and walk gives what the sorted map
gives. -/
theorem treemap_orderedMap {cmp : κ → κ → Ordering} {used : κ → Prop}
    (hcmp : StrictTotalOn cmp used) (ops : List (TreemapOp κ ν)) (hops : ∀ op ∈ ops, op.Uses used) :
    let map := TreemapOp.applyAll cmp LinkedTreemap.treemapInit ops
    map.Consistent cmp ∧
      map.bindings = ops.foldl (fun list op => (op.spec cmp list).2) [] ∧
      (∀ op : TreemapOp κ ν, op.Uses used →
        (op.apply cmp map).1 = (op.spec cmp map.bindings).1 ∧
          op.KeepsPresent map (op.apply cmp map)) ∧
      (∀ key, used key →
        map.treemapGet cmp key =
            (map.bindings.find? (fun binding => cmp key binding.1 = .eq)).map Prod.snd ∧
          map.treemapLowerBound cmp key =
            (map.entries.find? (fun entry => cmp entry.1 key ≠ .lt)).map (fun entry => entry.2.1) ∧
          map.treemapUpperBound cmp key =
            (map.entries.find? (fun entry => cmp key entry.1 = .lt)).map
              (fun entry => entry.2.1)) ∧
      map.WalksInOrder := by
  intro map
  obtain ⟨hsound, hbindings⟩ := LinkedTreemap.Sound.applyAll hcmp ops
    (LinkedTreemap.sound_init (ν := ν)) hops
  refine ⟨hsound.consistent, hbindings, fun op hop => ?_, fun key hkey => ?_, hsound.walksInOrder⟩
  · obtain ⟨-, hspec, hkeeps⟩ := hsound.apply hcmp op hop
    exact ⟨congrArg Prod.fst hspec, hkeeps⟩
  · exact ⟨hsound.get_eq hcmp hkey, hsound.lowerBound_eq hcmp hkey, hsound.upperBound_eq hcmp hkey⟩

theorem strictTotalOn_compare : StrictTotalOn (compare : Nat → Nat → Ordering) (fun _ => True) where
  eq_iff := fun _ _ => Nat.compare_eq_eq
  lt_iff := fun _ _ => by rw [Nat.compare_eq_lt, Nat.compare_eq_gt]
  trans := fun _ _ _ hab hbc => by
    rw [Nat.compare_eq_lt] at hab hbc ⊢
    exact hab.trans hbc

/-- Deletions from both ends, of an inner key and of an absent one. -/
theorem treemap_orderedMap_mixed :
    let ops : List (TreemapOp Nat Nat) :=
      [.insert 5 50, .insert 2 20, .insert 8 80, .insert2 1 10, .first, .insert 9 90, .delete 1,
        .delete 7, .delete 5, .insert 2 21]
    (TreemapOp.applyAll compare LinkedTreemap.treemapInit ops).bindings =
        [(2, 20), (8, 80), (9, 90)] ∧
      (TreemapOp.applyAll compare LinkedTreemap.treemapInit ops).Consistent compare := by
  intro ops
  exact ⟨by decide, (treemap_orderedMap strictTotalOn_compare ops (by simp [ops, TreemapOp.Uses])).1⟩

end Liteflow

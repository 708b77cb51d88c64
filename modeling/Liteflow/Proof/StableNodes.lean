import Liteflow.Proof.LinkedTreemap

/-!
# Nodes of the tree map stay where they are

The users of the map keep pointers to nodes across updates: the loops that delete while they walk, and
the lists whose links lie inside the stored values. An insertion adds one node and a deletion takes one
away; the rest of the in-order list, addresses and values included, is as before, and so is the way
from one node to the next.
-/

namespace Liteflow

variable {κ ν : Type}

namespace LinkedTreemap

open LinkedTree (Side)

variable {cmp : κ → κ → Ordering} {used : κ → Prop} {map : LinkedTreemap κ ν} {key : κ}

def IsNodeOf (map : LinkedTreemap κ ν) (key : κ) (addr : Nat) : Prop :=
  ∃ value, (key, addr, value) ∈ map.entries

def KeepsOthers (key : κ) (map map' : LinkedTreemap κ ν) : Prop :=
  ∀ entry : κ × Nat × ν, entry.1 ≠ key → (entry ∈ map'.entries ↔ entry ∈ map.entries)

theorem Sound.mem_keysAt (hcmp : StrictTotalOn cmp used) (hmap : Sound cmp used map) (hkey : used key)
    {entry : κ × Nat × ν} :
    entry ∈ keysAt cmp key map.entries ↔ entry ∈ map.entries ∧ entry.1 = key := by
  rw [keysAt, List.mem_filter, decide_eq_true_eq]
  constructor
  · rintro ⟨hmem, heq⟩
    exact ⟨hmem, ((hcmp.eq_iff hkey (hmap.ascending.used entry hmem)).mp heq).symm⟩
  · rintro ⟨hmem, rfl⟩
    exact ⟨hmem, (hcmp.eq_iff hkey hkey).mpr rfl⟩

theorem Sound.mem_others (hcmp : StrictTotalOn cmp used) (hmap : Sound cmp used map) (hkey : used key)
    {entry : κ × Nat × ν} (hne : entry.1 ≠ key) :
    entry ∈ keysBefore cmp key map.entries ∨ entry ∈ keysAfter cmp key map.entries ↔
      entry ∈ map.entries := by
  obtain ⟨hsplit, -⟩ := hmap.ascending.split hcmp hkey
  have hat : entry ∉ keysAt cmp key map.entries := fun hmem =>
    hne ((hmap.mem_keysAt hcmp hkey).mp hmem).2
  conv_rhs => rw [hsplit]
  simp only [List.mem_append]
  tauto

theorem Sound.insert_keepsOthers (hcmp : StrictTotalOn cmp used) (hmap : Sound cmp used map)
    (hkey : used key) (value : ν) : KeepsOthers key map (map.treemapInsert cmp key value).2 := by
  intro entry hne
  have hinsert := (hmap.insert hcmp hkey value).2
  split at hinsert
  · rw [hinsert.2, List.mem_append, List.mem_cons, ← hmap.mem_others hcmp hkey hne]
    have hnew : entry ≠ (key, map.tm.nextAddr, value) := fun heq => hne (heq ▸ rfl)
    simp only [hnew, false_or]
  · rw [hinsert]

theorem Sound.delete_keepsOthers (hcmp : StrictTotalOn cmp used) (hmap : Sound cmp used map)
    (hkey : used key) : KeepsOthers key map (map.treemapDelete cmp key).2 := by
  intro entry hne
  rw [(hmap.delete hcmp hkey).2.2, List.mem_append]
  exact hmap.mem_others hcmp hkey hne

/-! ### The way from one node to the next -/

theorem Sound.delete_along (hcmp : StrictTotalOn cmp used) (hmap : Sound cmp used map)
    (hkey : used key) (side : Side) :
    ∃ front own back, map.root.along side = front ++ own ++ back ∧
      (map.treemapDelete cmp key).2.root.along side = front ++ back ∧
      (∀ addr, addr ∈ own ↔ map.IsNodeOf key addr) ∧ own.length ≤ 1 := by
  obtain ⟨hsplit, -⟩ := hmap.ascending.split hcmp hkey
  have hentries := (hmap.delete hcmp hkey).2.2
  have haddrs : map.root.addrs = (keysBefore cmp key map.entries).map (fun entry => entry.2.1) ++
      ((keysAt cmp key map.entries).map (fun entry => entry.2.1) ++
        (keysAfter cmp key map.entries).map (fun entry => entry.2.1)) := by
    rw [addrs_eq_entries, ← List.map_append, ← List.map_append, ← hsplit]
  have haddrs' : (map.treemapDelete cmp key).2.root.addrs =
      (keysBefore cmp key map.entries).map (fun entry => entry.2.1) ++
        (keysAfter cmp key map.entries).map (fun entry => entry.2.1) := by
    rw [addrs_eq_entries, hentries, List.map_append]
  have hown (addr : Nat) : addr ∈ (keysAt cmp key map.entries).map (fun entry => entry.2.1) ↔
      map.IsNodeOf key addr := by
    rw [List.mem_map]
    constructor
    · rintro ⟨entry, hmem, rfl⟩
      obtain ⟨hin, heq⟩ := (hmap.mem_keysAt hcmp hkey).mp hmem
      exact ⟨entry.2.2, heq ▸ hin⟩
    · rintro ⟨value, hmem⟩
      exact ⟨_, (hmap.mem_keysAt hcmp hkey).mpr ⟨hmem, rfl⟩, rfl⟩
  have hone : ((keysAt cmp key map.entries).map (fun entry => entry.2.1)).length ≤ 1 := by
    rw [List.length_map]
    exact (hmap.ascending.located hcmp hkey).hit_length
  generalize (keysBefore cmp key map.entries).map (fun entry => entry.2.1) = before at haddrs haddrs'
  generalize (keysAt cmp key map.entries).map (fun entry => entry.2.1) = own at haddrs hown hone
  generalize (keysAfter cmp key map.entries).map (fun entry => entry.2.1) = after at haddrs haddrs'
  cases side with
  | right => exact ⟨before, own, after, haddrs.trans (List.append_assoc _ _ _).symm, haddrs', hown, hone⟩
  | left =>
      refine ⟨after.reverse, own.reverse, before.reverse, ?_, ?_,
        fun addr => List.mem_reverse.trans (hown addr), ?_⟩
      · rw [LinkedTree.along, haddrs, List.reverse_append, List.reverse_append]
      · rw [LinkedTree.along, haddrs', List.reverse_append]
      · rwa [List.length_reverse]

theorem Sound.along_nodup (hmap : Sound cmp used map) (side : Side) : (map.root.along side).Nodup := by
  cases side with
  | right => exact hmap.nodup
  | left => exact List.nodup_reverse.mpr hmap.nodup

theorem Sound.neighbour_iff (hmap : Sound cmp used map) {side : Side} {addr next : Nat} :
    map.root.neighbour side addr = some next ↔
      ∃ behind ahead, map.root.along side = behind ++ addr :: next :: ahead := by
  constructor
  · intro hnext
    have hmem : addr ∈ map.root.along side := by
      by_contra hout
      rw [LinkedTree.mem_along] at hout
      rw [LinkedTree.neighbour, LinkedTree.lookup_eq_none hout] at hnext
      exact absurd hnext (by simp)
    obtain ⟨behind, ahead, hlist⟩ := List.append_of_mem hmem
    rw [LinkedTree.neighbour_eq hmap.parented (hmap.along_nodup side) hlist] at hnext
    obtain ⟨rest, rfl⟩ := List.head?_eq_some_iff.mp hnext
    exact ⟨behind, rest, hlist⟩
  · rintro ⟨behind, ahead, hlist⟩
    exact LinkedTree.neighbour_eq hmap.parented (hmap.along_nodup side) hlist

theorem Sound.delete_neighbour (hcmp : StrictTotalOn cmp used) (hmap : Sound cmp used map)
    (hkey : used key) {side : Side} {addr next : Nat}
    (hnext : map.root.neighbour side addr = some next) (haddr : ¬map.IsNodeOf key addr)
    (hother : ¬map.IsNodeOf key next) :
    (map.treemapDelete cmp key).2.root.neighbour side addr = some next := by
  obtain ⟨behind, ahead, hlist⟩ := hmap.neighbour_iff.mp hnext
  obtain ⟨front, own, back, hwalk, hwalk', hown, -⟩ := hmap.delete_along hcmp hkey side
  have hnodup := hmap.along_nodup side
  rw [hwalk] at hnodup
  obtain ⟨hfront, -, hback⟩ := List.nodup_append.mp hnodup
  have hdisjoint := (List.nodup_append.mp hfront).2.2
  -- what is left is the walk without the addresses in `own`
  have hfilter : front ++ back = (front ++ own ++ back).filter (fun other => other ∉ own) := by
    rw [List.filter_append, List.filter_append]
    rw [List.filter_eq_self.mpr, List.filter_eq_nil_iff.mpr, List.filter_eq_self.mpr, List.append_nil]
    · exact fun other hmem => decide_eq_true fun hin =>
        hback other (List.mem_append_right _ hin) other hmem rfl
    · exact fun other hmem => by simpa using hmem
    · exact fun other hmem => decide_eq_true fun hin => hdisjoint other hmem other hin rfl
  have hstays : addr ∉ own := fun hin => haddr ((hown addr).mp hin)
  have hstays' : next ∉ own := fun hin => hother ((hown next).mp hin)
  refine (hmap.delete hcmp hkey).1.neighbour_iff.mpr ⟨behind.filter (fun other => other ∉ own),
    ahead.filter (fun other => other ∉ own), ?_⟩
  rw [hwalk', hfilter, ← hwalk, hlist, List.filter_append,
    List.filter_cons_of_pos (by simpa using hstays), List.filter_cons_of_pos (by simpa using hstays')]

theorem Sound.delete_own_neighbour (hcmp : StrictTotalOn cmp used) (hmap : Sound cmp used map)
    (hkey : used key) {side : Side} {addr next : Nat}
    (hnext : map.root.neighbour side addr = some next) (haddr : map.IsNodeOf key addr) :
    (∀ before, map.root.neighbour side.other addr = some before →
      (map.treemapDelete cmp key).2.root.neighbour side before = some next) ∧
    (map.root.neighbour side.other addr = none →
      (map.treemapDelete cmp key).2.root.outermost side.other = some next) := by
  obtain ⟨behind, ahead, hlist⟩ := hmap.neighbour_iff.mp hnext
  obtain ⟨front, own, back, hwalk, hwalk', hown, hone⟩ := hmap.delete_along hcmp hkey side
  have hnodup := hmap.along_nodup side
  obtain rfl : own = [addr] := by
    have hin := (hown addr).mpr haddr
    obtain ⟨only, rfl⟩ := List.length_eq_one_iff.mp (le_antisymm hone (List.length_pos_of_mem hin))
    rw [List.mem_singleton.mp hin]
  rw [hlist] at hnodup
  have hbehind : addr ∉ behind := fun hin => (List.nodup_append.mp hnodup).2.2 addr hin addr (by simp) rfl
  have hahead : addr ∉ next :: ahead := (List.nodup_cons.mp (List.nodup_append.mp hnodup).2.1).1
  obtain ⟨rfl, -, rfl⟩ := (List.append_cons_inj_of_notMem hbehind hahead).mp
    (hlist.symm.trans (hwalk.trans (by rw [List.append_assoc, List.singleton_append])))
  have hback : map.root.along side.other = (next :: ahead).reverse ++ addr :: behind.reverse := by
    have hreverse : map.root.along side.other = (map.root.along side).reverse := by
      cases side with
      | right => rfl
      | left => exact (List.reverse_reverse _).symm
    rw [hreverse, hlist]
    simp
  have hother := LinkedTree.neighbour_eq hmap.parented (hmap.along_nodup side.other) hback
  refine ⟨fun before hbefore => ?_, fun hnone => ?_⟩
  · rw [hother] at hbefore
    obtain ⟨rest, hrest⟩ := List.head?_eq_some_iff.mp hbefore
    refine (hmap.delete hcmp hkey).1.neighbour_iff.mpr ⟨rest.reverse, ahead, ?_⟩
    rw [hwalk', ← List.reverse_reverse behind, hrest]
    simp
  · rw [hother, List.head?_eq_none_iff, List.reverse_eq_nil_iff] at hnone
    rw [LinkedTree.outermost_eq, hwalk', hnone]
    rfl

end LinkedTreemap

open LinkedTreemap LinkedTree in
/-- **Nodes are stable under the updates of other keys.** Every other key stays bound to its node,
with the same address and value. A neighbour that was found before a deletion is the right one
afterwards: next to the node it was found from, or in its place if that is the deleted one. And
`treemap_insert2` of a new key reports the node that holds it. -/
theorem treemap_stableNodes {cmp : κ → κ → Ordering} {used : κ → Prop} (hcmp : StrictTotalOn cmp used)
    {map : LinkedTreemap κ ν} (hmap : Sound cmp used map) {key : κ} (hkey : used key) :
    (∀ value, Sound cmp used (map.treemapInsert cmp key value).2 ∧
      KeepsOthers key map (map.treemapInsert cmp key value).2) ∧
    Sound cmp used (map.treemapDelete cmp key).2 ∧
    KeepsOthers key map (map.treemapDelete cmp key).2 ∧
    (∀ side addr next, map.root.neighbour side addr = some next → ¬map.IsNodeOf key next →
      (¬map.IsNodeOf key addr →
        (map.treemapDelete cmp key).2.root.neighbour side addr = some next) ∧
      (map.IsNodeOf key addr →
        (∀ before, map.root.neighbour side.other addr = some before →
          (map.treemapDelete cmp key).2.root.neighbour side before = some next) ∧
        (map.root.neighbour side.other addr = none →
          (map.treemapDelete cmp key).2.root.outermost side.other = some next))) ∧
    (∀ value, (∀ addr, ¬map.IsNodeOf key addr) →
      ∃ addr map', map.treemapInsert2 cmp key value = (0, map', some addr) ∧ Sound cmp used map' ∧
        KeepsOthers key map map' ∧ (key, addr, value) ∈ map'.entries) := by
  refine ⟨fun value => ⟨(hmap.insert hcmp hkey value).1, hmap.insert_keepsOthers hcmp hkey value⟩,
    (hmap.delete hcmp hkey).1, hmap.delete_keepsOthers hcmp hkey,
    fun side addr next hnext hother => ⟨fun haddr => hmap.delete_neighbour hcmp hkey hnext haddr hother,
      fun haddr => hmap.delete_own_neighbour hcmp hkey hnext haddr⟩, fun value hnew => ?_⟩
  have hnone : keysAt cmp key map.entries = [] := by
    refine List.eq_nil_iff_forall_not_mem.mpr fun entry hmem => ?_
    obtain ⟨hin, heq⟩ := (hmap.mem_keysAt hcmp hkey).mp hmem
    exact hnew entry.2.1 ⟨entry.2.2, heq ▸ hin⟩
  obtain ⟨hsound, hinsert⟩ := hmap.insert hcmp hkey value
  rw [if_pos hnone] at hinsert
  refine ⟨map.tm.nextAddr, (map.treemapInsert cmp key value).2, ?_, hsound,
    hmap.insert_keepsOthers hcmp hkey value, ?_⟩
  · have hret : (map.root.treemapInsertInternal cmp key value map.tm none).ret = 0 := hinsert.1
    rw [treemapInsert2, hret]
    rfl
  · rw [hinsert.2]
    simp

/-- The key 5 is at an inner node: its successor 8 moves into its place, at its own address. -/
theorem treemap_stableNodes_inner :
    let map : LinkedTreemap Nat Nat := TreemapOp.applyAll compare .treemapInit
      [.insert 5 50, .insert 2 20, .insert 8 80, .insert 9 90, .insert 1 10]
    map.root.treemapNext 0 = some 2 ∧ map.root.treemapPrev 0 = some 1 ∧
      LinkedTreemap.KeepsOthers 5 map (map.treemapDelete compare 5).2 ∧
      (map.treemapDelete compare 5).2.entries = [(1, 4, 10), (2, 1, 20), (8, 2, 80), (9, 3, 90)] ∧
      (map.treemapDelete compare 5).2.root.treemapNext 1 = some 2 := by
  intro map
  have hmap : LinkedTreemap.Sound compare (fun _ => True) map :=
    (LinkedTreemap.Sound.applyAll strictTotalOn_compare _ LinkedTreemap.sound_init
      (by simp [TreemapOp.Uses])).1
  have hstable :=
    @treemap_stableNodes Nat Nat compare (fun _ => True) strictTotalOn_compare map hmap 5 trivial
  refine ⟨by decide, by decide, hstable.2.2.1, by decide, ?_⟩
  have hother : ¬map.IsNodeOf 5 2 := by
    rintro ⟨value, hmem⟩
    rw [show map.entries = [(1, 4, 10), (2, 1, 20), (5, 0, 50), (8, 2, 80), (9, 3, 90)] by decide] at hmem
    simp at hmem
  exact ((hstable.2.2.2.1 .right 0 2 (by decide) hother).2 ⟨50, by decide⟩).1 1 (by decide)

end Liteflow

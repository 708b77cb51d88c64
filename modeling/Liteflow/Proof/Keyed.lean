import Liteflow.Proof.Wire

/-!
# Tree maps keyed by stream positions

The packet list of a sender and the range lists of a receiver are tree maps whose keys are sequence
numbers. When the positions behind the keys lie within half the range of each other, such a map is a
list sorted by position, and each operation of the tree map is the obvious one on that list.
-/

namespace Liteflow

section Middle

variable {α : Type} {front back : List α} {a b : α} {P : α → Prop}

theorem mem_middle : a ∈ front ++ b :: back ↔ a = b ∨ a ∈ front ++ back :=
  List.perm_middle.mem_iff.trans List.mem_cons

theorem forall_middle :
    (∀ a ∈ front ++ b :: back, P a) ↔ P b ∧ ∀ a ∈ front ++ back, P a := by
  simp only [mem_middle, forall_eq_or_imp]

theorem exists_middle :
    (∃ a ∈ front ++ b :: back, P a) ↔ P b ∨ ∃ a ∈ front ++ back, P a := by
  simp only [mem_middle, exists_eq_or_imp]

end Middle

variable {ν : Type}

def wireEntries (entries : List (Nat × ν)) : List (U32 × ν) :=
  entries.map (fun entry => (wire entry.1, entry.2))

/-- The map holds exactly `entries`, whose positions ascend from `lo` to at most `hi`. -/
structure Keyed (t : Treemap U32 ν) (lo hi : Nat) (entries : List (Nat × ν)) : Prop where
  balanced : t.Balanced
  toList_eq : t.toList = wireEntries entries
  sorted : entries.Pairwise (fun a b => a.1 < b.1)
  inside : ∀ entry ∈ entries, lo ≤ entry.1 ∧ entry.1 ≤ hi
  span : hi < lo + 2 ^ 31

namespace Keyed

variable {t : Treemap U32 ν} {lo hi : Nat} {entries before after : List (Nat × ν)} {p : Nat} {v : ν}

theorem nil {lo hi : Nat} (hspan : hi < lo + 2 ^ 31) : Keyed (.nil : Treemap U32 ν) lo hi [] where
  balanced := Treemap.balanced_nil
  toList_eq := rfl
  sorted := .nil
  inside := by simp
  span := hspan

theorem widen (hkeyed : Keyed t lo hi entries) {lo' hi' : Nat} (hspan : hi' < lo' + 2 ^ 31)
    (hinside : ∀ entry ∈ entries, lo' ≤ entry.1 ∧ entry.1 ≤ hi') : Keyed t lo' hi' entries :=
  { hkeyed with inside := hinside, span := hspan }

/-! ### What surrounds a position -/

theorem keysBefore (hkeyed : Keyed t lo hi entries) (hsub : before ⊆ entries)
    (hbefore : ∀ entry ∈ before, entry.1 < p) (hp : p ≤ hi) :
    KeysBefore p (wireEntries before) := by
  intro entry hentry
  obtain ⟨e, he, rfl⟩ := List.mem_map.mp hentry
  have := hkeyed.inside e (hsub he)
  have := hkeyed.span
  exact ⟨e.1, rfl, hbefore e he, by omega⟩

theorem keysAfter (hkeyed : Keyed t lo hi entries) (hsub : after ⊆ entries)
    (hafter : ∀ entry ∈ after, p < entry.1) (hp : lo ≤ p) :
    KeysAfter p (wireEntries after) := by
  intro entry hentry
  obtain ⟨e, he, rfl⟩ := List.mem_map.mp hentry
  have := hkeyed.inside e (hsub he)
  have := hkeyed.span
  exact ⟨e.1, rfl, hafter e he, by omega⟩

section Split

variable (hkeyed : Keyed t lo hi (before ++ (p, v) :: after))

include hkeyed

theorem bounds : lo ≤ p ∧ p ≤ hi :=
  hkeyed.inside (p, v) (by simp)

theorem before_lt : ∀ entry ∈ before, entry.1 < p := fun entry hentry =>
  (List.pairwise_append.mp hkeyed.sorted).2.2 entry hentry (p, v) (by simp)

theorem lt_after : ∀ entry ∈ after, p < entry.1 :=
  (List.pairwise_cons.mp (List.pairwise_append.mp hkeyed.sorted).2.1).1

theorem keysBefore_split : KeysBefore p (wireEntries before) :=
  hkeyed.keysBefore (by simp) hkeyed.before_lt hkeyed.bounds.2

theorem keysAfter_split : KeysAfter p (wireEntries after) :=
  hkeyed.keysAfter (fun _ h => by simp [h]) hkeyed.lt_after hkeyed.bounds.1

theorem toList_split :
    t.toList = wireEntries before ++ (wire p, v) :: wireEntries after := by
  rw [hkeyed.toList_eq, wireEntries, List.map_append, List.map_cons]
  rfl

theorem value_split : t.treemapValue (wire p) = some v :=
  treemapValue_wire hkeyed.toList_split hkeyed.keysBefore_split

theorem get_split : t.treemapGet seqCmp (wire p) = some v :=
  Treemap.treemapGet_eq (located_hit hkeyed.keysBefore_split hkeyed.keysAfter_split v)
    hkeyed.toList_split

theorem next_split : t.treemapNext (wire p) = (wireEntries after).head? :=
  Treemap.treemapNext_eq hkeyed.toList_split hkeyed.keysBefore_split.ne

theorem delete_split :
    Keyed (t.treemapDelete seqCmp (wire p)).2 lo hi (before ++ after) := by
  obtain ⟨hdeleted, hbalanced⟩ := Treemap.treemapDelete_spec hkeyed.balanced
    (located_hit hkeyed.keysBefore_split hkeyed.keysAfter_split v) hkeyed.toList_split
  refine ⟨hbalanced, ?_, ?_, (forall_middle.mp hkeyed.inside).2, hkeyed.span⟩
  · rw [hdeleted.toList_eq, wireEntries, wireEntries, wireEntries, List.map_append]
  · exact hkeyed.sorted.sublist ((List.sublist_cons_self _ _).append_left before)

theorem setValue_split (update : ν → ν) :
    Keyed (t.treemapSetValue (wire p) update) lo hi (before ++ (p, update v) :: after) := by
  refine ⟨hkeyed.balanced.treemapSetValue _ _, ?_, ?_, ?_, hkeyed.span⟩
  · rw [treemapSetValue_wire update hkeyed.toList_split hkeyed.keysBefore_split
      hkeyed.keysAfter_split, wireEntries, wireEntries, wireEntries, List.map_append,
      List.map_cons]
  · have hsorted := hkeyed.sorted
    simp only [List.pairwise_append, List.pairwise_cons, List.mem_cons] at hsorted ⊢
    refine ⟨hsorted.1, hsorted.2.1, fun a ha b hb => ?_⟩
    rcases hb with rfl | hb
    · exact hsorted.2.2 a ha (p, v) (.inl rfl)
    · exact hsorted.2.2 a ha b (.inr hb)
  · exact forall_middle.mpr (forall_middle.mp hkeyed.inside)

end Split

/-! ### Lookup -/

section Lookup

variable (hkeyed : Keyed t lo hi entries)

include hkeyed

theorem first : t.treemapFirst = (wireEntries entries).head? := by
  rw [Treemap.treemapFirst, hkeyed.toList_eq]

theorem size : t.treemapSize = entries.length := by
  rw [Treemap.treemapSize, hkeyed.toList_eq, wireEntries, List.length_map]

theorem value_of_mem (hmem : (p, v) ∈ entries) : t.treemapValue (wire p) = some v := by
  obtain ⟨before, after, rfl⟩ := List.append_of_mem hmem
  exact hkeyed.value_split

theorem mem_inj {p q : Nat} {v w : ν} (hp : (p, v) ∈ entries) (hq : (q, w) ∈ entries)
    (heq : wire p = wire q) : p = q ∧ v = w := by
  have hp' := hkeyed.inside _ hp
  have hq' := hkeyed.inside _ hq
  have hspan := hkeyed.span
  obtain rfl := wire_inj (m := p) (n := q) (by dsimp only at *; omega) (by dsimp only at *; omega) heq
  refine ⟨rfl, ?_⟩
  have hvalue := hkeyed.value_of_mem hp
  rw [hkeyed.value_of_mem hq] at hvalue
  exact (Option.some.inj hvalue).symm

omit hkeyed in
theorem others_ne {before after : List (Nat × ν)} (hkeyed : Keyed t lo hi (before ++ (p, v) :: after)) :
    ∀ entry ∈ before ++ after, wire entry.1 ≠ wire p := by
  intro entry hentry heq
  have hinj := (hkeyed.mem_inj (w := v) (mem_middle.mpr (.inr hentry)) (by simp) heq).1
  rcases List.mem_append.mp hentry with hentry | hentry
  · exact (hkeyed.before_lt entry hentry).ne hinj
  · exact (hkeyed.lt_after entry hentry).ne hinj.symm

theorem exists_split (p : Nat) :
    ∃ before rest, entries = before ++ rest ∧ (∀ entry ∈ before, entry.1 < p) ∧
      ∀ entry ∈ rest, p ≤ entry.1 := by
  have hsorted := hkeyed.sorted
  clear hkeyed
  induction entries with
  | nil => exact ⟨[], [], rfl, by simp, by simp⟩
  | cons entry rest ih =>
      obtain ⟨hfirst, hrest⟩ := List.pairwise_cons.mp hsorted
      by_cases hlt : entry.1 < p
      · obtain ⟨before, later, rfl, hbefore, hlater⟩ := ih hrest
        exact ⟨entry :: before, later, rfl, List.forall_mem_cons.mpr ⟨hlt, hbefore⟩, hlater⟩
      · refine ⟨[], entry :: rest, rfl, by simp, ?_⟩
        intro other hother
        rcases List.mem_cons.mp hother with rfl | hother
        · omega
        · have := hfirst other hother
          omega

theorem exists_split_of_ne (hne : ∀ entry ∈ entries, entry.1 ≠ p) :
    ∃ before rest, entries = before ++ rest ∧ (∀ entry ∈ before, entry.1 < p) ∧
      ∀ entry ∈ rest, p < entry.1 := by
  obtain ⟨before, rest, rfl, hbefore, hrest⟩ := hkeyed.exists_split p
  refine ⟨before, rest, rfl, hbefore, fun entry hentry => ?_⟩
  exact lt_of_le_of_ne (hrest entry hentry) (hne entry (by simp [hentry])).symm

theorem get_none (hlo : lo ≤ p) (hhi : p ≤ hi) (hne : ∀ entry ∈ entries, entry.1 ≠ p) :
    t.treemapGet seqCmp (wire p) = none := by
  obtain ⟨before, after, rfl, hbefore, hlater⟩ := hkeyed.exists_split_of_ne hne
  have hloc := located_miss (hkeyed.keysBefore (by simp) hbefore hhi)
    (hkeyed.keysAfter (fun _ h => by simp [h]) hlater hlo)
  refine Treemap.treemapGet_eq hloc ?_
  rw [hkeyed.toList_eq, wireEntries, List.map_append]
  rfl

theorem delete_absent (hlo : lo ≤ p) (hhi : p ≤ hi) (hne : ∀ entry ∈ entries, entry.1 ≠ p) :
    Keyed (t.treemapDelete seqCmp (wire p)).2 lo hi entries := by
  obtain ⟨before, after, rfl, hbefore, hlater⟩ := hkeyed.exists_split_of_ne hne
  have hlist : t.toList = wireEntries before ++ ([] ++ wireEntries after) := by
    rw [hkeyed.toList_eq, wireEntries, List.map_append]
    rfl
  obtain ⟨hdeleted, hbalanced⟩ := Treemap.treemapDelete_spec hkeyed.balanced
    (located_miss (hkeyed.keysBefore (by simp) hbefore hhi)
      (hkeyed.keysAfter (fun _ h => by simp [h]) hlater hlo)) hlist
  refine { hkeyed with balanced := hbalanced, toList_eq := ?_ }
  rw [hdeleted.toList_eq, wireEntries, wireEntries, wireEntries, List.map_append]

omit hkeyed in
theorem insert_split {before after : List (Nat × ν)} (hkeyed : Keyed t lo hi (before ++ after))
    (hlo : lo ≤ p) (hhi : p ≤ hi) (hbefore : ∀ entry ∈ before, entry.1 < p)
    (hafter : ∀ entry ∈ after, p < entry.1) (v : ν) :
    (t.treemapInsert seqCmp (wire p) v).1 = 0 ∧
      Keyed (t.treemapInsert seqCmp (wire p) v).2 lo hi (before ++ (p, v) :: after) := by
  obtain ⟨hret, hbalanced, hlist⟩ := Treemap.treemapInsert_new v hkeyed.balanced
    (splits_wire (hkeyed.keysBefore (by simp) hbefore hhi)
      (hkeyed.keysAfter (fun _ h => by simp [h]) hafter hlo))
    (by rw [hkeyed.toList_eq, wireEntries, List.map_append]; rfl)
  refine ⟨hret, hbalanced, ?_, ?_, ?_, hkeyed.span⟩
  · rw [hlist, wireEntries, wireEntries, wireEntries, List.map_append, List.map_cons]
  · have hsorted := hkeyed.sorted
    simp only [List.pairwise_append, List.pairwise_cons, List.mem_cons] at hsorted ⊢
    refine ⟨hsorted.1, ⟨hafter, hsorted.2.1⟩, fun a ha b hb => ?_⟩
    rcases hb with rfl | hb
    · exact hbefore a ha
    · exact hsorted.2.2 a ha b hb
  · exact forall_middle.mpr ⟨⟨hlo, hhi⟩, hkeyed.inside⟩

theorem insert_new (hlo : lo ≤ p) (hhi : p ≤ hi) (hne : ∀ entry ∈ entries, entry.1 ≠ p) (v : ν) :
    (t.treemapInsert seqCmp (wire p) v).1 = 0 ∧ ∃ before after, entries = before ++ after ∧
      Keyed (t.treemapInsert seqCmp (wire p) v).2 lo hi (before ++ (p, v) :: after) := by
  obtain ⟨before, after, rfl, hbefore, hlater⟩ := hkeyed.exists_split_of_ne hne
  obtain ⟨hret, hkeyed'⟩ := insert_split hkeyed hlo hhi hbefore hlater v
  exact ⟨hret, before, after, rfl, hkeyed'⟩

theorem insert_last (hlo : lo ≤ p) (hhi : p ≤ hi) (hlast : ∀ entry ∈ entries, entry.1 < p) (v : ν) :
    (t.treemapInsert seqCmp (wire p) v).1 = 0 ∧
      Keyed (t.treemapInsert seqCmp (wire p) v).2 lo hi (entries ++ [(p, v)]) := by
  rw [← List.append_nil entries] at hkeyed
  exact insert_split hkeyed hlo hhi hlast (by simp) v

theorem rangeAt {before after : List (Nat × ν)} (hsplit : entries = before ++ after)
    (hbefore : ∀ entry ∈ before, entry.1 ≤ p) (hafter : ∀ entry ∈ after, p < entry.1)
    (hp : lo ≤ p ∧ p ≤ hi) : Rbuf.rangeAt t (wire p) = (wireEntries before).getLast? := by
  subst hsplit
  refine rangeAt_wire hkeyed.span (hkeyed.toList_eq.trans List.map_append) (fun entry hentry => ?_)
    (fun entry hentry => ?_) hp
  · obtain ⟨e, he, rfl⟩ := List.mem_map.mp hentry
    exact ⟨e.1, rfl, (hkeyed.inside e (by simp [he])).1, hbefore e he⟩
  · obtain ⟨e, he, rfl⟩ := List.mem_map.mp hentry
    exact ⟨e.1, rfl, hafter e he, (hkeyed.inside e (by simp [he])).2⟩

end Lookup

end Keyed

/-! ### Ordered maps -/

/-- A search tree for the order of `seq_cmp`, which is not transitive: any two entries ascend. -/
def Treemap.Ordered (t : Treemap U32 ν) : Prop :=
  t.Balanced ∧ t.toList.Pairwise (fun left right => seqCmp left.1 right.1 = .lt)

theorem lessEqual_of_seqCmp_lt {a b : U32} (hlt : seqCmp a b = .lt) :
    lessEqual a b = true ∧ a ≠ b := by
  unfold seqCmp Serial.cmp at hlt
  split at hlt
  · rename_i hle
    split at hlt
    · cases hlt
    · rename_i hne
      exact ⟨hle, hne⟩
  · cases hlt

theorem Treemap.Ordered.keyed {t : Treemap U32 ν} (hordered : t.Ordered) :
    ∃ lo hi entries, Keyed t lo hi entries := by
  obtain ⟨hbalanced, hpairwise⟩ := hordered
  cases hlist : t.toList with
  | nil => exact ⟨0, 0, [], hbalanced, hlist, .nil, by simp, by omega⟩
  | cons first rest =>
      rw [hlist, List.pairwise_cons] at hpairwise
      -- positions are counted from the first key
      have hfirst : ∀ entry ∈ first :: rest, (entry.1 - first.1).toNat < 2 ^ 31 := by
        intro entry hentry
        rcases List.mem_cons.mp hentry with rfl | hentry
        · simp
        · have hle := (lessEqual_of_seqCmp_lt (hpairwise.1 entry hentry)).1
          simpa [lessEqual, Serial.le] using hle
      refine ⟨first.1.toNat, first.1.toNat + (2 ^ 31 - 1),
        (first :: rest).map (fun entry => (first.1.toNat + (entry.1 - first.1).toNat, entry.2)),
        hbalanced, ?_, ?_, ?_, by omega⟩
      · rw [hlist, wireEntries, List.map_map]
        refine (List.map_id _).symm.trans (List.map_congr_left fun entry _ => ?_)
        have hwire := Serial.ofNat_add_toNat_sub first.1.toNat entry.1
        rw [BitVec.ofNat_toNat, BitVec.setWidth_eq] at hwire
        exact Prod.ext hwire.symm rfl
      · rw [List.pairwise_map, List.pairwise_cons]
        refine ⟨fun entry hentry => ?_, hpairwise.2.imp_of_mem fun {a b} ha hb hlt => ?_⟩
        · have hne := (lessEqual_of_seqCmp_lt (hpairwise.1 entry hentry)).2
          have hpos : (entry.1 - first.1).toNat ≠ 0 := fun hzero => hne
            (sub_eq_zero.mp (BitVec.eq_of_toNat_eq hzero)).symm
          simp only [BitVec.sub_self, BitVec.toNat_zero]
          omega
        · obtain ⟨hle, hne⟩ := lessEqual_of_seqCmp_lt hlt
          have hsum := Serial.toNat_sub_add_toNat_sub (by decide)
            (lessEqual_of_seqCmp_lt (hpairwise.1 a ha)).1 hle
          have hpos : (b.1 - a.1).toNat ≠ 0 := fun hzero => hne
            (sub_eq_zero.mp (BitVec.eq_of_toNat_eq hzero)).symm
          dsimp only
          omega
      · intro entry hentry
        obtain ⟨e, he, rfl⟩ := List.mem_map.mp hentry
        have := hfirst e he
        dsimp only
        omega

theorem Keyed.ordered {t : Treemap U32 ν} {lo hi : Nat} {entries : List (Nat × ν)}
    (hkeyed : Keyed t lo hi entries) : t.Ordered := by
  refine ⟨hkeyed.balanced, ?_⟩
  rw [hkeyed.toList_eq, wireEntries, List.pairwise_map]
  refine hkeyed.sorted.imp_of_mem fun {a b} ha hb hlt => ?_
  have := hkeyed.inside a ha
  have := hkeyed.inside b hb
  have := hkeyed.span
  dsimp only
  rw [seqCmp_wire (by omega) (by omega)]
  exact Nat.compare_eq_lt.mpr hlt

end Liteflow

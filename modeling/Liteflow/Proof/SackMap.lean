import Liteflow.Proof.AckList
import Liteflow.Proof.Promise

/-!
# The records of `push_sack_map`

`push_sack_map` repeats the merging of `rbuf_write` on a second map, with records that carry a count
and that may lie partly below the window. It drops or trims what the window has passed, looks up the
range of `recv_buf` around the packet, and adds that range to its own map.

As long as less than `2 ^ 31` bytes of a stream have arrived, the map is a list of separated ranges
at all times. What the function adds is the whole range, so after it one record covers the range; a
record that is new, or longer than before, has not been sent yet.
-/

namespace Liteflow

open Intervals

/-- A record of `sack_map`, with the positions behind its sequence numbers. -/
structure Sack where
  start : Nat
  fin : Nat
  times : U8

namespace Sack

def range (s : Sack) : Nat × Nat :=
  (s.start, s.fin)

def entry (s : Sack) : Nat × SackInfo :=
  (s.start, { seqEnd := wire s.fin, sendTimes := s.times })

/-- The record in front of `rest`, with every record it reaches merged into it. -/
def absorb (s : Sack) : List Sack → List Sack
  | [] => [s]
  | next :: rest =>
      if next.start ≤ s.fin then { s with fin := max s.fin next.fin }.absorb rest
      else s :: next :: rest

theorem map_range_absorb (s : Sack) (rest : List Sack) :
    (s.absorb rest).map range = Intervals.absorb s.start s.fin (rest.map range) := by
  induction rest generalizing s with
  | nil => rfl
  | cons next rest ih =>
      rw [absorb, List.map_cons, Intervals.absorb]
      change List.map range (if next.start ≤ s.fin then _ else _) =
        if next.start ≤ s.fin then _ else _
      split
      · exact ih _
      · rfl

theorem absorb_eq_cons (s : Sack) (rest : List Sack) :
    ∃ fin kept, s.absorb rest = { s with fin := fin } :: kept ∧ s.fin ≤ fin ∧
      kept.Sublist rest := by
  induction rest generalizing s with
  | nil => exact ⟨s.fin, [], rfl, le_rfl, .slnil⟩
  | cons next rest ih =>
      rw [absorb]
      split
      · obtain ⟨fin, kept, heq, hle, hkept⟩ := ih { s with fin := max s.fin next.fin }
        exact ⟨fin, kept, heq, (le_max_left _ _).trans hle, hkept.cons _⟩
      · exact ⟨s.fin, next :: rest, rfl, le_rfl, List.Sublist.refl _⟩

end Sack

structure Sacked (t : Treemap U32 SackInfo) (lo hi : Nat) (sacks : List Sack) : Prop where
  keyed : Keyed t lo hi (sacks.map Sack.entry)
  separated : Separated (sacks.map Sack.range)
  fin_le : ∀ s ∈ sacks, s.fin ≤ hi

section Merge

variable {lo hi : Nat}

theorem keyed_mergeSacks (before : List Sack) : ∀ (after : List Sack) {s : Sack} {fuel : Nat}
    {t : Treemap U32 SackInfo}, after.length ≤ fuel →
    Keyed t lo hi ((before ++ s :: after).map Sack.entry) →
    (∀ x ∈ s :: after, x.start ≤ x.fin ∧ x.fin ≤ hi) →
    Keyed (Stream.mergeSacks fuel t (wire s.start)) lo hi
      ((before ++ s.absorb after).map Sack.entry) := by
  intro after
  induction after with
  | nil =>
      intro s fuel t _ hkeyed _
      have hlist := hkeyed
      rw [List.map_append, List.map_cons] at hlist
      have hnext : t.treemapNext (wire s.start) = none := hlist.next_split
      cases fuel with
      | zero => exact hkeyed
      | succ fuel =>
          rw [Stream.mergeSacks, hnext]
          split
          · rename_i heq
            cases heq
          · exact hkeyed
  | cons next rest ih =>
      intro s fuel t hfuel hkeyed hbounds
      obtain ⟨fuel, rfl⟩ := Nat.exists_eq_succ_of_ne_zero (n := fuel) (by
        rw [List.length_cons] at hfuel
        omega)
      have hlist := hkeyed
      rw [List.map_append, List.map_cons] at hlist
      have hvalue := hlist.value_split
      have hnext : t.treemapNext (wire s.start) = some (wire next.start, next.entry.2) :=
        hlist.next_split
      have hspan := hkeyed.span
      have hstart := hlist.bounds
      have hnextStart := (hkeyed.inside next.entry (by simp))
      have hs := hbounds s (by simp)
      have hn := hbounds next (by simp)
      dsimp only [Sack.entry] at hstart hnextStart
      have hle := lessEqual_wire (m := next.start) (n := s.fin) (by omega) (by omega)
      have hends := lessEqual_wire (m := s.fin) (n := next.fin) (by omega) (by omega)
      rw [Stream.mergeSacks, hvalue, hnext]
      dsimp only [Sack.entry]
      rw [Sack.absorb]
      simp only [hle, hends]
      split
      · -- the two records become one
        refine ih (s := { s with fin := max s.fin next.fin }) (by simpa using hfuel) ?_ (fun x hx => ?_)
        · have hextended : Keyed (if s.fin ≤ next.fin then
              t.treemapSetValue (wire s.start) (fun sack => { sack with seqEnd := wire next.fin })
              else t) lo hi
              ((before ++ { s with fin := max s.fin next.fin } :: next :: rest).map Sack.entry) := by
            split
            · rename_i hmax
              rw [max_eq_right hmax, List.map_append, List.map_cons]
              exact hlist.setValue_split (fun sack => { sack with seqEnd := wire next.fin })
            · rename_i hmax
              rw [max_eq_left (by omega)]
              exact hkeyed
          rw [List.append_cons, List.map_append, List.map_cons] at hextended
          have hdeleted := hextended.delete_split
          rwa [← List.map_append, ← List.append_cons] at hdeleted
        · rcases List.mem_cons.mp hx with rfl | hx
          · dsimp only
            omega
          · exact hbounds x (by simp [hx])
      · exact hkeyed

theorem Sacked.exists_split {t : Treemap U32 SackInfo} {sacks : List Sack}
    (hsacked : Sacked t lo hi sacks) (p : Nat) :
    ∃ before after, sacks = before ++ after ∧ (∀ x ∈ before, x.start ≤ p) ∧
      ∀ x ∈ after, p < x.start := by
  obtain ⟨front, rest, hsplit, hfront, hrest⟩ := hsacked.keyed.exists_split (p + 1)
  obtain ⟨before, after, rfl, rfl, rfl⟩ := List.map_eq_append_iff.mp hsplit
  refine ⟨before, after, rfl, fun x hx => ?_, fun x hx => ?_⟩
  · exact Nat.le_of_lt_succ (hfront x.entry (List.mem_map_of_mem hx))
  · exact hrest x.entry (List.mem_map_of_mem hx)

end Merge

/-! ### Sending the records -/

def Sack.sent (x : Sack) : Option Sack :=
  if 2 ≤ (x.times + 1).toNat then none else some { x with times := x.times + 1 }

theorem sentSack_entry (x : Sack) : sentSack x.entry = x.sent.map Sack.entry := by
  by_cases hlast : 2 ≤ (x.times + 1).toNat
  · rw [Sack.sent, if_pos hlast]
    exact if_pos hlast
  · rw [Sack.sent, if_neg hlast]
    exact if_neg hlast

def sentSacks (n : Nat) (sacks : List Sack) : List Sack :=
  (sacks.take n).filterMap Sack.sent ++ sacks.drop n

theorem map_entry_sentSacks (n : Nat) (sacks : List Sack) :
    (sentSacks n sacks).map Sack.entry =
      ((sacks.map Sack.entry).take n).filterMap sentSack ++ (sacks.map Sack.entry).drop n := by
  have hsent : sentSack ∘ Sack.entry = fun x => x.sent.map Sack.entry := funext sentSack_entry
  rw [sentSacks, List.map_append, List.map_filterMap, List.map_drop, ← List.map_take,
    List.filterMap_map, hsent]

theorem map_range_sentSacks (n : Nat) (sacks : List Sack) :
    ((sentSacks n sacks).map Sack.range).Sublist (sacks.map Sack.range) := by
  have hkept : ∀ front : List Sack,
      ((front.filterMap Sack.sent).map Sack.range).Sublist (front.map Sack.range) := by
    intro front
    induction front with
    | nil => exact .slnil
    | cons x rest ih =>
        rw [List.filterMap_cons, List.map_cons]
        unfold Sack.sent
        split
        · exact ih.cons _
        · rename_i y hy
          split at hy
          · cases hy
          · obtain rfl := Option.some.inj hy
            exact ih.cons_cons _
  rw [sentSacks, List.map_append]
  refine ((hkept (sacks.take n)).append (List.Sublist.refl _)).trans ?_
  rw [← List.map_append, List.take_append_drop]

theorem Sacked.collected {t : Treemap U32 SackInfo} {lo hi : Nat} {sacks : List Sack}
    (hsacked : Sacked t lo hi sacks) (ackSize : U32) :
    (Stream.collectAcks ackSize t.treemapSize 0 t.treemapFirst t).1 =
        (sacks.take (ackRoom ackSize 0)).map (fun x => (wire x.start, wire x.fin)) ∧
      Sacked (Stream.collectAcks ackSize t.treemapSize 0 t.treemapFirst t).2 lo hi
        (sentSacks (ackRoom ackSize 0) sacks) := by
  obtain ⟨hpairs, hleft⟩ := hsacked.keyed.collected ackSize
  have hranges := map_range_sentSacks (ackRoom ackSize 0) sacks
  refine ⟨?_, ?_, hsacked.separated.sublist hranges, fun x hx => ?_⟩
  · rw [hpairs, ← List.map_take, List.map_map]
    rfl
  · rwa [map_entry_sentSacks]
  · obtain ⟨y, hy, heq⟩ := List.mem_map.mp (hranges.subset (List.mem_map_of_mem hx))
    exact (congrArg Prod.snd heq).ge.trans (hsacked.fin_le y hy)

/-! ### Adding a range -/

/-- A record that has not been sent and is no remainder of another one. -/
def Sack.Fresh (sacks : List Sack) (x : Sack) : Prop :=
  x.times = 0 ∧ ∀ y ∈ sacks, y.start ≤ x.start → y.fin ≠ x.fin

def SackAdded (t : Treemap U32 SackInfo) (lo hi : Nat) (sacks : List Sack) (s e : Nat) : Prop :=
  ∃ sacks', Sacked t lo hi sacks' ∧ (∀ x ∈ sacks', x ∈ sacks ∨ x.Fresh sacks) ∧
    ∀ q, Covers (sacks'.map Sack.range) q ↔ Covers (sacks.map Sack.range) q ∨ (s ≤ q ∧ q < e)

section Add

variable {lo hi s e : Nat} {t : Treemap U32 SackInfo} {before after : List Sack} {x last : Sack}

theorem map_range_append_absorb (before : List Sack) (x : Sack) (after : List Sack) :
    (before ++ x.absorb after).map Sack.range =
      before.map Sack.range ++ Intervals.absorb x.start x.fin (after.map Sack.range) := by
  rw [List.map_append, Sack.map_range_absorb]

theorem Sacked.mergeSacks (hkeyed : Keyed t lo hi ((before ++ x :: after).map Sack.entry))
    (hsep : Separated (before.map Sack.range ++
      Intervals.absorb x.start x.fin (after.map Sack.range)))
    (hx : x.start ≤ x.fin ∧ x.fin ≤ hi) (hbounds : ∀ y ∈ after, y.start < y.fin)
    (hothers : ∀ y ∈ before ++ after, y.fin ≤ hi) :
    Sacked (Stream.mergeSacks t.treemapSize t (wire x.start)) lo hi (before ++ x.absorb after) := by
  have hbounds : ∀ y ∈ x :: after, y.start ≤ y.fin :=
    List.forall_mem_cons.mpr ⟨hx.1, fun y hy => (hbounds y hy).le⟩
  have hfin : ∀ y ∈ before ++ x :: after, y.fin ≤ hi := forall_middle.mpr ⟨hx.2, hothers⟩
  refine ⟨keyed_mergeSacks before after ?_ hkeyed fun y hy => ⟨hbounds y hy, hfin y ?_⟩, ?_,
    fun y hy => ?_⟩
  · rw [hkeyed.size, List.length_map, List.length_append, List.length_cons]
    omega
  · exact List.mem_append_right _ hy
  · rwa [map_range_append_absorb]
  · rcases List.mem_append.mp hy with hy | hy
    · exact hfin y (by simp [hy])
    · have hmem : y.range ∈ Intervals.absorb x.start x.fin (after.map Sack.range) := by
        rw [← Sack.map_range_absorb]
        exact List.mem_map_of_mem hy
      refine mem_absorb_le (hfin x (by simp)) (fun range hrange => ?_) _ hmem
      obtain ⟨z, hz, rfl⟩ := List.mem_map.mp hrange
      exact hfin z (by simp [hz])

theorem mem_append_absorb {y : Sack} (hy : y ∈ before ++ x.absorb after) :
    y ∈ before ∨ y ∈ after ∨ y.start = x.start ∧ y.times = x.times ∧ x.fin ≤ y.fin := by
  obtain ⟨fin, kept, heq, hle, hkept⟩ := x.absorb_eq_cons after
  rw [heq] at hy
  rcases List.mem_append.mp hy with hy | hy
  · exact .inl hy
  · rcases List.mem_cons.mp hy with rfl | hy
    · exact .inr (.inr ⟨rfl, rfl, hle⟩)
    · exact .inr (.inl (hkept.subset hy))

theorem Sacked.start_lt {sacks : List Sack} (hsacked : Sacked t lo hi sacks) :
    ∀ x ∈ sacks, x.start < x.fin := fun x hx =>
  hsacked.separated.nonempty x.range (List.mem_map_of_mem hx)

theorem Sacked.added {sacks : List Sack} (hmerged : Sacked t lo hi (before ++ x.absorb after))
    (hx : x.times = 0) (hsub : before ++ after ⊆ sacks)
    (hbelow : ∀ y ∈ sacks, y.start ≤ x.start → y.fin < x.fin)
    (hcovers : ∀ q, Covers (before.map Sack.range ++
        Intervals.absorb x.start x.fin (after.map Sack.range)) q ↔
      Covers (sacks.map Sack.range) q ∨ (s ≤ q ∧ q < e)) : SackAdded t lo hi sacks s e := by
  refine ⟨_, hmerged, fun y hy => ?_, fun q => by rw [map_range_append_absorb, hcovers]⟩
  rcases mem_append_absorb hy with hy | hy | ⟨hstart, htimes, hle⟩
  · exact .inl (hsub (List.mem_append_left _ hy))
  · exact .inl (hsub (List.mem_append_right _ hy))
  · exact .inr ⟨htimes.trans hx, fun z hz hzs => ((hbelow z hz (hstart ▸ hzs)).trans_le hle).ne⟩

theorem Sacked.insertSack (hsacked : Sacked t lo hi (before ++ after)) (hlo : lo ≤ s) (hse : s < e)
    (hhi : e ≤ hi) (hbefore : ∀ x ∈ before, x.fin < s) (hafter : ∀ x ∈ after, s < x.start) :
    SackAdded (Stream.insertSack true t (wire s) (wire e)) lo hi (before ++ after) s e := by
  have hlt := hsacked.start_lt
  have hsep := hsacked.separated
  have hkeyed := hsacked.keyed
  rw [List.map_append] at hsep hkeyed
  obtain ⟨-, hinserted⟩ := Keyed.insert_split hkeyed hlo (hse.le.trans hhi)
    (fun entry hentry => by
      obtain ⟨x, hx, rfl⟩ := List.mem_map.mp hentry
      exact (hlt x (by simp [hx])).trans (hbefore x hx))
    (fun entry hentry => by
      obtain ⟨x, hx, rfl⟩ := List.mem_map.mp hentry
      exact hafter x hx) { seqEnd := wire e, sendTimes := 0 }
  have hadded : Keyed (t.treemapInsert seqCmp (wire s) { seqEnd := wire e, sendTimes := 0 }).2 lo hi
      ((before ++ { start := s, fin := e, times := 0 } :: after).map Sack.entry) := by
    rw [List.map_append, List.map_cons]
    exact hinserted
  have hmerged := Sacked.mergeSacks hadded
    (separated_append_absorb hsep hse fun range hrange => by
      obtain ⟨x, hx, rfl⟩ := List.mem_map.mp hrange
      exact hbefore x hx)
    ⟨hse.le, hhi⟩ (fun y hy => hlt y (by simp [hy])) hsacked.fin_le
  refine hmerged.added rfl (List.Subset.refl _) (fun y hy hys => ?_) fun q => ?_
  · rcases List.mem_append.mp hy with hy | hy
    · exact (hbefore y hy).trans hse
    · exact absurd hys (not_le.mpr (hafter y hy))
  · rw [List.map_append]
    refine covers_append_absorb (fun range hrange => ?_) q
    obtain ⟨x, hx, rfl⟩ := List.mem_map.mp hrange
    exact (hafter x hx).le

theorem Sacked.extendSack (hsacked : Sacked t lo hi (before ++ last :: after)) (hstart : last.start ≤ s)
    (hin : s ≤ last.fin) (hpast : last.fin < e) (hhi : e ≤ hi) :
    SackAdded
      (Stream.mergeSacks
        (t.treemapSetValue (wire last.start) (fun _ => { seqEnd := wire e, sendTimes := 0 })).treemapSize
        (t.treemapSetValue (wire last.start) (fun _ => { seqEnd := wire e, sendTimes := 0 }))
        (wire last.start)) lo hi (before ++ last :: after) s e := by
  have hlt := hsacked.start_lt
  have hsep := hsacked.separated
  have hkeyed := hsacked.keyed
  rw [List.map_append, List.map_cons] at hsep hkeyed
  obtain ⟨hbefore, hafter⟩ : (∀ y ∈ before, y.fin < last.start) ∧ ∀ y ∈ after, last.fin < y.start := by
    obtain ⟨-, hright, hacross⟩ := separated_append.mp hsep
    refine ⟨fun y hy => hacross y.range (List.mem_map_of_mem hy) last.range (by simp), fun y hy => ?_⟩
    exact (separated_cons.mp hright).2.1 y.range (List.mem_map_of_mem hy)
  have hlast := hlt last (by simp)
  have hset : Keyed (t.treemapSetValue (wire last.start) (fun _ => { seqEnd := wire e, sendTimes := 0 }))
      lo hi ((before ++ { start := last.start, fin := e, times := 0 } :: after).map Sack.entry) := by
    rw [List.map_append, List.map_cons]
    exact hkeyed.setValue_split (fun _ => { seqEnd := wire e, sendTimes := 0 })
  have hmerged := Sacked.mergeSacks hset
    (separated_extend hsep (show last.start < e by omega))
    ⟨show last.start ≤ e by omega, hhi⟩ (fun y hy => hlt y (by simp [hy]))
    (forall_middle.mp hsacked.fin_le).2
  refine hmerged.added rfl (fun y hy => mem_middle.mpr (.inr hy))
    (forall_middle.mpr ⟨fun _ => hpast, fun y hy hys => ?_⟩) fun q => ?_
  · rcases List.mem_append.mp hy with hy | hy
    · exact (hbefore y hy).trans (hlast.trans hpast)
    · exact absurd hys (not_le.mpr (hlast.trans (hafter y hy)))
  · rw [List.map_append, List.map_cons]
    refine covers_extend (fun range hrange => ?_) (show last.range.1 ≤ s from hstart)
      (show s ≤ last.range.2 from hin) (show last.range.2 ≤ e from hpast.le) q
    obtain ⟨x, hx, rfl⟩ := List.mem_map.mp hrange
    exact (hlast.trans (hafter x hx)).le

theorem Sacked.addSack {sacks : List Sack} (hsacked : Sacked t lo hi sacks) (hlo : lo ≤ s)
    (hse : s < e) (hhi : e ≤ hi) :
    SackAdded (Stream.addSack true t (wire s) (wire e)) lo hi sacks s e := by
  obtain ⟨before, after, rfl, hbefore, hafter⟩ := hsacked.exists_split s
  have hspan := hsacked.keyed.span
  have hat : Rbuf.rangeAt t (wire s) = (wireEntries (before.map Sack.entry)).getLast? := by
    refine hsacked.keyed.rangeAt List.map_append (fun entry hentry => ?_) (fun entry hentry => ?_)
      ⟨hlo, by omega⟩
    · obtain ⟨x, hx, rfl⟩ := List.mem_map.mp hentry
      exact hbefore x hx
    · obtain ⟨x, hx, rfl⟩ := List.mem_map.mp hentry
      exact hafter x hx
  rcases List.eq_nil_or_concat' before with rfl | ⟨front, last, rfl⟩
  · rw [Stream.addSack, hat]
    exact hsacked.insertSack hlo hse hhi (by simp) hafter
  · have hfound : (wireEntries ((front ++ [last]).map Sack.entry)).getLast? =
        some (wire last.start, { seqEnd := wire last.fin, sendTimes := last.times }) := by
      simp [wireEntries, Sack.entry]
    have hlast := hsacked.start_lt last (by simp)
    have hfin := hsacked.fin_le last (by simp)
    have hstart := hbefore last (by simp)
    have hlastLo := (hsacked.keyed.inside last.entry (List.mem_map_of_mem (by simp))).1
    dsimp only [Sack.entry] at hlastLo
    have hdup := lessEqual_wire (m := e) (n := last.fin) (by omega) (by omega)
    have hfrom := lessEqual_wire (m := last.start) (n := s) (by omega) (by omega)
    have hto := lessEqual_wire (m := s) (n := last.fin) (by omega) (by omega)
    rw [Stream.addSack, hat, hfound]
    simp only [hdup, Bool.and_eq_true, hfrom, hto]
    split
    · rename_i hcovered
      refine ⟨_, hsacked, fun x hx => .inl hx, fun q => ⟨.inl, ?_⟩⟩
      rintro (hq | ⟨hsq, hqe⟩)
      · exact hq
      · exact ⟨last.range, List.mem_map_of_mem (by simp), hstart.trans hsq, hqe.trans_le hcovered⟩
    · rename_i hpast
      split
      · rename_i hwithin
        rw [List.append_assoc, List.singleton_append] at hsacked ⊢
        exact hsacked.extendSack hwithin.1 hwithin.2 (by omega) hhi
      · rename_i houtside
        refine hsacked.insertSack hlo hse hhi (fun x hx => ?_) hafter
        rcases List.mem_append.mp hx with hx | hx
        · have hsep := hsacked.separated
          rw [List.append_assoc, List.singleton_append, List.map_append, List.map_cons] at hsep
          have hgap := (separated_append.mp hsep).2.2 x.range (List.mem_map_of_mem hx) last.range
            (by simp)
          exact lt_of_lt_of_le hgap hstart
        · obtain rfl := List.mem_singleton.mp hx
          omega

theorem addSack_false (t : Treemap U32 SackInfo) (start fin : U32) :
    Stream.addSack false t start fin = t ∨
      Stream.addSack false t start fin = Stream.addSack true t start fin ∧
        ∃ entry ∈ t.toList, lessEqual entry.1 start = true := by
  unfold Stream.addSack
  split
  · exact .inl rfl
  · rename_i rstart sack hat
    split
    · exact .inl rfl
    · split
      · rename_i hwithin
        exact .inr ⟨rfl, _, Rbuf.rangeAt_mem hat, (Bool.and_eq_true_iff.mp hwithin).1⟩
      · exact .inl rfl

end Add

/-! ### What the window has passed -/

def trimSacks (nodeAlloc : Bool) (w : Nat) : List Sack → List Sack
  | [] => []
  | x :: rest =>
      if w ≤ x.start then x :: rest
      else if x.fin ≤ w then trimSacks nodeAlloc w rest
      else if nodeAlloc then { x with start := w } :: rest
      else rest

theorem mem_trimSacks {nodeAlloc : Bool} {w : Nat} {sacks : List Sack} {x : Sack}
    (hx : x ∈ trimSacks nodeAlloc w sacks) :
    ∃ y ∈ sacks, y.start ≤ x.start ∧ y.fin = x.fin ∧ y.times = x.times := by
  induction sacks with
  | nil => cases hx
  | cons y rest ih =>
      rw [trimSacks] at hx
      split at hx
      · exact ⟨x, hx, le_rfl, rfl, rfl⟩
      · rename_i hpassed
        split at hx
        · obtain ⟨z, hz, hsame⟩ := ih hx
          exact ⟨z, by simp [hz], hsame⟩
        · split at hx
          · rcases List.mem_cons.mp hx with rfl | hx
            · exact ⟨y, by simp, (Nat.not_le.mp hpassed).le, rfl, rfl⟩
            · exact ⟨x, by simp [hx], le_rfl, rfl, rfl⟩
          · exact ⟨x, by simp [hx], le_rfl, rfl, rfl⟩

theorem start_trimSacks {nodeAlloc : Bool} {w : Nat} {sacks : List Sack}
    (hsep : Separated (sacks.map Sack.range)) :
    ∀ x ∈ trimSacks nodeAlloc w sacks, w ≤ x.start := by
  induction sacks with
  | nil => simp [trimSacks]
  | cons y rest ih =>
      obtain ⟨hlt, hgap, hrest⟩ := separated_cons.mp hsep
      have hlater : ∀ x ∈ rest, y.fin < x.start := fun x hx =>
        hgap x.range (List.mem_map_of_mem hx)
      dsimp only [Sack.range] at hlt
      rw [trimSacks]
      split
      · intro x hx
        rcases List.mem_cons.mp hx with rfl | hx
        · assumption
        · have := hlater x hx
          omega
      · split
        · exact ih hrest
        · split
          · intro x hx
            rcases List.mem_cons.mp hx with rfl | hx
            · exact le_rfl
            · have := hlater x hx
              omega
          · intro x hx
            have := hlater x hx
            omega

theorem exists_trimSacks {nodeAlloc : Bool} {w : Nat} {sacks : List Sack}
    (hsep : Separated (sacks.map Sack.range)) {y : Sack} (hy : y ∈ sacks) (hfin : w < y.fin) :
    (∃ z ∈ trimSacks nodeAlloc w sacks, z.start = max y.start w ∧ z.fin = y.fin) ∨
      nodeAlloc = false ∧ ∀ z ∈ trimSacks nodeAlloc w sacks, y.fin < z.start := by
  induction sacks with
  | nil => cases hy
  | cons x rest ih =>
      obtain ⟨hlt, hgap, hrest⟩ := separated_cons.mp hsep
      have hlater : ∀ z ∈ rest, x.fin < z.start := fun z hz =>
        hgap z.range (List.mem_map_of_mem hz)
      dsimp only [Sack.range] at hlt
      rw [trimSacks]
      rcases List.mem_cons.mp hy with rfl | hy
      · split
        · rename_i hahead
          exact .inl ⟨y, by simp, (max_eq_left hahead).symm, rfl⟩
        · rw [if_neg (by omega)]
          split
          · have hcut : y.start ≤ w := by omega
            exact .inl ⟨{ y with start := w }, by simp, (max_eq_right hcut).symm, rfl⟩
          · rename_i hnode
            exact .inr ⟨by simpa using hnode, hlater⟩
      · have hylater := hlater y hy
        split
        · refine .inl ⟨y, by simp [hy], (max_eq_left ?_).symm, rfl⟩
          omega
        · split
          · exact ih hrest hy
          · have hkept : y.start = max y.start w := (max_eq_left (by omega)).symm
            split
            · exact .inl ⟨y, by simp [hy], hkept, rfl⟩
            · exact .inl ⟨y, hy, hkept, rfl⟩

section Trim

variable {lo hi w : Nat} {t : Treemap U32 SackInfo}

theorem Sacked.delete_first {x : Sack} {rest : List Sack} (hsacked : Sacked t lo hi (x :: rest)) :
    Sacked (t.treemapDelete seqCmp (wire x.start)).2 lo hi rest where
  keyed := by
    have hkeyed : Keyed t lo hi ([] ++ x.entry :: rest.map Sack.entry) := hsacked.keyed
    exact hkeyed.delete_split
  separated := (separated_cons.mp hsacked.separated).2.2
  fin_le := fun y hy => hsacked.fin_le y (by simp [hy])

theorem Sacked.expireSacks (nodeAlloc : Bool) (hlo : lo ≤ w) (hhi : w ≤ hi) :
    ∀ (sacks : List Sack) {fuel : Nat} {t : Treemap U32 SackInfo}, sacks.length ≤ fuel →
      Sacked t lo hi sacks →
      Sacked (Stream.expireSacks nodeAlloc (wire w) fuel t) lo hi (trimSacks nodeAlloc w sacks) := by
  intro sacks
  induction sacks with
  | nil =>
      intro fuel t _ hsacked
      have hfirst : t.treemapFirst = none := hsacked.keyed.first
      cases fuel with
      | zero => exact hsacked
      | succ fuel =>
          rw [Stream.expireSacks, hfirst]
          exact hsacked
  | cons x rest ih =>
      intro fuel t hfuel hsacked
      obtain ⟨fuel, rfl⟩ := Nat.exists_eq_succ_of_ne_zero (n := fuel) (by
        rw [List.length_cons] at hfuel
        omega)
      have hfirst : t.treemapFirst = some (wire x.start, x.entry.2) := hsacked.keyed.first
      have hspan := hsacked.keyed.span
      have hlt := hsacked.start_lt x (by simp)
      have hfin := hsacked.fin_le x (by simp)
      have hstart := (hsacked.keyed.inside x.entry (by simp)).1
      dsimp only [Sack.entry] at hstart
      have hahead := lessEqual_wire (m := w) (n := x.start) (by omega) (by omega)
      have hpassed := lessEqual_wire (m := x.fin) (n := w) (by omega) (by omega)
      rw [Stream.expireSacks, hfirst, trimSacks]
      dsimp only [Sack.entry]
      simp only [hahead, hpassed]
      split
      · exact hsacked
      · rename_i hbelow
        split
        · exact ih (by simpa using hfuel) hsacked.delete_first
        · rename_i hcut
          have hrest := hsacked.delete_first
          have hgap := (separated_cons.mp hsacked.separated).2.1
          split
          · -- the record is entered again at the start of the window
            have hlater : ∀ y ∈ rest, w < y.start := fun y hy => by
              have := hgap y.range (List.mem_map_of_mem hy)
              dsimp only [Sack.range] at this
              omega
            have hempty : Keyed (t.treemapDelete seqCmp (wire x.start)).2 lo hi
                ([] ++ rest.map Sack.entry) := hrest.keyed
            obtain ⟨-, hinserted⟩ := Keyed.insert_split hempty hlo hhi (by simp)
              (fun entry hentry => by
                obtain ⟨y, hy, rfl⟩ := List.mem_map.mp hentry
                exact hlater y hy) { seqEnd := wire x.fin, sendTimes := x.times }
            refine ⟨hinserted, separated_cons.mpr ⟨?_, hgap, hrest.separated⟩, fun y hy => ?_⟩
            · change w < x.fin
              omega
            · rcases List.mem_cons.mp hy with rfl | hy
              · exact hfin
              · exact hrest.fin_le y hy
          · exact hrest

end Trim

/-! ### The ranges of `recv_buf` -/

namespace Rbuf

theorem insertRange_error_true {nodeAlloc : Bool} {ranges : Treemap U32 U32} {pos fin : U32}
    {ret : Int} (herror : insertRange nodeAlloc ranges pos fin = .error ret) (hret : 0 ≤ ret) :
    insertRange true ranges pos fin = .error ret := by
  cases nodeAlloc with
  | true => exact herror
  | false =>
      unfold insertRange at herror ⊢
      dsimp only at herror ⊢
      split at herror
      · split at herror
        · rename_i hdup
          rw [if_pos hdup]
          exact herror
        · split at herror
          · cases herror
          · cases herror
            exact absurd hret (by decide)
      · cases herror
        exact absurd hret (by decide)

structure LowRanges (rb : Rbuf) (ranges : List (Nat × Nat)) : Prop where
  balanced : rb.rangeMap.Balanced
  toList_eq : rb.rangeMap.toList = wireRanges ranges
  separated : Separated ranges
  below : ∀ range ∈ ranges, range.2 < 2 ^ 31
  start_lt : rb.startPos.toNat < 2 ^ 31

namespace LowRanges

variable {rb : Rbuf} {ranges : List (Nat × Nat)}

theorem inside (hlow : LowRanges rb ranges) :
    ∀ range ∈ ranges, 0 ≤ range.1 ∧ range.2 ≤ 2 ^ 31 - 1 := fun range hrange =>
  ⟨Nat.zero_le _, Nat.le_pred_of_lt (hlow.below range hrange)⟩

theorem span : 2 ^ 31 - 1 < 0 + 2 ^ 31 := by decide

theorem rbufWrite (hlow : LowRanges rb ranges) (alloc : Alloc) {pos : U32} {data : List Byte}
    (hlen : 0 < data.length) (hend : pos.toNat + data.length < 2 ^ 31) :
    ∃ ranges', LowRanges (rb.rbufWrite alloc pos data).2 ranges' ∧
      (0 ≤ (rb.rbufWrite alloc pos data).1 →
        ∀ q, pos.toNat ≤ q → q < pos.toNat + data.length → Covers ranges' q) := by
  have hfin : pos + BitVec.ofNat 32 data.length = wire (pos.toNat + data.length) := by
    rw [wire_add, wire_of_toNat]
    rfl
  have hspec := insertRange_spec span hlow.balanced (Nat.le_pred_of_lt hend)
    (show pos.toNat < pos.toNat + data.length by omega) (Nat.zero_le _) hlow.toList_eq hlow.separated
    hlow.inside
  rw [wire_of_toNat, ← hfin] at hspec
  have hout : ¬ (0 : Int) ≤ rbufOutOfRange := by decide
  rw [Rbuf.rbufWrite]
  dsimp only
  split
  · exact ⟨ranges, hlow, fun hret => absurd hret hout⟩
  · split
    · exact ⟨ranges, hlow, fun hret => absurd hret hout⟩
    · cases hinsert : insertRange alloc.node rb.rangeMap pos (pos + BitVec.ofNat 32 data.length) with
      | error ret =>
          refine ⟨ranges, hlow, fun hret q hq hq' => ?_⟩
          rcases hspec with ⟨-, hcovers⟩ | ⟨it, tree, hok, -⟩
          · exact hcovers q hq hq'
          · rw [insertRange_error_true hinsert hret] at hok
            cases hok
      | ok result =>
          obtain ⟨ret, it, tree⟩ := result
          rcases hspec with ⟨hdup, -⟩ | ⟨it', tree', hok, hbal, ranges', hlist, hsep, hin, hcovers⟩
          · rw [insertRange_true hinsert] at hdup
            cases hdup
          · rw [insertRange_true hinsert] at hok
            cases hok
            obtain ⟨copied, blocks, hcopy, -⟩ := copyToBlocks_cases alloc data.length 0
              { rb with rangeMap := mergeSuccessors tree.treemapSize tree it } pos data
            have hlow' : LowRanges { rb with
                rangeMap := mergeSuccessors tree.treemapSize tree it
                blocks := blocks } ranges' :=
              ⟨hbal, hlist, hsep, fun range hrange => Nat.lt_of_le_pred (by decide) (hin range hrange).2,
                hlow.start_lt⟩
            refine ⟨ranges', ?_, fun _ q hq hq' => (hcovers q).mpr (.inr ⟨hq, hq'⟩)⟩
            dsimp only
            rw [hcopy]
            dsimp only
            split
            · exact hlow'
            · exact hlow'

theorem rangeAt (hlow : LowRanges rb ranges) {p : Nat} (hp : Covers ranges p) :
    ∃ range ∈ ranges, Rbuf.rangeAt rb.rangeMap (wire p) = some (wire range.1, wire range.2) ∧
      range.1 ≤ p ∧ p < range.2 := by
  obtain ⟨range, hrange, hle, hlt⟩ := hp
  obtain ⟨before, after, rfl⟩ := List.append_of_mem hrange
  have hsep := separated_append.mp hlow.separated
  have hbelow := hlow.below range hrange
  refine ⟨range, hrange, ?_, hle, hlt⟩
  have hsplit : before ++ range :: after = (before ++ [range]) ++ after := by simp
  have hspaced := hlow.separated.spaced
  have hinside := hlow.inside
  have hlist := hlow.toList_eq
  rw [hsplit] at hspaced hinside hlist
  rw [rangeAt_split span ⟨Nat.zero_le _, by omega⟩ hlist hspaced hinside (fun r hr => ?_) fun r hr => ?_]
  · simp [wireRanges]
  · rcases List.mem_append.mp hr with hr | hr
    · have := hsep.2.2 r hr range (by simp)
      have := hlow.separated.nonempty r (by simp [hr])
      omega
    · exact List.mem_singleton.mp hr ▸ hle
  · exact hlt.trans ((separated_cons.mp hsep.2.1).2.1 r hr)

theorem readable (hlow : LowRanges rb ranges) (hpos : rb.rbufReadableBytes ≠ 0) :
    ∃ fend rest, ranges = (rb.startPos.toNat, fend) :: rest ∧
      rb.rbufReadableBytes.toNat = fend - rb.startPos.toNat := by
  have hfirst : rb.rangeMap.treemapFirst = (wireRanges ranges).head? := by
    rw [Treemap.treemapFirst, hlow.toList_eq]
  unfold rbufReadableBytes at hpos ⊢
  cases ranges with
  | nil =>
      rw [hfirst] at hpos
      exact absurd rfl hpos
  | cons range rest =>
      rw [hfirst, wireRanges_cons, List.head?_cons] at hpos ⊢
      dsimp only at hpos ⊢
      have hlt := hlow.separated.nonempty range (by simp)
      have hbelow := hlow.below range (by simp)
      split at hpos
      · exact absurd rfl hpos
      · rename_i heq
        have hstart : rb.startPos.toNat = range.1 := by
          rw [not_not.mp heq, wire_toNat, Nat.mod_eq_of_lt (by omega)]
        rw [hstart, if_neg heq, toNat_wire_sub hlt.le (by omega)]
        exact ⟨range.2, rest, rfl, rfl⟩

theorem front_lt (hlow : LowRanges rb ranges) :
    (rb.startPos + rb.rbufReadableBytes).toNat < 2 ^ 31 := by
  by_cases hzero : rb.rbufReadableBytes = 0
  · rw [hzero]
    simpa using hlow.start_lt
  · obtain ⟨fend, rest, rfl, hbytes⟩ := hlow.readable hzero
    have hbelow := hlow.below (_, fend) (List.mem_cons_self ..)
    have hlt := hlow.separated.nonempty (_, fend) (List.mem_cons_self ..)
    dsimp only at hbelow hlt
    rw [BitVec.toNat_add, hbytes]
    omega

theorem rbufRelease (hlow : LowRanges rb ranges) {nodeAlloc : Bool} {size : U32} {rb' : Rbuf}
    (hsize : size ≠ 0) (hrelease : rb.rbufRelease nodeAlloc size = some rb') :
    ∃ ranges', LowRanges rb' ranges' := by
  obtain ⟨hle, tree, startBlock, blocks, rfl, htree⟩ := rbufRelease_cases hrelease
  have hpos : rb.rbufReadableBytes ≠ 0 := by
    intro hzero
    rw [hzero] at hle
    exact hsize (BitVec.le_zero_iff.mp hle)
  obtain ⟨fend, rest, rfl, hbytes⟩ := hlow.readable hpos
  rw [BitVec.le_def, hbytes] at hle
  have hbelow := hlow.below (_, fend) (List.mem_cons_self ..)
  obtain ⟨hlt, hgap, hsep⟩ := separated_cons.mp hlow.separated
  dsimp only at hbelow hlt hgap
  have hmoved : (rb.startPos + size).toNat = rb.startPos.toNat + size.toNat := by
    rw [BitVec.toNat_add]
    omega
  have hstart : (rb.startPos + size).toNat < 2 ^ 31 := by omega
  have hrest : ∀ range ∈ rest, range.2 < 2 ^ 31 := fun range hrange =>
    hlow.below range (List.mem_cons_of_mem _ hrange)
  have hin : ∀ range ∈ rest, range.2 ≤ 2 ^ 31 - 1 := fun range hrange =>
    Nat.le_pred_of_lt (hrest range hrange)
  have hspan : 2 ^ 31 - 1 < rb.startPos.toNat + 2 ^ 31 := by omega
  have hspaced := hlow.separated.spaced
  obtain ⟨hbal, hlist⟩ := treemapDelete_first hspan hspaced hin hlow.balanced hlow.toList_eq
  rw [wire_of_toNat] at hbal hlist
  rcases htree with rfl | ⟨fstart, fend', hpart, hfirst, rfl⟩
  · exact ⟨rest, hbal, hlist, hsep, hrest, hstart⟩
  · rw [Treemap.treemapFirst, hlow.toList_eq] at hfirst
    cases hfirst
    have hne : size.toNat ≠ rb.rbufReadableBytes.toNat := fun heq => hpart (BitVec.eq_of_toNat_eq heq)
    have hinserted := treemapInsert_first hspan hspaced hin hbal hlist
      (show rb.startPos.toNat ≤ (rb.startPos + size).toNat by omega) (by omega)
    rw [wire_of_toNat] at hinserted
    exact ⟨_, hinserted.2.1, hinserted.2.2, separated_cons.mpr ⟨by dsimp only; omega, hgap, hsep⟩,
      List.forall_mem_cons.mpr ⟨hbelow, hrest⟩, hstart⟩

end LowRanges

end Rbuf

/-! ### Connections with less than `2 ^ 31` bytes -/

section Push

open Rbuf

variable {c c' : Stream} {ranges : List (Nat × Nat)} {sacks : List Sack} {alloc : Alloc}

def sackTop : Nat := 2 ^ 31 - 1

theorem pushSackMap_cases (hlow : LowRanges c.recvBuf ranges) (hstart : c.rwinStart.toNat < 2 ^ 31)
    {seq : U32} (hseq : Covers ranges seq.toNat) (nodeAlloc : Bool) :
    (lessEqual c.rwinStart seq = false ∧ c.pushSackMap nodeAlloc seq = c) ∨
      ∃ range ∈ ranges, rangeAt c.recvBuf.rangeMap seq = some (wire range.1, wire range.2) ∧
        range.1 ≤ seq.toNat ∧ seq.toNat < range.2 ∧ c.rwinStart.toNat ≤ seq.toNat ∧
        c.pushSackMap nodeAlloc seq =
          { c with
            sackMap := Stream.addSack nodeAlloc
              (Stream.expireSacks nodeAlloc c.rwinStart c.sackMap.treemapSize c.sackMap)
              (wire range.1) (wire range.2) } := by
  obtain ⟨range, hrange, hat, hle, hlt⟩ := hlow.rangeAt hseq
  have hbelow := hlow.below range hrange
  rw [wire_of_toNat] at hat
  unfold Stream.pushSackMap
  split
  · rename_i hpassed
    exact .inl ⟨hpassed, rfl⟩
  · rename_i hahead
    rw [Bool.not_eq_false, lessEqual_of_small hstart (by omega)] at hahead
    refine .inr ⟨range, hrange, hat, hle, hlt, hahead, ?_⟩
    rw [hat]

theorem Sacked.expired (hsacked : Sacked c.sackMap 0 sackTop sacks)
    (hstart : c.rwinStart.toNat < 2 ^ 31) (nodeAlloc : Bool) :
    Sacked (Stream.expireSacks nodeAlloc c.rwinStart c.sackMap.treemapSize c.sackMap) 0 sackTop
      (trimSacks nodeAlloc c.rwinStart.toNat sacks) := by
  have hexpired := Sacked.expireSacks nodeAlloc (Nat.zero_le _) (Nat.le_pred_of_lt hstart) sacks
    (show sacks.length ≤ c.sackMap.treemapSize by rw [hsacked.keyed.size, List.length_map]) hsacked
  rwa [wire_of_toNat] at hexpired

theorem Sacked.addSack_keeps {t : Treemap U32 SackInfo} {s e : Nat} (hsacked : Sacked t 0 sackTop sacks)
    (hse : s < e) (he : e < 2 ^ 31) (nodeAlloc : Bool) :
    ∃ sacks', Sacked (Stream.addSack nodeAlloc t (wire s) (wire e)) 0 sackTop sacks' ∧
      ∀ x ∈ sacks', x ∈ sacks ∨ x.Fresh sacks ∧
        (Covers (sacks.map Sack.range) x.start ∨ s ≤ x.start) ∧
          (nodeAlloc = false → ∃ y ∈ sacks, y.start ≤ s) := by
  obtain ⟨sacks', hsacked', hfrom, hcovers⟩ :=
    hsacked.addSack (Nat.zero_le s) hse (Nat.le_pred_of_lt he)
  have hstarts : ∀ x ∈ sacks', Covers (sacks.map Sack.range) x.start ∨ s ≤ x.start := fun x hx =>
    ((hcovers x.start).mp ⟨x.range, List.mem_map_of_mem hx, le_rfl, hsacked'.start_lt x hx⟩).imp_right
      And.left
  have hadded : ∀ x ∈ sacks', x ∈ sacks ∨ x.Fresh sacks ∧
      (Covers (sacks.map Sack.range) x.start ∨ s ≤ x.start) := fun x hx =>
    (hfrom x hx).imp_right fun hfresh => ⟨hfresh, hstarts x hx⟩
  cases nodeAlloc with
  | true =>
      refine ⟨sacks', hsacked', fun x hx => (hadded x hx).imp_right fun hnew => ?_⟩
      exact ⟨hnew.1, hnew.2, Bool.noConfusion⟩
  | false =>
      rcases addSack_false t (wire s) (wire e) with heq | ⟨heq, entry, hentry, hle⟩
      · rw [heq]
        exact ⟨sacks, hsacked, fun x hx => .inl hx⟩
      · rw [hsacked.keyed.toList_eq, wireEntries, List.map_map] at hentry
        obtain ⟨y, hy, rfl⟩ := List.mem_map.mp hentry
        have hylt := hsacked.start_lt y hy
        have hyfin : y.fin < 2 ^ 31 := Nat.lt_of_le_pred (by decide) (hsacked.fin_le y hy)
        have hstart : y.start ≤ s := (lessEqual_wire (by omega) (by omega)).mp hle
        rw [heq]
        refine ⟨sacks', hsacked', fun x hx => (hadded x hx).imp_right fun hnew => ?_⟩
        exact ⟨hnew.1, hnew.2, fun _ => ⟨y, hy, hstart⟩⟩

end Push

/-- A step of a connection whose stream is short: what it stores ends below `2 ^ 31`. -/
inductive LowStep (alloc : Alloc) (ackSize : U32) (c : Stream) : Stream → Prop where
  | same {c' : Stream} (hsame : SameRecord c c') : LowStep alloc ackSize c c'
  | store (post : DataPost) (hsized : post.Sized) (hlen : post.len ≠ 0)
      (hend : post.seq.toNat + post.data.length < 2 ^ 31) :
      LowStep alloc ackSize c (c.storeData alloc post).2
  | read {c' : Stream} (size : U32) (hsize : size ≠ 0)
      (hreleased : c.releaseRecv alloc.node size = some c') : LowStep alloc ackSize c c'
  | ack (acks : List (U32 × U32)) (sackMap : Treemap U32 SackInfo)
      (hacks : (acks, sackMap) = c.takeAcks ackSize ∨ (acks, sackMap) = ([], c.sackMap)) :
      LowStep alloc ackSize c (c.acknowledged acks sackMap)

/-- A state of a connection with a stream of less than `2 ^ 31` bytes, whatever arrives or fails. -/
inductive Reached (cfg : Config) : Stream → Prop where
  | new (now : Time) (tunnelId : U16) (state : ConnState) :
      Reached cfg (Host.newConn cfg now tunnelId state).toStream
  | step {alloc : Alloc} {c c' : Stream} (hreached : Reached cfg c)
      (hstep : LowStep alloc cfg.ackSize c c') : Reached cfg c'

structure Orderly (c : Stream) : Prop where
  ranges : ∃ ranges, Rbuf.LowRanges c.recvBuf ranges
  sacks : ∃ sacks, Sacked c.sackMap 0 sackTop sacks

section Steps

open Rbuf

variable {c c' : Stream} {alloc : Alloc} {ackSize : U32}

theorem orderly_newConn (cfg : Config) (now : Time) (tunnelId : U16) (state : ConnState) :
    Orderly (Host.newConn cfg now tunnelId state).toStream where
  ranges := ⟨[], Treemap.balanced_nil, rfl, separated_nil, by simp, by
    change (0 : U32).toNat < 2 ^ 31
    decide⟩
  sacks := ⟨[], .nil (by decide), separated_nil, by simp⟩

def Stream.writtenAt (alloc : Alloc) (c : Stream) (post : DataPost) : Stream :=
  Stream.updateRwin
    { c with
      recvBuf := (c.recvBuf.rbufWrite alloc post.seq post.data).2
      stored := if (c.recvBuf.rbufWrite alloc post.seq post.data).1 = 0 then c.stored ++ [post]
        else c.stored }

theorem storeData_of_accepted {post : DataPost} (haccepted : (c.storeData alloc post).1 = true) :
    0 ≤ (c.recvBuf.rbufWrite alloc post.seq post.data).1 ∧
      (c.storeData alloc post).2 = (c.writtenAt alloc post).pushSackMap alloc.node post.seq := by
  unfold Stream.storeData at haccepted ⊢
  dsimp only at haccepted ⊢
  split at haccepted
  · rename_i hret
    rw [if_pos hret]
    exact ⟨hret, rfl⟩
  · cases haccepted

theorem storeData_of_refused {post : DataPost} (hrefused : (c.storeData alloc post).1 = false) :
    (c.storeData alloc post).2.recvBuf = (c.recvBuf.rbufWrite alloc post.seq post.data).2 ∧
      (c.storeData alloc post).2.sackMap = c.sackMap := by
  unfold Stream.storeData at hrefused ⊢
  dsimp only at hrefused ⊢
  split at hrefused
  · cases hrefused
  · rename_i hret
    rw [if_neg hret]
    exact ⟨rfl, rfl⟩

theorem length_pos_of_sized {post : DataPost} (hsized : post.Sized) (hlen : post.len ≠ 0) :
    0 < post.data.length := by
  rw [← hsized]
  exact Nat.pos_of_ne_zero fun hzero => hlen (BitVec.eq_of_toNat_eq hzero)

variable (alloc) in
theorem lowRanges_writtenAt {ranges : List (Nat × Nat)} (hlow : LowRanges c.recvBuf ranges)
    {post : DataPost} (hsized : post.Sized) (hlen : post.len ≠ 0)
    (hend : post.seq.toNat + post.data.length < 2 ^ 31) :
    ∃ ranges', LowRanges (c.writtenAt alloc post).recvBuf ranges' ∧
      (c.writtenAt alloc post).rwinStart.toNat < 2 ^ 31 ∧
      (0 ≤ (c.recvBuf.rbufWrite alloc post.seq post.data).1 → Covers ranges' post.seq.toNat) := by
  have hpos := length_pos_of_sized hsized hlen
  obtain ⟨ranges', hlow', hcovers⟩ := hlow.rbufWrite alloc hpos hend
  exact ⟨ranges', hlow', hlow'.front_lt, fun hret => hcovers hret _ le_rfl (by omega)⟩

theorem Orderly.storeData (horderly : Orderly c) {post : DataPost} (hsized : post.Sized)
    (hlen : post.len ≠ 0) (hend : post.seq.toNat + post.data.length < 2 ^ 31) :
    Orderly (c.storeData alloc post).2 := by
  obtain ⟨ranges, hlow⟩ := horderly.ranges
  obtain ⟨sacks, hsacked⟩ := horderly.sacks
  obtain ⟨ranges', hlow', hstart, hcovers⟩ := lowRanges_writtenAt alloc hlow hsized hlen hend
  cases hstored : (c.storeData alloc post).1 with
  | false =>
      obtain ⟨hbuf, hmap⟩ := storeData_of_refused hstored
      exact ⟨⟨ranges', by rw [hbuf]; exact hlow'⟩, ⟨sacks, by rw [hmap]; exact hsacked⟩⟩
  | true =>
      obtain ⟨hret, heq⟩ := storeData_of_accepted hstored
      rw [heq]
      rcases pushSackMap_cases hlow' hstart (hcovers hret) alloc.node with
        ⟨-, hsame⟩ | ⟨range, hrange, -, -, -, -, hpush⟩
      · rw [hsame]
        exact ⟨⟨ranges', hlow'⟩, ⟨sacks, hsacked⟩⟩
      · have hexpired : Sacked _ 0 sackTop _ :=
          Sacked.expired (c := c.writtenAt alloc post) hsacked hstart alloc.node
        obtain ⟨sacks', hsacked', -⟩ := hexpired.addSack_keeps
          (hlow'.separated.nonempty range hrange) (hlow'.below range hrange) alloc.node
        rw [hpush]
        exact ⟨⟨ranges', hlow'⟩, ⟨sacks', hsacked'⟩⟩

theorem Orderly.acknowledged (horderly : Orderly c) {acks : List (U32 × U32)}
    {sackMap : Treemap U32 SackInfo}
    (hacks : (acks, sackMap) = c.takeAcks ackSize ∨ (acks, sackMap) = ([], c.sackMap)) :
    Orderly (c.acknowledged acks sackMap) := by
  refine ⟨horderly.ranges, ?_⟩
  obtain ⟨sacks, hsacked⟩ := horderly.sacks
  rcases hacks with hacks | hacks
  · cases hacks
    exact ⟨_, (hsacked.collected ackSize).2⟩
  · cases hacks
    exact ⟨sacks, hsacked⟩

theorem Orderly.step (horderly : Orderly c) (hstep : LowStep alloc ackSize c c') : Orderly c' := by
  cases hstep with
  | same hsame =>
      refine ⟨?_, ?_⟩
      · rw [hsame.recvBuf_eq]
        exact horderly.ranges
      · rw [hsame.sackMap_eq]
        exact horderly.sacks
  | store post hsized hlen hend => exact horderly.storeData hsized hlen hend
  | read size hsize hreleased =>
      obtain ⟨ranges, hlow⟩ := horderly.ranges
      obtain ⟨recvBuf, hrelease, rfl⟩ := Option.map_eq_some_iff.mp hreleased
      exact ⟨hlow.rbufRelease hsize hrelease, horderly.sacks⟩
  | ack acks sackMap hacks => exact horderly.acknowledged hacks

theorem Reached.orderly {cfg : Config} (hreached : Reached cfg c) : Orderly c := by
  induction hreached with
  | new now tunnelId state => exact orderly_newConn cfg now tunnelId state
  | step _ hstep ih => exact ih.step hstep

end Steps

/-! ### Runs -/

def Stream.Below (c : Stream) : Prop :=
  c.recvBuf.windowEnd c.consumed < 2 ^ 31

section Below

variable {c c' : Stream} {alloc : Alloc} {ackSize : U32}

theorem recvBuf_storeData (alloc : Alloc) (c : Stream) (post : DataPost) :
    (c.storeData alloc post).2.recvBuf = (c.recvBuf.rbufWrite alloc post.seq post.data).2 ∧
      (c.storeData alloc post).2.consumed = c.consumed := by
  unfold Stream.storeData
  dsimp only
  split
  · exact ⟨(recvFrame_pushSackMap _ _ _).recvBuf_eq, (recvFrame_pushSackMap _ _ _).consumed_eq⟩
  · exact ⟨rfl, rfl⟩

theorem ReceiverStep.below (hstep : ReceiverStep alloc ackSize c c') (hbelow : c'.Below) :
    c.Below := by
  unfold Stream.Below Rbuf.windowEnd at hbelow ⊢
  cases hstep with
  | same hsame => rwa [hsame.recvBuf_eq, hsame.consumed_eq] at hbelow
  | store post hsized hlen =>
      obtain ⟨hbuf, hconsumed⟩ := recvBuf_storeData alloc c post
      rw [hbuf, hconsumed] at hbelow
      rcases Rbuf.rbufWrite_cases alloc c.recvBuf post.seq post.data with
        ⟨ret, -, heq⟩ | ⟨ret, it, tree, ret', blocks, -, heq, -⟩
      · rwa [heq] at hbelow
      · rwa [heq] at hbelow
  | read size hsize hreleased =>
      obtain ⟨recvBuf, hrelease, rfl⟩ := Option.map_eq_some_iff.mp hreleased
      obtain ⟨-, tree, startBlock, blocks, rfl, -⟩ := Rbuf.rbufRelease_cases hrelease
      refine lt_of_le_of_lt (Nat.mul_le_mul_right _ (Nat.add_le_add_right ?_ _)) hbelow
      exact Nat.div_le_div_right (Nat.le_add_right _ _)
  | ack acks sackMap hacks => exact hbelow

theorem Reached.receiverStep {cfg : Config} (hreached : Reached cfg c) (hpromised : Promised c)
    (hbelow : c.Below) (hstep : ReceiverStep alloc cfg.ackSize c c') : Reached cfg c' := by
  suffices hlow : LowStep alloc cfg.ackSize c c' from hreached.step hlow
  cases hstep with
  | same hsame => exact .same hsame
  | store post hsized hlen =>
      obtain ⟨ranges, hranged, -⟩ := hpromised.ranged
      have hlong : post.data.length < 2 ^ 32 := by
        have := post.len.isLt
        rw [← hsized]
        omega
      rcases Nat.lt_or_ge (c.recvBuf.windowEnd c.consumed)
        (c.consumed + (post.seq - c.recvBuf.startPos).toNat + post.data.length) with hout | hend
      · have hrefused := hranged.rbufWrite_refused alloc hout hlong
        have heq : (c.storeData alloc post).2 = c := by
          unfold Stream.storeData
          rw [hrefused]
          rfl
        rw [heq]
        exact .same ⟨⟨rfl, rfl, rfl, rfl, rfl, rfl⟩, rfl⟩
      · refine .store post hsized hlen ?_
        have hpos := congrArg BitVec.toNat (hranged.wire_offset post.seq)
        unfold Stream.Below at hbelow
        rw [wire_toNat, Nat.mod_eq_of_lt (by omega)] at hpos
        omega
  | read size hsize hreleased => exact .read size hsize hreleased
  | ack acks sackMap hacks => exact .ack acks sackMap hacks

end Below

theorem Host.reached_run {cfg : Config} (hsmall : cfg.blocksCount * rbufBlockSize < 2 ^ 31)
    (nodeId : U16) (now : Time) {events : List (Env × HostEvent)} {flow : U32} {c : Stream}
    (hc : ((litedtInit cfg nodeId now).run events).Incarnation flow c) (hbelow : c.Below) :
    Reached cfg c := by
  have hrecorded : Recorded flow cfg (fun c => Promised c ∧ (c.Below → Reached cfg c))
      (((litedtInit cfg nodeId now).run events).view flow) := by
    refine recorded_run nodeId now (fun now tunnelId state => ?_) (fun e he c c' hstep hkept => ?_)
    · exact ⟨promised_newConn hsmall now tunnelId state, fun _ => .new now tunnelId state⟩
    · refine ⟨hkept.1.step hstep, fun hbelow' => ?_⟩
      have hbelow := hstep.below hbelow'
      exact (hkept.2 hbelow).receiverStep hkept.1 hbelow hstep
  exact (hrecorded.incarnation c (Host.incarnation_iff_view.mp hc)).2 hbelow

/-! ### What `push_sack_map` leaves -/

def Canonical {ν : Type} (fin : ν → U32) (t : Treemap U32 ν) : Prop :=
  (∀ entry ∈ t.toList, entry.1.toNat < (fin entry.2).toNat) ∧
    t.toList.Pairwise (fun left right => (fin left.2).toNat < right.1.toNat)

structure SackComplete (c : Stream) (seq : U32) : Prop where
  covered : ∃ range, Rbuf.rangeAt c.recvBuf.rangeMap seq = some range ∧
    range.1.toNat ≤ seq.toNat ∧ seq.toNat < range.2.toNat ∧
    ∃ entry ∈ c.sackMap.toList, entry.1.toNat ≤ range.1.toNat ∧
      range.2.toNat ≤ entry.2.seqEnd.toNat
  ranges : Canonical id c.recvBuf.rangeMap
  records : Canonical SackInfo.seqEnd c.sackMap

theorem wire_toNat_of_lt {n : Nat} (hn : n < 2 ^ 31) : (wire n).toNat = n := by
  rw [wire_toNat, Nat.mod_eq_of_lt (by omega)]

theorem Rbuf.LowRanges.canonical {rb : Rbuf} {ranges : List (Nat × Nat)}
    (hlow : LowRanges rb ranges) : Canonical id rb.rangeMap := by
  have hends : ∀ range ∈ ranges, (wire range.1).toNat = range.1 ∧ (wire range.2).toNat = range.2 := by
    intro range hrange
    have hlt := hlow.separated.nonempty range hrange
    have hbelow := hlow.below range hrange
    exact ⟨wire_toNat_of_lt (hlt.trans hbelow), wire_toNat_of_lt hbelow⟩
  unfold Canonical
  rw [hlow.toList_eq, wireRanges, List.forall_mem_map, List.pairwise_map]
  refine ⟨fun range hrange => ?_, hlow.separated.gaps.imp_of_mem fun {a b} ha hb hgap => ?_⟩
  · rw [id, (hends range hrange).1, (hends range hrange).2]
    exact hlow.separated.nonempty range hrange
  · rw [id, (hends a ha).2, (hends b hb).1]
    exact hgap

theorem Sacked.canonical {t : Treemap U32 SackInfo} {sacks : List Sack}
    (hsacked : Sacked t 0 sackTop sacks) : Canonical SackInfo.seqEnd t := by
  have hends : ∀ x ∈ sacks, (wire x.start).toNat = x.start ∧ (wire x.fin).toNat = x.fin := by
    intro x hx
    have hlt := hsacked.start_lt x hx
    have hbelow : x.fin < 2 ^ 31 := Nat.lt_of_le_pred (by decide) (hsacked.fin_le x hx)
    exact ⟨wire_toNat_of_lt (hlt.trans hbelow), wire_toNat_of_lt hbelow⟩
  have hgaps := hsacked.separated.gaps
  rw [List.pairwise_map] at hgaps
  unfold Canonical
  rw [hsacked.keyed.toList_eq, wireEntries, List.map_map, List.forall_mem_map, List.pairwise_map]
  refine ⟨fun x hx => ?_, hgaps.imp_of_mem fun {a b} ha hb hgap => ?_⟩
  · change (wire x.start).toNat < (wire x.fin).toNat
    rw [(hends x hx).1, (hends x hx).2]
    exact hsacked.start_lt x hx
  · change (wire a.fin).toNat < (wire b.start).toNat
    rw [(hends a ha).2, (hends b hb).1]
    exact hgap

/-- With a short stream and memory for a node: after `push_sack_map` for a packet in the window, one
record covers the range of `recv_buf` around the packet. -/
theorem Reached.sackComplete {cfg : Config} {c : Stream} (hreached : Reached cfg c) {alloc : Alloc}
    (hnode : alloc.node = true) {post : DataPost} (hsized : post.Sized) (hlen : post.len ≠ 0)
    (hend : post.seq.toNat + post.data.length < 2 ^ 31)
    (haccepted : (c.storeData alloc post).1 = true)
    (hahead : lessEqual (c.storeData alloc post).2.rwinStart post.seq = true) :
    SackComplete (c.storeData alloc post).2 post.seq := by
  obtain ⟨⟨ranges, hlow⟩, sacks, hsacked⟩ := hreached.orderly
  obtain ⟨ranges', hlow', hstart, hcovers⟩ := lowRanges_writtenAt alloc hlow hsized hlen hend
  obtain ⟨hret, heq⟩ := storeData_of_accepted haccepted
  rw [heq] at hahead ⊢
  rw [(recvFrame_pushSackMap _ _ _).rwinStart_eq] at hahead
  rcases pushSackMap_cases hlow' hstart (hcovers hret) alloc.node with
    ⟨hpassed, -⟩ | ⟨range, hrange, hat, hle, hlt, -, hpush⟩
  · rw [hahead] at hpassed
    cases hpassed
  · have hbelow := hlow'.below range hrange
    have hrangeLt := hlow'.separated.nonempty range hrange
    have hexpired : Sacked _ 0 sackTop _ :=
      Sacked.expired (c := c.writtenAt alloc post) hsacked hstart alloc.node
    obtain ⟨sacks', hsacked', -, hadded⟩ := hexpired.addSack (Nat.zero_le range.1) hrangeLt
      (Nat.le_pred_of_lt hbelow)
    rw [hnode] at hpush hsacked'
    rw [hnode, hpush]
    -- all of the range is covered, so it lies in one of the separated records
    obtain ⟨_, hcovering, hfrom, hto⟩ := exists_covering hsacked'.separated.spaced hrangeLt
      fun q hq hq' => (hadded q).mpr (.inr ⟨hq, hq'⟩)
    obtain ⟨x, hx, rfl⟩ := List.mem_map.mp hcovering
    have hxfin : x.fin < 2 ^ 31 := Nat.lt_of_le_pred (by decide) (hsacked'.fin_le x hx)
    have hxlt := hsacked'.start_lt x hx
    refine ⟨⟨_, hat, ?_, ?_, (wire x.start, x.entry.2), ?_, ?_, ?_⟩, hlow'.canonical,
      hsacked'.canonical⟩
    · rwa [wire_toNat_of_lt (hrangeLt.trans hbelow)]
    · rwa [wire_toNat_of_lt hbelow]
    · rw [hsacked'.keyed.toList_eq]
      exact List.mem_map_of_mem (List.mem_map_of_mem hx)
    · rw [wire_toNat_of_lt (hrangeLt.trans hbelow), wire_toNat_of_lt (hxlt.trans hxfin)]
      exact hfrom
    · rw [wire_toNat_of_lt hbelow]
      change range.2 ≤ (wire x.fin).toNat
      rw [wire_toNat_of_lt hxfin]
      exact hto

def secondByte : DataPost :=
  { seq := 1, len := 1, fecSeq := 0, fecIndex := 0, data := [98] }

def Stream.opened : Stream :=
  (Host.newConn (.globalConfigInit Config.plainToken) 0 0 .established).toStream

theorem reached_opened : Reached (.globalConfigInit Config.plainToken) Stream.opened :=
  .new 0 0 .established

theorem sackComplete_secondByte :
    SackComplete (Stream.opened.storeData (Env.plain 0).alloc secondByte).2 1 :=
  reached_opened.sackComplete rfl (show secondByte.Sized from rfl) (by decide) (by decide)
    (by decide +kernel) (by decide +kernel)

theorem Reached.acknowledged {cfg : Config} {c : Stream} (hreached : Reached cfg c) :
    Reached cfg (c.acknowledged (c.takeAcks cfg.ackSize).1 (c.takeAcks cfg.ackSize).2) := by
  have hstep : LowStep (Env.plain 0).alloc cfg.ackSize c
      (c.acknowledged (c.takeAcks cfg.ackSize).1 (c.takeAcks cfg.ackSize).2) := .ack _ _ (.inl rfl)
  exact hreached.step hstep

/-- The connection has the second byte, and has acknowledged it twice. -/
def Stream.saidTwice : Stream :=
  let stored := (Stream.opened.storeData (Env.plain 0).alloc secondByte).2
  let once := stored.acknowledged (stored.takeAcks 100).1 (stored.takeAcks 100).2
  once.acknowledged (once.takeAcks 100).1 (once.takeAcks 100).2

def fourthByte : DataPost :=
  { seq := 3, len := 1, fecSeq := 0, fecIndex := 0, data := [100] }

/-- Then the fourth byte has come: the map has its record, and no record of the second one. -/
def Stream.saidOther : Stream :=
  (Stream.saidTwice.storeData (Env.plain 0).alloc fourthByte).2

theorem reached_saidOther : Reached (.globalConfigInit Config.plainToken) Stream.saidOther := by
  have hstored : Reached _ (Stream.opened.storeData (Env.plain 0).alloc secondByte).2 :=
    reached_opened.step (.store secondByte rfl (by decide) (by decide))
  exact hstored.acknowledged.acknowledged.step (.store fourthByte rfl (by decide) (by decide))

def Alloc.noNode : Alloc :=
  { (Env.plain 0).alloc with node := false }

/-- The second byte arrives once more when there is no memory for a node: it gets no record, and the
record of the fourth byte stays the only one. -/
theorem not_sackComplete_noNode :
    Reached (.globalConfigInit Config.plainToken) Stream.saidOther ∧
      Stream.saidOther.sackMap.insertDies Alloc.noNode.node = false ∧
      (Stream.saidOther.storeData .noNode secondByte).1 = true ∧
      lessEqual (Stream.saidOther.storeData .noNode secondByte).2.rwinStart secondByte.seq = true ∧
      ¬ SackComplete (Stream.saidOther.storeData .noNode secondByte).2 secondByte.seq := by
  have hrecords : (Stream.saidOther.storeData .noNode secondByte).2.sackMap.toList.map Prod.fst =
      [3] := by
    decide +kernel
  refine ⟨reached_saidOther, by decide +kernel, by decide +kernel, by decide +kernel,
    fun hcomplete => ?_⟩
  obtain ⟨range, -, hstart, -, entry, hentry, hbelow, -⟩ := hcomplete.covered
  have hkey : entry.1 = 3 := by
    have hmem := List.mem_map_of_mem (f := Prod.fst) hentry
    rw [hrecords] at hmem
    exact List.mem_singleton.mp hmem
  rw [hkey] at hbelow
  exact absurd (hbelow.trans hstart) (by decide)

end Liteflow

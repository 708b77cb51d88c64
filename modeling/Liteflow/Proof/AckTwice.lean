import Liteflow.Proof.SackMap

/-!
# Every record is sent twice

The records of `sack_map` go out in the acknowledgements that `litedt_data_ack` builds, and leave the
map with the second one. An acknowledgement takes the records at the front of the map, so the loop
that sends acknowledgements while there are `ack_size` records ends: each turn brings at least one
record nearer to its end.

How often a record has been sent is counted from the acknowledgements themselves. `born` says how
many had been sent when the record was inserted or last extended; what the window has cut off a
record does not make it a new one.
-/

namespace Liteflow

open Intervals

/-! ### The loop that flushes -/

/-- The acknowledgements that a record will still be in. The count has 8 bits. -/
def sendsLeft (times : U8) : Nat :=
  if times = 0 then 2 else if times = 255 then 3 else 1

def sendsLeftOf : List (Nat × SackInfo) → Nat
  | [] => 0
  | entry :: rest => sendsLeft entry.2.sendTimes + sendsLeftOf rest

theorem sendsLeftOf_append (front rest : List (Nat × SackInfo)) :
    sendsLeftOf (front ++ rest) = sendsLeftOf front + sendsLeftOf rest := by
  induction front with
  | nil => exact (Nat.zero_add _).symm
  | cons entry front ih => rw [List.cons_append, sendsLeftOf, sendsLeftOf, ih, Nat.add_assoc]

theorem sendsLeft_succ (times : U8) :
    sendsLeft times = if 2 ≤ (times + 1).toNat then 1 else sendsLeft (times + 1) + 1 := by
  revert times
  decide

theorem sendsLeft_pos (times : U8) : 0 < sendsLeft times := by
  unfold sendsLeft
  split_ifs <;> decide

theorem sendsLeftOf_le (entries : List (Nat × SackInfo)) : sendsLeftOf entries ≤ 3 * entries.length := by
  induction entries with
  | nil => exact Nat.le_refl 0
  | cons entry rest ih =>
      have hentry : sendsLeft entry.2.sendTimes ≤ 3 := by
        unfold sendsLeft
        split_ifs <;> decide
      rw [sendsLeftOf, List.length_cons]
      omega

theorem sendsLeftOf_sentSack (entries : List (Nat × SackInfo)) :
    sendsLeftOf (entries.filterMap sentSack) + entries.length = sendsLeftOf entries := by
  induction entries with
  | nil => rfl
  | cons entry rest ih =>
      have hleft := sendsLeft_succ entry.2.sendTimes
      rw [filterMap_sentSack_cons, sendsLeftOf_append, List.length_cons, sendsLeftOf]
      by_cases hlast : 2 ≤ (entry.2.sendTimes + 1).toNat
      · have hgone : sentSack entry = none := if_pos hlast
        rw [if_pos hlast] at hleft
        rw [hgone, Option.toList_none, sendsLeftOf]
        omega
      · have hkept : sentSack entry =
            some (entry.1, { entry.2 with sendTimes := entry.2.sendTimes + 1 }) := if_neg hlast
        rw [if_neg hlast] at hleft
        rw [hkept, Option.toList_some, sendsLeftOf, sendsLeftOf]
        dsimp only
        omega

namespace Host

variable {h : Host} {flow : U32}

theorem find_litedtDataAck {conn : Conn} (hfind : h.findConnection flow = some conn) :
    (h.litedtDataAck flow true).cfg = h.cfg ∧
      ∃ conn', (h.litedtDataAck flow true).findConnection flow = some conn' ∧
        conn'.sackMap = (conn.takeAcks h.cfg.ackSize).2 := by
  obtain ⟨conn', hfind', hstream⟩ := find_modifyStream hfind
    (fun c => c.acknowledged (conn.takeAcks h.cfg.ackSize).1 (conn.takeAcks h.cfg.ackSize).2)
  have hsent : h.litedtDataAck flow true =
      (h.modifyStream flow (fun c => c.acknowledged (conn.takeAcks h.cfg.ackSize).1
        (conn.takeAcks h.cfg.ackSize).2)).emit
        (conn.ackFlight flow (conn.takeAcks h.cfg.ackSize).1)
        (sizeofLitedtHeader + sizeofDataAck + 8 * (conn.takeAcks h.cfg.ackSize).1.length) := by
    rw [litedtDataAck, hfind]
    rfl
  have hcfg : ((h.litedtDataAck flow true).view flow).cfg = h.cfg := by
    rw [hsent, view_emit]
    rfl
  refine ⟨hcfg, conn', ?_, congrArg Stream.sackMap hstream⟩
  rw [hsent, find_emit]
  exact hfind'

theorem sendsLeftOf_litedtDataAck {conn : Conn} {lo hi : Nat} {entries : List (Nat × SackInfo)}
    (hfind : h.findConnection flow = some conn) (hkeyed : Keyed conn.sackMap lo hi entries)
    (hne : 0 < entries.length) :
    ∃ conn' entries', (h.litedtDataAck flow true).findConnection flow = some conn' ∧
      Keyed conn'.sackMap lo hi entries' ∧ sendsLeftOf entries' < sendsLeftOf entries := by
  obtain ⟨-, conn', hfind', hmap⟩ := find_litedtDataAck hfind
  obtain ⟨-, hleft⟩ := hkeyed.collected h.cfg.ackSize
  have hroom := ackRoom_pos h.cfg.ackSize 0
  generalize ackRoom h.cfg.ackSize 0 = n at hleft hroom
  refine ⟨conn', _, hfind', by rw [hmap]; exact hleft, ?_⟩
  have hsent := sendsLeftOf_sentSack (entries.take n)
  have hsplit := sendsLeftOf_append (entries.take n) (entries.drop n)
  rw [List.take_append_drop] at hsplit
  rw [sendsLeftOf_append]
  rw [List.length_take] at hsent
  omega

theorem sackCount_flushAcks : ∀ (fuel : Nat) {h : Host} {conn : Conn} {lo hi : Nat}
    {entries : List (Nat × SackInfo)}, h.cfg.ackSize ≠ 0 → h.findConnection flow = some conn →
    Keyed conn.sackMap lo hi entries → sendsLeftOf entries ≤ fuel →
    (h.flushAcks flow fuel).sackCount flow < h.cfg.ackSize.toNat := by
  intro fuel
  induction fuel with
  | zero =>
      intro h conn lo hi entries hsize hfind hkeyed hleft
      have hpos : 0 < h.cfg.ackSize.toNat :=
        Nat.pos_of_ne_zero fun hzero => hsize (BitVec.eq_of_toNat_eq hzero)
      have hempty : entries = [] := by
        cases entries with
        | nil => rfl
        | cons entry rest =>
            rw [sendsLeftOf] at hleft
            have := sendsLeft_pos entry.2.sendTimes
            omega
      rw [flushAcks, sackCount, hfind]
      dsimp only
      rw [hkeyed.size, hempty]
      exact hpos
  | succ fuel ih =>
      intro h conn lo hi entries hsize hfind hkeyed hleft
      have hpos : 0 < h.cfg.ackSize.toNat :=
        Nat.pos_of_ne_zero fun hzero => hsize (BitVec.eq_of_toNat_eq hzero)
      rw [flushAcks]
      split
      · rename_i hfull
        have hcount : h.sackCount flow = entries.length := by
          rw [sackCount, hfind]
          exact hkeyed.size
        obtain ⟨conn', entries', hfind', hkeyed', hless⟩ :=
          sendsLeftOf_litedtDataAck hfind hkeyed (by omega)
        have hcfg := (find_litedtDataAck hfind).1
        rw [← hcfg] at hsize ⊢
        exact ih hsize hfind' hkeyed' (by omega)
      · rename_i hfull
        rw [not_and, Nat.not_le] at hfull
        exact hfull hsize

theorem sackCount_eq_of_view {h' : Host} (hview : h'.view flow = h.view flow) :
    h'.sackCount flow = h.sackCount flow := by
  have hcount (h : Host) : h.sackCount flow =
      ((h.view flow).stream.map (fun c => c.sackMap.treemapSize)).getD 0 := by
    rw [sackCount, view]
    cases h.findConnection flow <;> rfl
  rw [hcount, hview, ← hcount]

/-- The fuel is enough: behind the loop the list is not full any more. -/
theorem sackCount_acknowledge {conn : Conn} (hsize : h.cfg.ackSize ≠ 0)
    (hfind : h.findConnection flow = some conn) (hordered : conn.sackMap.Ordered) :
    (h.acknowledge flow).sackCount flow < h.cfg.ackSize.toNat := by
  have hreack (h : Host) : (h.reack flow).sackCount flow = h.sackCount flow :=
    sackCount_eq_of_view ((view_litedtModEvtime _ _).trans (view_modifyConn_flags fun _ => rfl))
  obtain ⟨lo, hi, entries, hkeyed⟩ := hordered.keyed
  rw [acknowledge, hfind]
  dsimp only
  split
  · rename_i hfull
    have hsent := sendsLeftOf_le entries
    rw [hkeyed.size] at hfull ⊢
    obtain ⟨conn', entries', hfind', hkeyed', hless⟩ :=
      sendsLeftOf_litedtDataAck hfind hkeyed (by
        have := BitVec.toNat_ne.mp hsize
        change h.cfg.ackSize.toNat ≠ 0 at this
        omega)
    rw [hreack, ← (find_litedtDataAck hfind).1]
    exact sackCount_flushAcks _ ((find_litedtDataAck hfind).1 ▸ hsize) hfind' hkeyed' (by omega)
  · rename_i hroom
    have hcount : h.sackCount flow < h.cfg.ackSize.toNat := by
      rw [sackCount, hfind]
      exact Nat.not_le.mp hroom
    refine lt_of_eq_of_lt (sackCount_eq_of_view ?_) hcount
    exact (view_litedtModEvtime _ _).trans (view_modifyConn_flags fun _ => rfl)

end Host

/-! ### How often a record has been sent -/

namespace Stream

/-- How often a range that ends at `fin` stands in the acknowledgements after the first `since`. -/
def timesSaid (c : Stream) (since : Nat) (fin : U32) : Nat :=
  ((c.acks.drop since).flatMap (fun sent => sent.ack.acks)).countP (fun pair => pair.2 = fin)

/-- The record that the record `sack` at `start` is, or is the end of. -/
def origin (c : Stream) (start : U32) (sack : SackInfo) : Option (U32 × SackInfo) :=
  c.sackMap.toList.find? (fun entry => entry.2.seqEnd = sack.seqEnd ∧ lessEqual entry.1 start)

/-- The number of acknowledgements sent when the record at `start` was inserted or last extended. -/
def bornAfter (c c' : Stream) (born : U32 → Nat) (start : U32) : Nat :=
  match (c'.sackMap.treemapValue start).bind (fun sack => c.origin start sack) with
  | some entry => born entry.1
  | none => c.acks.length

end Stream

inductive Tracked (cfg : Config) : Stream → (U32 → Nat) → Prop where
  | new (now : Time) (tunnelId : U16) (state : ConnState) :
      Tracked cfg (Host.newConn cfg now tunnelId state).toStream (fun _ => 0)
  | step {alloc : Alloc} {c c' : Stream} {born : U32 → Nat} (htracked : Tracked cfg c born)
      (hstep : LowStep alloc cfg.ackSize c c') : Tracked cfg c' (c.bornAfter c' born)

theorem Reached.exists_tracked {cfg : Config} {c : Stream} (hreached : Reached cfg c) :
    ∃ born, Tracked cfg c born := by
  induction hreached with
  | new now tunnelId state => exact ⟨_, .new now tunnelId state⟩
  | step _ hstep ih =>
      obtain ⟨born, htracked⟩ := ih
      exact ⟨_, htracked.step hstep⟩

structure Tallied (c : Stream) (born : U32 → Nat) (sacks : List Sack) : Prop where
  sacked : Sacked c.sackMap 0 sackTop sacks
  born_le : ∀ x ∈ sacks, born (wire x.start) ≤ c.acks.length
  times_eq : ∀ x ∈ sacks, c.timesSaid (born (wire x.start)) (wire x.fin) = x.times.toNat
  times_le : ∀ x ∈ sacks, x.times.toNat ≤ 1

section Origin

variable {c c' : Stream} {born : U32 → Nat} {sacks sacks' : List Sack} {x y : Sack}

theorem Sacked.fin_lt {t : Treemap U32 SackInfo} (hsacked : Sacked t 0 sackTop sacks) (hx : x ∈ sacks) :
    x.fin < 2 ^ 31 :=
  Nat.lt_of_le_pred (by decide) (hsacked.fin_le x hx)

theorem continues_iff {t t' : Treemap U32 SackInfo} (hsacked : Sacked t 0 sackTop sacks)
    (hsacked' : Sacked t' 0 sackTop sacks') (hy : y ∈ sacks) (hx : x ∈ sacks') :
    (wire y.fin = wire x.fin ∧ lessEqual (wire y.start) (wire x.start) = true) ↔
      y.fin = x.fin ∧ y.start ≤ x.start := by
  have hyfin := hsacked.fin_lt hy
  have hxfin := hsacked'.fin_lt hx
  have hylt := hsacked.start_lt y hy
  have hxlt := hsacked'.start_lt x hx
  rw [lessEqual_wire (by omega) (by omega)]
  refine and_congr_left fun _ => ⟨wire_inj (by omega) (by omega), congrArg wire⟩

theorem Sacked.value_of_mem {t : Treemap U32 SackInfo} (hsacked : Sacked t 0 sackTop sacks)
    (hx : x ∈ sacks) : t.treemapValue (wire x.start) = some x.entry.2 :=
  hsacked.keyed.value_of_mem (List.mem_map_of_mem hx)

theorem bornAfter_of_origin (hsacked : Sacked c.sackMap 0 sackTop sacks)
    (hsacked' : Sacked c'.sackMap 0 sackTop sacks') (hx : x ∈ sacks') (hy : y ∈ sacks)
    (hstart : y.start ≤ x.start) (hfin : y.fin = x.fin) :
    c.bornAfter c' born (wire x.start) = born (wire y.start) := by
  have hlist := hsacked.keyed.toList_eq
  rw [wireEntries, List.map_map] at hlist
  have hfound : ∃ entry, c.origin (wire x.start) x.entry.2 = some entry := by
    rw [← Option.isSome_iff_exists, Stream.origin, List.find?_isSome, hlist]
    refine ⟨_, List.mem_map_of_mem hy, ?_⟩
    exact decide_eq_true ((continues_iff hsacked hsacked' hy hx).mpr ⟨hfin, hstart⟩)
  obtain ⟨entry, hentry⟩ := hfound
  -- only one record ends there
  have hmem := List.mem_of_find?_eq_some hentry
  have hprop := List.find?_some hentry
  rw [hlist] at hmem
  obtain ⟨z, hz, rfl⟩ := List.mem_map.mp hmem
  have hsame := (continues_iff hsacked hsacked' hz hx).mp (of_decide_eq_true hprop)
  have hrange : z.range = y.range := hsacked.separated.eq_of_end (List.mem_map_of_mem hz)
    (List.mem_map_of_mem hy) (hsame.1.trans hfin.symm)
  rw [Stream.bornAfter, hsacked'.value_of_mem hx, Option.bind_some, hentry]
  exact congrArg (fun p => born (wire p)) (congrArg Prod.fst hrange)

theorem bornAfter_of_fresh (hsacked : Sacked c.sackMap 0 sackTop sacks)
    (hsacked' : Sacked c'.sackMap 0 sackTop sacks') (hx : x ∈ sacks')
    (hfresh : ∀ y ∈ sacks, y.start ≤ x.start → y.fin ≠ x.fin) :
    c.bornAfter c' born (wire x.start) = c.acks.length := by
  have hnone : c.origin (wire x.start) x.entry.2 = none := by
    rw [Stream.origin, List.find?_eq_none]
    intro entry hentry hprop
    rw [hsacked.keyed.toList_eq, wireEntries, List.map_map] at hentry
    obtain ⟨y, hy, rfl⟩ := List.mem_map.mp hentry
    obtain ⟨hfin, hstart⟩ := (continues_iff hsacked hsacked' hy hx).mp
      (of_decide_eq_true hprop)
    exact hfresh y hy hstart hfin
  rw [Stream.bornAfter, hsacked'.value_of_mem hx, Option.bind_some, hnone]

end Origin

/-! ### Steps -/

section Steps

open Rbuf

variable {c c' : Stream} {born : U32 → Nat} {sacks sacks' : List Sack} {more : List SentAck}

def saidIn (more : List SentAck) (fin : U32) : Nat :=
  (more.flatMap (fun sent => sent.ack.acks)).countP (fun pair => pair.2 = fin)

theorem timesSaid_append (hacks : c'.acks = c.acks ++ more) {since : Nat}
    (hsince : since ≤ c.acks.length) (fin : U32) :
    c'.timesSaid since fin = c.timesSaid since fin + saidIn more fin := by
  rw [Stream.timesSaid, hacks, List.drop_append_of_le_length hsince, List.flatMap_append,
    List.countP_append]
  rfl

/-- What a step has to show: each record goes on from one that was there, with the new
acknowledgements counted, or is a new one. -/
def Continues (sacks : List Sack) (more : List SentAck) (x : Sack) : Prop :=
  (∃ y ∈ sacks, y.start ≤ x.start ∧ y.fin = x.fin ∧
    x.times.toNat = y.times.toNat + saidIn more (wire x.fin)) ∨ x.Fresh sacks ∧ more = []

theorem Tallied.carry (htallied : Tallied c born sacks)
    (hsacked' : Sacked c'.sackMap 0 sackTop sacks') (hacks : c'.acks = c.acks ++ more)
    (hfrom : ∀ x ∈ sacks', Continues sacks more x) (htimes : ∀ x ∈ sacks', x.times.toNat ≤ 1) :
    Tallied c' (c.bornAfter c' born) sacks' := by
  have hlength : c.acks.length ≤ c'.acks.length := by
    rw [hacks, List.length_append]
    omega
  refine ⟨hsacked', fun x hx => ?_, fun x hx => ?_, htimes⟩
  · rcases hfrom x hx with ⟨y, hy, hstart, hfin, -⟩ | ⟨hfresh, -⟩
    · rw [bornAfter_of_origin htallied.sacked hsacked' hx hy hstart hfin]
      exact (htallied.born_le y hy).trans hlength
    · rw [bornAfter_of_fresh htallied.sacked hsacked' hx hfresh.2]
      exact hlength
  · rcases hfrom x hx with ⟨y, hy, hstart, hfin, hcount⟩ | ⟨hfresh, rfl⟩
    · rw [bornAfter_of_origin htallied.sacked hsacked' hx hy hstart hfin,
        timesSaid_append hacks (htallied.born_le y hy), ← hfin, htallied.times_eq y hy, hfin, hcount]
    · rw [bornAfter_of_fresh htallied.sacked hsacked' hx hfresh.2, timesSaid_append hacks le_rfl,
        Stream.timesSaid, List.drop_length, hfresh.1]
      rfl

theorem continues_self {x : Sack} (hx : x ∈ sacks) : Continues sacks [] x :=
  .inl ⟨x, hx, le_rfl, rfl, rfl⟩

theorem Tallied.of_same (htallied : Tallied c born sacks) (hmap : c'.sackMap = c.sackMap)
    (hacks : c'.acks = c.acks) : Tallied c' (c.bornAfter c' born) sacks := by
  have hsacked := htallied.sacked
  rw [← hmap] at hsacked
  exact htallied.carry hsacked (hacks.trans (List.append_nil _).symm) (fun x hx => continues_self hx)
    htallied.times_le

theorem window_le_start {rb : Rbuf} {ranges : List (Nat × Nat)} (hlow : LowRanges rb ranges)
    (hbase : ∀ range ∈ ranges, rb.startPos.toNat ≤ range.1) {range : Nat × Nat}
    (hrange : range ∈ ranges) (hin : (rb.startPos + rb.rbufReadableBytes).toNat < range.2) :
    (rb.startPos + rb.rbufReadableBytes).toNat ≤ range.1 := by
  by_cases hzero : rb.rbufReadableBytes = 0
  · rw [hzero]
    simpa using hbase range hrange
  · obtain ⟨fend, rest, rfl, hbytes⟩ := hlow.readable hzero
    obtain ⟨hlt, hgap, -⟩ := separated_cons.mp hlow.separated
    have hbelow := hlow.below (_, fend) (List.mem_cons_self ..)
    dsimp only at hbelow hlt hgap
    rw [BitVec.toNat_add, hbytes, Nat.mod_eq_of_lt (by omega), Nat.add_sub_of_le hlt.le] at hin ⊢
    rcases List.mem_cons.mp hrange with rfl | hrange
    · exact absurd hin (lt_irrefl _)
    · exact (hgap range hrange).le

theorem Rbuf.Ranged.base_le {rb : Rbuf} {base : Nat} {ranges low : List (Nat × Nat)}
    (hranged : Ranged rb base ranges) (hlow : LowRanges rb low) :
    ∀ range ∈ low, rb.startPos.toNat ≤ range.1 := by
  intro range hrange
  have hmem : (wire range.1, wire range.2) ∈ wireRanges ranges := by
    rw [← hranged.toList_eq, hlow.toList_eq]
    exact List.mem_map_of_mem hrange
  obtain ⟨place, hplace, heq⟩ := List.mem_map.mp hmem
  have hstart : wire place.1 = wire range.1 := congrArg Prod.fst heq
  have hinside := hranged.inside place hplace
  have hne := hranged.separated.nonempty place hplace
  have hspan := hranged.windowEnd_lt
  have hle : lessEqual rb.startPos (wire range.1) = true := by
    rw [hranged.start, ← hstart]
    exact (lessEqual_wire (by omega) (by omega)).mpr hinside.1
  have hlt := hlow.separated.nonempty range hrange
  have hbelow := hlow.below range hrange
  rwa [lessEqual_of_small hlow.start_lt (by rw [wire_toNat_of_lt] <;> omega),
    wire_toNat_of_lt (by omega)] at hle

theorem Sacked.push {t : Treemap U32 SackInfo} (hsacked : Sacked t 0 sackTop sacks) {w : Nat}
    (hw : w < 2 ^ 31) {range : Nat × Nat} (hstart : w ≤ range.1) (hlt : range.1 < range.2)
    (hbelow : range.2 < 2 ^ 31) (nodeAlloc : Bool) :
    ∃ sacks', Sacked (Stream.addSack nodeAlloc
        (Stream.expireSacks nodeAlloc (wire w) t.treemapSize t) (wire range.1) (wire range.2)) 0
        sackTop sacks' ∧
      ∀ x ∈ sacks', (∃ y ∈ sacks, y.start ≤ x.start ∧ y.fin = x.fin ∧ y.times = x.times) ∨
        x.Fresh sacks := by
  have hexpired := Sacked.expireSacks nodeAlloc (Nat.zero_le w) (Nat.le_pred_of_lt hw) sacks
    (show sacks.length ≤ t.treemapSize by rw [hsacked.keyed.size, List.length_map]) hsacked
  have hahead : ∀ z ∈ trimSacks nodeAlloc w sacks, w ≤ z.start := start_trimSacks hsacked.separated
  obtain ⟨sacks', hsacked', hfrom⟩ := hexpired.addSack_keeps hlt hbelow nodeAlloc
  refine ⟨sacks', hsacked', fun x hx => ?_⟩
  rcases hfrom x hx with hold | ⟨hfresh, hstarts, hnode⟩
  · exact .inl (mem_trimSacks hold)
  · refine .inr ⟨hfresh.1, fun y hy hys hyfin => ?_⟩
    have hxlt := hsacked'.start_lt x hx
    have hwx : w ≤ x.start := by
      rcases hstarts with ⟨_, hcovering, hle, -⟩ | hle
      · obtain ⟨z, hz, rfl⟩ := List.mem_map.mp hcovering
        exact (hahead z hz).trans hle
      · exact hstart.trans hle
    have htrimmed : (∃ z ∈ trimSacks nodeAlloc w sacks, z.start = max y.start w ∧ z.fin = y.fin) ∨
        nodeAlloc = false ∧ ∀ z ∈ trimSacks nodeAlloc w sacks, y.fin < z.start :=
      exists_trimSacks hsacked.separated hy (by omega)
    rcases htrimmed with ⟨z, hz, hzstart, hzfin⟩ | ⟨hfailed, hlater⟩
    · exact hfresh.2 z hz (hzstart.trans_le (max_le hys hwx)) (hzfin.trans hyfin)
    · -- the record is lost, and all others start behind it
      rcases hstarts with ⟨_, hcovering, hle, -⟩ | hle
      · obtain ⟨z, hz, rfl⟩ := List.mem_map.mp hcovering
        have := hlater z hz
        dsimp only [Sack.range] at hle
        omega
      · obtain ⟨z, hz, hzstart⟩ := hnode hfailed
        have := hlater z hz
        omega

theorem Tallied.storeData {alloc : Alloc} {post : DataPost} {ranges : List (Nat × Nat)}
    (htallied : Tallied c born sacks) (hlow : LowRanges c.recvBuf ranges) (hsized : post.Sized)
    (hlen : post.len ≠ 0) (hend : post.seq.toNat + post.data.length < 2 ^ 31)
    (hpromised' : Promised (c.storeData alloc post).2) :
    ∃ sacks', Tallied (c.storeData alloc post).2 (c.bornAfter (c.storeData alloc post).2 born)
      sacks' := by
  obtain ⟨ranges', hlow', hstart, hcovers⟩ := lowRanges_writtenAt alloc hlow hsized hlen hend
  cases hstored : (c.storeData alloc post).1 with
  | false =>
      exact ⟨sacks, htallied.of_same (storeData_of_refused hstored).2 (acks_storeData post)⟩
  | true =>
      obtain ⟨hret, heq⟩ := storeData_of_accepted hstored
      have hacks : (c.storeData alloc post).2.acks = c.acks := acks_storeData post
      rw [heq] at hpromised' hacks ⊢
      rcases pushSackMap_cases hlow' hstart (hcovers hret) alloc.node with
        ⟨-, hsame⟩ | ⟨range, hrange, -, hle, hlt, hahead, hpush⟩
      · rw [hsame] at hacks ⊢
        exact ⟨sacks, htallied.of_same rfl hacks⟩
      · rw [hpush] at hpromised' hacks ⊢
        obtain ⟨wide, hranged, -⟩ := hpromised'.ranged
        have hwindow : (c.writtenAt alloc post).rwinStart.toNat ≤ range.1 :=
          window_le_start hlow' (hranged.base_le hlow') hrange (hahead.trans_lt hlt)
        obtain ⟨sacks', hsacked', hfrom⟩ := htallied.sacked.push hstart hwindow (hle.trans_lt hlt)
          (hlow'.below range hrange) alloc.node
        rw [wire_of_toNat] at hsacked'
        refine ⟨sacks', htallied.carry hsacked' (hacks.trans (List.append_nil _).symm)
          (fun x hx => ?_) fun x hx => ?_⟩
        · refine (hfrom x hx).imp ?_ fun hfresh => ⟨hfresh, rfl⟩
          rintro ⟨y, hy, hys, hyfin, htimes⟩
          exact ⟨y, hy, hys, hyfin, by rw [htimes]; rfl⟩
        · rcases hfrom x hx with ⟨y, hy, -, -, htimes⟩ | hfresh
          · rw [← htimes]
            exact htallied.times_le y hy
          · rw [hfresh.1]
            exact Nat.zero_le _

theorem Sacked.nodup_fin {t : Treemap U32 SackInfo} (hsacked : Sacked t 0 sackTop sacks) :
    (sacks.map Sack.fin).Nodup := by
  have hgaps := hsacked.separated.gaps
  rw [List.pairwise_map] at hgaps
  refine List.pairwise_map.mpr (hgaps.imp_of_mem fun {a b} _ hb hgap => ?_)
  exact (hgap.trans (hsacked.start_lt b hb)).ne

theorem Sacked.said_eq_count {t : Treemap U32 SackInfo} (hsacked : Sacked t 0 sackTop sacks)
    {front : List Sack} (hfront : ∀ x ∈ front, x ∈ sacks) {y : Sack} (hy : y ∈ sacks) :
    (front.map (fun x => (wire x.start, wire x.fin))).countP (fun pair => pair.2 = wire y.fin) =
      (front.map Sack.fin).count y.fin := by
  rw [List.count, List.countP_map, List.countP_map]
  refine List.countP_congr fun x hx => ?_
  have hxfin := hsacked.fin_lt (hfront x hx)
  have hyfin := hsacked.fin_lt hy
  change decide (wire x.fin = wire y.fin) = true ↔ (x.fin == y.fin) = true
  rw [decide_eq_true_iff, beq_iff_eq]
  exact ⟨wire_inj (by omega) (by omega), congrArg wire⟩

theorem mem_sentSacks (htimes : ∀ y ∈ sacks, y.times.toNat ≤ 1) {n : Nat} {x : Sack}
    (hx : x ∈ sentSacks n sacks) :
    (∃ y ∈ sacks.take n, y.start = x.start ∧ y.fin = x.fin ∧
        x.times.toNat = y.times.toNat + 1 ∧ x.times.toNat ≤ 1) ∨ x ∈ sacks.drop n := by
  refine (List.mem_append.mp hx).imp_left fun hsent => ?_
  obtain ⟨y, hy, heq⟩ := List.mem_filterMap.mp hsent
  rw [Sack.sent] at heq
  split at heq
  · cases heq
  · rename_i hmore
    obtain rfl := Option.some.inj heq
    refine ⟨y, hy, rfl, rfl, ?_, ?_⟩
    · have hle := htimes y (List.mem_of_mem_take hy)
      change (y.times + 1).toNat = _
      rw [BitVec.toNat_add]
      exact Nat.mod_eq_of_lt (lt_of_le_of_lt (Nat.add_le_add_right hle 1) (by decide))
    · dsimp only
      omega

section Said

variable {t : Treemap U32 SackInfo} {n : Nat} {sent : SentAck} {y : Sack}

theorem Sacked.saidIn_front (hsacked : Sacked t 0 sackTop sacks)
    (hsent : sent.ack.acks = (sacks.take n).map (fun x => (wire x.start, wire x.fin)))
    (hy : y ∈ sacks.take n) : saidIn [sent] (wire y.fin) = 1 := by
  have hnodup := hsacked.nodup_fin.sublist ((List.take_sublist n sacks).map Sack.fin)
  rw [saidIn, List.flatMap_singleton, hsent, hsacked.said_eq_count (fun _ => List.mem_of_mem_take)
    (List.mem_of_mem_take hy)]
  exact List.count_eq_one_of_mem hnodup (List.mem_map_of_mem hy)

theorem Sacked.saidIn_rest (hsacked : Sacked t 0 sackTop sacks)
    (hsent : sent.ack.acks = (sacks.take n).map (fun x => (wire x.start, wire x.fin)))
    (hy : y ∈ sacks.drop n) : saidIn [sent] (wire y.fin) = 0 := by
  have hnodup := hsacked.nodup_fin
  rw [← List.take_append_drop n sacks, List.map_append] at hnodup
  rw [saidIn, List.flatMap_singleton, hsent, hsacked.said_eq_count (fun _ => List.mem_of_mem_take)
    (List.mem_of_mem_drop hy)]
  refine List.count_eq_zero_of_not_mem fun htaken => ?_
  exact List.disjoint_of_nodup_append hnodup htaken (List.mem_map_of_mem hy)

end Said

theorem Tallied.takeAcks {cfg : Config} (hack : Build.AckFits cfg) (htallied : Tallied c born sacks) :
    Tallied (c.acknowledged (c.takeAcks cfg.ackSize).1 (c.takeAcks cfg.ackSize).2)
      (c.bornAfter (c.acknowledged (c.takeAcks cfg.ackSize).1 (c.takeAcks cfg.ackSize).2) born)
      (sentSacks (ackRoom cfg.ackSize 0) sacks) := by
  obtain ⟨hpairs, hleft⟩ := htallied.sacked.collected cfg.ackSize
  rw [Build.takeAcks_of_fits hack, hpairs]
  generalize ackRoom cfg.ackSize 0 = n at hleft ⊢
  refine htallied.carry hleft rfl (fun x hx => .inl ?_) fun x hx => ?_
  · rcases mem_sentSacks htallied.times_le hx with ⟨y, hy, hstart, hfin, htimes, -⟩ | hdrop
    · refine ⟨y, List.mem_of_mem_take hy, hstart.le, hfin, htimes.trans (congrArg _ ?_)⟩
      rw [← hfin, htallied.sacked.saidIn_front rfl hy]
    · refine ⟨x, List.mem_of_mem_drop hdrop, le_rfl, rfl, ?_⟩
      rw [htallied.sacked.saidIn_rest rfl hdrop, Nat.add_zero]
  · rcases mem_sentSacks htallied.times_le hx with ⟨y, hy, -, -, -, hle⟩ | hdrop
    · exact hle
    · exact htallied.times_le x (List.mem_of_mem_drop hdrop)

end Steps

/-! ### Histories -/

section Tracked

variable {cfg : Config} {c c' : Stream} {born : U32 → Nat}

theorem LowStep.receiverStep {alloc : Alloc} {ackSize : U32} (hstep : LowStep alloc ackSize c c') :
    ReceiverStep alloc ackSize c c' := by
  cases hstep with
  | same hsame => exact .same hsame
  | store post hsized hlen => exact .store post hsized hlen
  | read size hsize hreleased => exact .read size hsize hreleased
  | ack acks sackMap hacks => exact .ack acks sackMap hacks

theorem Tracked.reached (htracked : Tracked cfg c born) : Reached cfg c := by
  induction htracked with
  | new now tunnelId state => exact .new now tunnelId state
  | step _ hstep ih => exact ih.step hstep

theorem Tracked.promised (hsmall : cfg.blocksCount * rbufBlockSize < 2 ^ 31)
    (htracked : Tracked cfg c born) : Promised c := by
  induction htracked with
  | new now tunnelId state => exact promised_newConn hsmall now tunnelId state
  | step _ hstep ih => exact ih.step hstep.receiverStep

theorem Tallied.step {alloc : Alloc} {sacks : List Sack} (hack : Build.AckFits cfg)
    (htallied : Tallied c born sacks) (horderly : Orderly c) (hpromised' : Promised c')
    (hstep : LowStep alloc cfg.ackSize c c') : ∃ sacks', Tallied c' (c.bornAfter c' born) sacks' := by
  cases hstep with
  | same hsame => exact ⟨sacks, htallied.of_same hsame.sackMap_eq hsame.acks_eq⟩
  | store post hsized hlen hend =>
      obtain ⟨ranges, hlow⟩ := horderly.ranges
      exact htallied.storeData hlow hsized hlen hend hpromised'
  | read size hsize hreleased =>
      obtain ⟨recvBuf, -, rfl⟩ := Option.map_eq_some_iff.mp hreleased
      exact ⟨sacks, htallied.of_same rfl rfl⟩
  | ack acks sackMap hacks =>
      rcases hacks with hacks | hacks
      · cases hacks
        exact ⟨_, htallied.takeAcks hack⟩
      · cases hacks
        refine ⟨sacks, htallied.carry htallied.sacked rfl (fun x hx => .inl ?_) htallied.times_le⟩
        exact ⟨x, hx, le_rfl, rfl, rfl⟩

theorem Tracked.tallied (hsmall : cfg.blocksCount * rbufBlockSize < 2 ^ 31)
    (hack : Build.AckFits cfg) (htracked : Tracked cfg c born) : ∃ sacks, Tallied c born sacks := by
  induction htracked with
  | new now tunnelId state =>
      obtain ⟨-, sacks, hsacked⟩ := orderly_newConn cfg now tunnelId state
      have hempty : sacks = [] := List.map_eq_nil_iff.mp (List.map_eq_nil_iff.mp hsacked.keyed.toList_eq.symm)
      subst hempty
      exact ⟨[], hsacked, by simp, by simp, by simp⟩
  | step hbefore hstep ih =>
      obtain ⟨sacks, htallied⟩ := ih
      exact htallied.step hack hbefore.reached.orderly ((hbefore.step hstep).promised hsmall) hstep

end Tracked

/-! ### Acknowledgements -/

/-- The next `litedt_data_ack` writes each record at the front of the map once, and drops those that
it says for the second time. -/
structure SaidTwice (ackSize : U32) (born : U32 → Nat) (c : Stream) : Prop where
  written : (c.takeAcks ackSize).1 =
    (c.sackMap.toList.take (max 1 ackSize.toNat)).map (fun entry => (entry.1, entry.2.seqEnd))
  once : (c.takeAcks ackSize).1.Nodup
  dropped : ∀ entry ∈ c.sackMap.toList,
    (∃ left ∈ (c.takeAcks ackSize).2.toList,
      left.1 = entry.1 ∧ left.2.seqEnd = entry.2.seqEnd) ∨
    (c.acknowledged (c.takeAcks ackSize).1 (c.takeAcks ackSize).2).timesSaid (born entry.1)
      entry.2.seqEnd = 2

section SaidTwice

variable {cfg : Config} {c : Stream} {born : U32 → Nat} {sacks : List Sack}

theorem Sacked.pairs_eq {t : Treemap U32 SackInfo} (hsacked : Sacked t 0 sackTop sacks) (n : Nat) :
    (t.toList.take n).map (fun entry => (entry.1, entry.2.seqEnd)) =
      (sacks.take n).map (fun x => (wire x.start, wire x.fin)) := by
  rw [hsacked.keyed.toList_eq, wireEntries, List.map_map, ← List.map_take, List.map_map]
  rfl

theorem Sacked.nodup_pairs {t : Treemap U32 SackInfo} (hsacked : Sacked t 0 sackTop sacks) (n : Nat) :
    ((sacks.take n).map (fun x => (wire x.start, wire x.fin))).Nodup := by
  have hfins := hsacked.nodup_fin.sublist ((List.take_sublist n sacks).map Sack.fin)
  rw [List.Nodup, List.pairwise_map] at hfins ⊢
  refine hfins.imp_of_mem fun {a b} ha hb hne heq => hne ?_
  have hafin := hsacked.fin_lt (List.mem_of_mem_take ha)
  have hbfin := hsacked.fin_lt (List.mem_of_mem_take hb)
  exact wire_inj (by omega) (by omega) (congrArg Prod.snd heq)

theorem Tallied.saidTwice (hack : Build.AckFits cfg) (htallied : Tallied c born sacks) :
    SaidTwice cfg.ackSize born c := by
  obtain ⟨hpairs, hleft⟩ := htallied.sacked.collected cfg.ackSize
  have hroom : ackRoom cfg.ackSize 0 = max 1 cfg.ackSize.toNat := rfl
  have hlist := htallied.sacked.keyed.toList_eq
  have hlist' := hleft.keyed.toList_eq
  rw [wireEntries, List.map_map] at hlist hlist'
  have htaken := Build.takeAcks_of_fits hack c
  refine ⟨?_, ?_, fun entry hentry => ?_⟩
  · rw [htaken, hpairs, hroom, htallied.sacked.pairs_eq]
  · rw [htaken, hpairs]
    exact htallied.sacked.nodup_pairs _
  · rw [hlist] at hentry
    obtain ⟨y, hy, rfl⟩ := List.mem_map.mp hentry
    rw [htaken, hlist', hpairs]
    generalize ackRoom cfg.ackSize 0 = n
    rw [← List.take_append_drop n sacks, List.mem_append] at hy
    rcases hy with hfront | hrest
    · by_cases hlast : 2 ≤ (y.times + 1).toNat
      · refine .inr ?_
        have hmem := List.mem_of_mem_take hfront
        have hle := htallied.times_le y hmem
        have hone : y.times.toNat = 1 := by
          rw [BitVec.toNat_add] at hlast
          have hadd := Nat.mod_le (y.times.toNat + (1 : U8).toNat) (2 ^ 8)
          have honeVal : (1 : U8).toNat = 1 := rfl
          omega
        change Stream.timesSaid _ (born (wire y.start)) (wire y.fin) = 2
        rw [timesSaid_append rfl (htallied.born_le y hmem), htallied.times_eq y hmem,
          htallied.sacked.saidIn_front rfl hfront, hone]
      · refine .inl ⟨_, List.mem_map_of_mem (List.mem_append_left _ (List.mem_filterMap.mpr
          ⟨y, hfront, if_neg hlast⟩)), rfl, rfl⟩
    · exact .inl ⟨_, List.mem_map_of_mem (List.mem_append_right _ hrest), rfl, rfl⟩

end SaidTwice

/-- Acknowledgements that fit the message, and streams of less than `2 ^ 31` bytes: the loop of
`litedt_on_data_recv` ends, and each record is said twice. -/
theorem acks_flushed_and_said_twice {cfg : Config} (hack : Build.AckFits cfg)
    (hsmall : cfg.blocksCount * rbufBlockSize < 2 ^ 31) :
    (∀ {h : Host} {flow : U32} {conn : Conn}, h.cfg = cfg → cfg.ackSize ≠ 0 →
      h.findConnection flow = some conn → conn.sackMap.Ordered →
      (h.acknowledge flow).sackCount flow < cfg.ackSize.toNat ∧
        ∃ turns, ∀ fuel, turns ≤ fuel → (h.flushAcks flow fuel).sackCount flow < cfg.ackSize.toNat) ∧
    (∀ (nodeId : U16) (now : Time) (events : List (Env × HostEvent)) (flow : U32) (c : Stream),
      ((Host.litedtInit cfg nodeId now).run events).Incarnation flow c → c.Below →
      ∃ born, Tracked cfg c born) ∧
    ∀ (c : Stream) (born : U32 → Nat), Tracked cfg c born → SaidTwice cfg.ackSize born c := by
  refine ⟨?_, fun nodeId now events flow c hc hbelow => ?_, fun c born htracked => ?_⟩
  · rintro h flow conn rfl hsize hfind hordered
    obtain ⟨lo, hi, entries, hkeyed⟩ := hordered.keyed
    refine ⟨Host.sackCount_acknowledge hsize hfind hordered, ?_⟩
    exact ⟨_, fun fuel hfuel => Host.sackCount_flushAcks fuel hsize hfind hkeyed hfuel⟩
  · exact (Host.reached_run hsmall nodeId now hc hbelow).exists_tracked
  · obtain ⟨sacks, htallied⟩ := htracked.tallied hsmall hack
    exact htallied.saidTwice hack

/-- The connection has the second byte, acknowledged once, and the fourth. -/
def Stream.saidOnce : Stream :=
  let stored := (Stream.opened.storeData (Env.plain 0).alloc secondByte).2
  ((stored.acknowledged (stored.takeAcks 100).1 (stored.takeAcks 100).2).storeData (Env.plain 0).alloc
    fourthByte).2

theorem said_twice_twoRecords :
    Stream.saidOnce.sackMap.toList.map (fun record => (record.1, record.2.sendTimes)) =
        [(1, 1), (3, 0)] ∧
      ∃ born, SaidTwice 100 born Stream.saidOnce := by
  have hstored : Reached (.globalConfigInit Config.plainToken)
      (Stream.opened.storeData (Env.plain 0).alloc secondByte).2 :=
    reached_opened.step (.store secondByte rfl (by decide) (by decide))
  have hreached : Reached (.globalConfigInit Config.plainToken) Stream.saidOnce :=
    hstored.acknowledged.step (.store fourthByte rfl (by decide) (by decide))
  have hack : Build.AckFits (.globalConfigInit Config.plainToken) :=
    show 8 + 9 + 8 * 100 ≤ 1428 by decide
  obtain ⟨born, htracked⟩ := hreached.exists_tracked
  exact ⟨by decide +kernel, born,
    (acks_flushed_and_said_twice hack (by decide)).2.2 _ born htracked⟩

/-! ### A count of 8 bits -/

def Config.manyAcks : Config :=
  { Config.globalConfigInit Config.plainToken with ackSize := 256 }

def oddByte (n : Nat) : DataPost :=
  { seq := .ofNat 32 (2 * n + 1), len := 1, fecSeq := 0, fecIndex := 0, data := [98] }

/-- A connection that has got the last `n` of 256 such bytes, from the last one on. -/
def Stream.oddStored : Nat → Stream
  | 0 => (Host.newConn Config.manyAcks 0 0 .established).toStream
  | n + 1 => ((Stream.oddStored n).storeData (Env.plain 0).alloc (oddByte (255 - n))).2

theorem exists_tracked_oddStored (n : Nat) : ∃ born, Tracked Config.manyAcks (Stream.oddStored n) born := by
  induction n with
  | zero => exact ⟨_, .new 0 0 .established⟩
  | succ n ih =>
      obtain ⟨born, htracked⟩ := ih
      have hend : (oddByte (255 - n)).seq.toNat + 1 < 2 ^ 31 := by
        have hmod := Nat.mod_le (2 * (255 - n) + 1) (2 ^ 32)
        rw [oddByte, BitVec.toNat_ofNat]
        omega
      have hstep : LowStep (Env.plain 0).alloc Config.manyAcks.ackSize (Stream.oddStored n)
          (Stream.oddStored (n + 1)) :=
        .store (oddByte (255 - n)) rfl (show (1 : U16) ≠ 0 by decide) hend
      exact ⟨_, htracked.step hstep⟩

theorem not_saidTwice_of_size {c : Stream} {born : U32 → Nat}
    (htracked : Tracked Config.manyAcks c born) (hsize : c.sackMap.treemapSize = 256) :
    ¬SaidTwice Config.manyAcks.ackSize born c := by
  intro hsaid
  obtain ⟨-, sacks, hsacked⟩ := htracked.reached.orderly
  have hlength : sacks.length = 256 := by
    rw [← hsize, hsacked.keyed.size, List.length_map]
  have hcollected := (hsacked.collected Config.manyAcks.ackSize).1
  rw [List.take_of_length_le (hlength.trans_le (by decide))] at hcollected
  -- the message says that there are `256 % 256` of them
  have hnone : (c.takeAcks Config.manyAcks.ackSize).1 = [] := by
    unfold Stream.takeAcks
    dsimp only
    rw [hcollected, List.length_map, hlength]
    rfl
  have hwritten := congrArg List.length hsaid.written
  rw [hnone, hsacked.pairs_eq, List.length_map, List.length_take, hlength] at hwritten
  exact absurd hwritten (by decide)

theorem not_said_twice_oddStored :
    ∃ born, Tracked Config.manyAcks (Stream.oddStored 256) born ∧
      ¬SaidTwice Config.manyAcks.ackSize born (Stream.oddStored 256) := by
  obtain ⟨born, htracked⟩ := exists_tracked_oddStored 256
  exact ⟨born, htracked, not_saidTwice_of_size htracked (by decide +kernel)⟩

end Liteflow

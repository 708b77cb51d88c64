import Liteflow.Proof.Bookkeeping

/-!
# The order of the waiting queue

A new or requeued entry gets a `retrans_time` that is not before that of the last waiting one, so the
waiting queue is in the order of `retrans_time`. `retrans_time_event` stops at the first entry whose
time has not come, and because of the order it has then met every entry whose time has come.
-/

namespace Liteflow

variable {c c' : Stream} {ready : U32 → Nat} {lo snd fin : Nat}
  {packets : List (Nat × PacketEntry)}

/-! ### Entries of the packet list -/

theorem Outstanding.mem_toList (hout : Outstanding c ready lo snd packets) {key : U32}
    {packet : PacketEntry} :
    (key, packet) ∈ c.packetList.toList ↔ ∃ p, wire p = key ∧ (p, packet) ∈ packets := by
  rw [hout.keyed.toList_eq, wireEntries, List.mem_map]
  constructor
  · rintro ⟨⟨p, entry⟩, he, heq⟩
    obtain ⟨hkey, rfl⟩ := Prod.mk.inj heq
    exact ⟨p, hkey, he⟩
  · rintro ⟨p, rfl, he⟩
    exact ⟨(p, packet), he, rfl⟩

theorem Outstanding.packet_unique (hout : Outstanding c ready lo snd packets)
    {e e' : U32 × PacketEntry} (hmem : e ∈ c.packetList.toList) (hmem' : e' ∈ c.packetList.toList)
    (hkey : e.1 = e'.1) : e.2 = e'.2 := by
  obtain ⟨p, hp, he⟩ := hout.mem_toList.mp hmem
  obtain ⟨q, hq, he'⟩ := hout.mem_toList.mp hmem'
  exact (hout.keyed.mem_inj he he' (hp.trans (hkey.trans hq.symm))).2

theorem Outstanding.value_iff (hout : Outstanding c ready lo snd packets) {key : U32}
    {packet : PacketEntry} :
    c.packetList.treemapValue key = some packet ↔ (key, packet) ∈ c.packetList.toList := by
  refine ⟨Treemap.mem_of_treemapValue, fun hmem => ?_⟩
  obtain ⟨p, rfl, he⟩ := hout.mem_toList.mp hmem
  exact hout.keyed.value_of_mem he

theorem Outstanding.waiting_iff (hout : Outstanding c ready lo snd packets) {key : U32}
    {packet : PacketEntry} (hmem : (key, packet) ∈ c.packetList.toList) :
    key ∈ c.waitingQueue ↔ packet.isReady = false := by
  obtain ⟨p, rfl, he⟩ := hout.mem_toList.mp hmem
  rw [hout.mem_waiting]
  constructor
  · rintro ⟨e, he', hkey, hisReady⟩
    rwa [(hout.keyed.mem_inj he' he hkey).2] at hisReady
  · exact fun hisReady => ⟨(p, packet), he, rfl, hisReady⟩

theorem Outstanding.exists_waiting (hout : Outstanding c ready lo snd packets) {key : U32}
    (hkey : key ∈ c.waitingQueue) :
    ∃ packet, (key, packet) ∈ c.packetList.toList ∧ packet.isReady = false := by
  obtain ⟨⟨p, packet⟩, he, rfl, hisReady⟩ := (hout.mem_waiting key).mp hkey
  exact ⟨packet, hout.mem_toList.mpr ⟨p, rfl, he⟩, hisReady⟩

theorem Outstanding.get_of_mem (hout : Outstanding c ready lo snd packets) {key : U32}
    {packet : PacketEntry} (hmem : (key, packet) ∈ c.packetList.toList) :
    c.packetList.treemapGet seqCmp key = some packet := by
  obtain ⟨p, rfl, he⟩ := hout.mem_toList.mp hmem
  obtain ⟨before, after, rfl⟩ := List.append_of_mem he
  exact hout.keyed.get_split

namespace Stream

theorem enter_cases (c : Stream) (packet : PacketEntry) :
    (c.packetList.treemapGet seqCmp packet.seq ≠ none ∧ c.enter true packet = c) ∨
      (c.packetList.treemapGet seqCmp packet.seq = none ∧
        ∃ list, list.toList.Perm ((packet.seq, packet) :: c.packetList.toList) ∧
          c.enter true packet =
            { c with packetList := list, waitingQueue := c.waitingQueue ++ [packet.seq] }) := by
  unfold enter
  cases hget : c.packetList.treemapGet seqCmp packet.seq with
  | some found => exact .inl ⟨by simp, rfl⟩
  | none =>
      have hret := Treemap.treemapInsert_of_get_none hget packet
      have hperm := Treemap.treemapInsert_perm seqCmp c.packetList packet.seq packet
      rw [if_pos hret] at hperm
      refine .inr ⟨rfl, _, hperm, ?_⟩
      rcases hinsert : c.packetList.treemapInsert seqCmp packet.seq packet with ⟨ret, list⟩
      rw [hinsert] at hret
      obtain rfl : ret = 0 := hret
      simp [addPacket, hinsert]

def Sorted (c : Stream) : Prop :=
  c.waitingQueue.Pairwise (fun a b => ∀ p q, (a, p) ∈ c.packetList.toList →
    (b, q) ∈ c.packetList.toList → p.retransTime ≤ q.retransTime)

/-! ### Entries that leave -/

structure Thinned (c c' : Stream) : Prop where
  queue : c'.waitingQueue.Sublist c.waitingQueue
  times : ∀ key packet, (key, packet) ∈ c'.packetList.toList →
    ∃ before, (key, before) ∈ c.packetList.toList ∧ packet.retransTime = before.retransTime

theorem thinned_of_eq (hlist : c'.packetList = c.packetList)
    (hqueue : c'.waitingQueue = c.waitingQueue) : Thinned c c' where
  queue := hqueue ▸ List.Sublist.refl _
  times := fun _ packet hmem => ⟨packet, hlist ▸ hmem, rfl⟩

theorem Thinned.trans {c'' : Stream} (h : Thinned c c') (h' : Thinned c' c'') : Thinned c c'' where
  queue := h'.queue.trans h.queue
  times := fun key packet hmem => by
    obtain ⟨between, hbetween, htime⟩ := h'.times key packet hmem
    obtain ⟨before, hbefore, htime'⟩ := h.times key between hbetween
    exact ⟨before, hbefore, htime.trans htime'⟩

theorem Sorted.of_thinned (hsorted : c.Sorted) (h : Thinned c c') : c'.Sorted := by
  refine (hsorted.sublist h.queue).imp fun hle p q hp hq => ?_
  obtain ⟨p', hp', htime⟩ := h.times _ _ hp
  obtain ⟨q', hq', htime'⟩ := h.times _ _ hq
  rw [htime, htime']
  exact hle p' q' hp' hq'

theorem moveSwin_lists {nodeAlloc : Bool} {time : Time} {ack : DataAck}
    (hmoved : c.moveSwin nodeAlloc time ack = some c') :
    c'.packetList = c.packetList ∧ c'.waitingQueue = c.waitingQueue := by
  unfold moveSwin at hmoved
  dsimp only at hmoved
  split at hmoved
  · obtain rfl := Option.some.inj hmoved
    exact ⟨rfl, rfl⟩
  · obtain ⟨sendBuf, -, rfl⟩ := Option.map_eq_some_iff.mp hmoved
    exact ⟨rfl, rfl⟩

theorem thinned_removePacket (c : Stream) (key : U32) (packet : PacketEntry) :
    Thinned c (c.removePacket key packet) where
  queue := by
    unfold removePacket
    dsimp only
    split
    · exact List.Sublist.refl _
    · exact List.erase_sublist
  times := fun _ packet hmem => ⟨packet, Treemap.treemapDelete_subset _ _ _ hmem, rfl⟩

theorem thinned_setReady (c : Stream) (key : U32) : Thinned c (c.setReady key) where
  queue := List.erase_sublist
  times := fun key' packet hmem => by
    obtain ⟨before, hbefore, hpacket⟩ := Treemap.mem_treemapSetValue hmem
    refine ⟨before, hbefore, ?_⟩
    dsimp only at hpacket
    rw [hpacket]
    split <;> rfl

theorem thinned_releaseRange (c : Stream) (seqStart seqEnd : U32) :
    Thinned c (c.releaseRange seqStart seqEnd).1 :=
  releaseRange_keeps (fun c' key packet h => h.trans (thinned_removePacket c' key packet)) _ _
    (thinned_of_eq rfl rfl)

theorem thinned_checkpoint (c : Stream) (swndStart : U32) :
    Thinned c (c.checkpoint swndStart).1 :=
  checkpoint_keeps (fun c' key packet h => h.trans (thinned_removePacket c' key packet)) _
    (thinned_of_eq rfl rfl)

theorem thinned_readyLoop (time : Time) (queue : List U32) (c : Stream) :
    Thinned c (c.readyLoop time queue).1 :=
  readyLoop_keeps (fun c' key h => h.trans (thinned_setReady c' key)) _ _ (thinned_of_eq rfl rfl)

/-! ### Entries that join -/

theorem Sorted.le_afterLastWaiting (hsorted : c.Sorted) (hout : Outstanding c ready lo snd packets)
    {key : U32} {packet : PacketEntry} (hkey : key ∈ c.waitingQueue)
    (hmem : (key, packet) ∈ c.packetList.toList) (time : Time) :
    packet.retransTime ≤ c.afterLastWaiting time := by
  have hne : c.waitingQueue ≠ [] := List.ne_nil_of_mem hkey
  obtain ⟨last, hlast, -⟩ := hout.exists_waiting (List.getLast_mem hne)
  have htime : last.retransTime ≤ c.afterLastWaiting time := by
    unfold afterLastWaiting
    rw [List.getLast?_eq_some_getLast hne, Option.bind_some, hout.value_iff.mpr hlast]
    dsimp only
    split
    · exact le_refl _
    · exact not_lt.mp ‹_›
  refine le_trans ?_ htime
  unfold Sorted at hsorted
  rw [← List.dropLast_append_getLast hne, List.pairwise_append] at hsorted
  rw [← List.dropLast_append_getLast hne] at hkey
  rcases List.mem_append.mp hkey with hfront | hback
  · exact hsorted.2.2 key hfront _ (List.mem_singleton_self _) packet last hmem hlast
  · have heq : packet = last := hout.packet_unique hmem hlast (List.mem_singleton.mp hback)
    rw [heq]

theorem Sorted.append (hsorted : c.Sorted) (hout : Outstanding c ready lo snd packets) {key : U32}
    (time : Time) (hqueue : c'.waitingQueue = c.waitingQueue ++ [key])
    (hnew : key ∉ c.waitingQueue)
    (hothers : ∀ key' packet, key' ≠ key → (key', packet) ∈ c'.packetList.toList →
      (key', packet) ∈ c.packetList.toList)
    (hjoins : ∀ packet, (key, packet) ∈ c'.packetList.toList →
      packet.retransTime = c.afterLastWaiting time) : c'.Sorted := by
  have hne : ∀ key' ∈ c.waitingQueue, key' ≠ key := fun key' hkey' heq => hnew (heq ▸ hkey')
  unfold Sorted
  rw [hqueue, List.pairwise_append]
  refine ⟨?_, List.pairwise_singleton _ _, fun a ha b hb p q hp hq => ?_⟩
  · refine (List.Pairwise.and_mem.mp hsorted).imp fun hle p q hp hq => ?_
    obtain ⟨ha, hb, hle⟩ := hle
    exact hle p q (hothers _ p (hne _ ha) hp) (hothers _ q (hne _ hb) hq)
  · obtain rfl := List.mem_singleton.mp hb
    rw [hjoins q hq]
    exact hsorted.le_afterLastWaiting hout ha (hothers a p (hne a ha) hp) time

theorem Sorted.requeue (hsorted : c.Sorted) (hout : Outstanding c ready lo snd packets) (time : Time)
    {key : U32} (hnew : key ∉ c.waitingQueue) : (c.requeue key time).Sorted := by
  refine hsorted.append hout time rfl hnew (fun key' packet hkey' hmem => ?_) (fun packet hmem => ?_)
  · obtain ⟨before, hbefore, hpacket⟩ := Treemap.mem_treemapSetValue hmem
    dsimp only at hpacket
    rw [if_neg hkey'] at hpacket
    exact hpacket ▸ hbefore
  · obtain ⟨before, hbefore, hpacket⟩ := Treemap.mem_treemapSetValue hmem
    dsimp only at hpacket
    rw [if_pos rfl] at hpacket
    exact hpacket ▸ rfl

theorem Sorted.enter (hsorted : c.Sorted) (hout : Outstanding c ready lo snd packets) {time : Time}
    {packet : PacketEntry} (htime : packet.retransTime = c.afterLastWaiting time) :
    (c.enter true packet).Sorted := by
  rcases enter_cases c packet with ⟨-, henter⟩ | ⟨hget, list, hperm, henter⟩
  · rwa [henter]
  · have habsent : ∀ packet', (packet.seq, packet') ∉ c.packetList.toList := fun packet' hmem => by
      rw [hout.get_of_mem hmem] at hget
      exact absurd hget (by simp)
    rw [henter]
    refine hsorted.append hout time rfl (fun hkey => ?_) (fun key packet' hkey hmem => ?_)
      (fun packet' hmem => ?_)
    · obtain ⟨packet', hmem, -⟩ := hout.exists_waiting hkey
      exact habsent packet' hmem
    · rcases List.mem_cons.mp (hperm.subset hmem) with heq | hold
      · exact absurd (Prod.mk.inj heq).1 hkey
      · exact hold
    · rcases List.mem_cons.mp (hperm.subset hmem) with heq | hold
      · rw [(Prod.mk.inj heq).2, htime]
      · exact absurd hold (habsent packet')

theorem thinned_posted (cfg : Config) (nodeAlloc : Bool) (c : Stream) (packet : PacketEntry) :
    Thinned (c.enter nodeAlloc packet) (c.posted cfg nodeAlloc packet) := by
  unfold posted
  dsimp only
  split <;> exact thinned_of_eq rfl rfl

end Stream

/-! ### One move -/

def FlowState.Sorted (v : FlowState) : Prop :=
  ∀ c, v.stream = some c → c.Sorted

variable {flow : U32} {env : Env} {event : HostEvent} {start v v' : FlowState}

namespace FlowState

theorem sorted_some (hstream : v.stream = some c) (hsorted : c.Sorted) : v.Sorted :=
  fun _ hstream' => Option.some.inj (hstream.symm.trans hstream') ▸ hsorted

theorem Sorted.of_stream_eq (hsorted : v.Sorted) (hstream : v'.stream = v.stream) : v'.Sorted :=
  fun c hc => hsorted c (hstream ▸ hc)

theorem Sorted.of_thinned (hsorted : v.Sorted) (hstream : v.stream = some c)
    (hstream' : v'.stream = some c') (h : Stream.Thinned c c') : v'.Sorted :=
  sorted_some hstream' ((hsorted c hstream).of_thinned h)

end FlowState

theorem SendFrame.thinned (hframe : SendFrame c c') : Stream.Thinned c c' :=
  Stream.thinned_of_eq hframe.packetList_eq hframe.waitingQueue_eq

theorem FlowState.Sorted.requeue (hsorted : v.Sorted) (hbook : Bookkeeping flow v)
    (hstream : v.stream = some c) {key : U32} {packet : PacketEntry} (time : Time)
    (hready : 0 < v.ready key) (hpacket : c.packetList.treemapValue key = some packet) :
    ((v.requeue flow key packet time).popUnready flow key).Sorted := by
  obtain ⟨snd, fin, packets, hsending⟩ := hbook.sending hstream
  obtain ⟨p, packet', -, -, hisReady, hvalue⟩ := hsending.isReady_of_ready hready
  obtain rfl := Option.some.inj (hpacket.symm.trans hvalue)
  have hnew : key ∉ c.waitingQueue := fun hkey => by
    have hwaiting := (hsending.waiting_iff (hsending.value_iff.mp hpacket)).mp hkey
    rw [hisReady] at hwaiting
    exact absurd hwaiting (by simp)
  have hrequeued : (v.requeue flow key packet time).Sorted := by
    unfold FlowState.requeue
    rw [if_pos hisReady]
    refine sorted_some ?_ ((hsorted c hstream).requeue hsending.toOutstanding time hnew)
    simp only [hstream, Option.map_some]
  refine hrequeued.of_stream_eq ?_
  unfold FlowState.popUnready
  split
  · rfl
  · split <;> rfl

theorem sorted_senderMove (hmove : SenderMove flow env v v') (halloc : env.alloc.Succeeds)
    (hbook : Bookkeeping flow v) (hsorted : v.Sorted) : v'.Sorted := by
  cases hmove with
  | write data hstream hstate hfits hdata =>
      exact hsorted.of_thinned hstream rfl (Stream.thinned_of_eq rfl rfl)
  | @post c packet hstream hfirst =>
      obtain ⟨snd, fin, packets, hsending⟩ := hbook.sending hstream
      obtain ⟨time, htime⟩ := hfirst.retransTime_eq
      have hentered := (hsorted c hstream).enter hsending.toOutstanding htime
      have hposted := hentered.of_thinned (Stream.thinned_posted v.cfg true c packet)
      rw [← halloc.1] at hposted
      unfold FlowState.postFull
      split
      · exact FlowState.sorted_some rfl (hposted.of_thinned (Stream.thinned_of_eq rfl rfl))
      · exact FlowState.sorted_some rfl hposted
  | keepalive hstream => exact hsorted.of_stream_eq rfl
  | fecPost hstream hindex => exact hsorted.of_thinned hstream rfl (Stream.thinned_of_eq rfl rfl)
  | @ready c _ packets dangling time hstream hready =>
      have hthinned := Stream.thinned_readyLoop time c.waitingQueue c
      rw [hready] at hthinned
      exact hsorted.of_thinned hstream rfl hthinned
  | @retransmit c packet key time entry hstream hready hpacket hwindow hfits hentry =>
      obtain ⟨hstream', hposted⟩ := hbook.repost hstream hready hpacket hentry env.alloc.node
      refine (hsorted.of_stream_eq hstream').requeue hposted (hstream'.trans hstream) time ?_ hpacket
      rwa [FlowState.repost_ready]
  | giveUp key time hstream hready hpacket => exact hsorted.requeue hbook hstream time hready hpacket
  | @hold c packet key hstream hready hpacket =>
      refine hsorted.of_stream_eq ?_
      unfold FlowState.popUnready
      split
      · rfl
      · split <;> rfl
  | lost key hready hpacket => exact hsorted.of_stream_eq rfl

theorem sorted_ackMove (hmove : AckMove flow env event v v') (hsorted : v.Sorted) : v'.Sorted := by
  cases hmove with
  | range hstream hevent hrange =>
      exact hsorted.of_thinned hstream rfl (Stream.thinned_releaseRange _ _ _)
  | window hstream hevent hwindow hmoved =>
      obtain ⟨hlist, hqueue⟩ := Stream.moveSwin_lists hmoved
      exact hsorted.of_thinned hstream rfl
        ((Stream.thinned_of_eq hlist hqueue).trans (Stream.thinned_checkpoint _ _))
  | failed hstream hevent hwindow hmoved => exact hsorted.of_stream_eq rfl

theorem sorted_receiverMove (hmove : ReceiverMove flow env event start v v') (hsorted : v.Sorted) :
    v'.Sorted := by
  intro c' hc'
  have hrel := hmove.frame.stream
  rw [hc'] at hrel
  obtain ⟨c, hc, hsame⟩ := exists_of_rel_some hrel
  exact (hsorted c hc).of_thinned hsame.send.thinned

theorem sorted_controlMove (hmove : ControlMove flow env event v v') (hsorted : v.Sorted) :
    v'.Sorted := by
  cases hmove.shape with
  | create tunnelId hstream => exact FlowState.sorted_some rfl .nil
  | release hstream hreleases => exact fun c hc => absurd hc (by simp)
  | turn state confirmed hstream hout =>
      exact hsorted.of_thinned hstream rfl (Stream.thinned_of_eq rfl rfl)
  | send hout => exact hsorted.of_stream_eq rfl

structure Scheduled (flow : U32) (v : FlowState) : Prop where
  book : Bookkeeping flow v
  sorted : v.Sorted

theorem scheduled_move (halloc : env.alloc.Succeeds) (hmove : Move flow env event start v v')
    (hscheduled : Scheduled flow v) : Scheduled flow v' := by
  refine ⟨bookkeeping_move halloc hmove hscheduled.book, ?_⟩
  have hsorted := hscheduled.sorted
  cases hmove with
  | sender hmove => exact sorted_senderMove hmove halloc hscheduled.book hsorted
  | ack hmove => exact sorted_ackMove hmove hsorted
  | receiver hmove => exact sorted_receiverMove hmove hsorted
  | control hmove => exact sorted_controlMove hmove hsorted
  | session hmove => cases hmove <;> exact hsorted.of_stream_eq rfl
  | foreignSend flight hflow hping => exact hsorted.of_stream_eq rfl
  | foreignNote note hflow hping => exact hsorted.of_stream_eq rfl

theorem Scheduled.of_reaches {h h' : Host} (halloc : env.alloc.Succeeds)
    (hreaches : Reaches flow env event start h h') (hscheduled : Scheduled flow (h.view flow)) :
    Scheduled flow (h'.view flow) :=
  Host.moves_preserves (fun _ _ => scheduled_move halloc) hreaches hscheduled

theorem Scheduled.setTime (hscheduled : Scheduled flow v) (now : Time) :
    Scheduled flow { v with curTime := now } := by
  have hbook := hscheduled.book
  exact ⟨⟨hbook.buffer_lt, hbook.sender, hbook.log⟩, hscheduled.sorted.of_stream_eq rfl⟩

theorem scheduled_run {cfg : Config} (hsize : cfg.bufferSize.toNat < 2 ^ 31) (nodeId : U16)
    (now : Time) {events : List (Env × HostEvent)} (halloc : ∀ e ∈ events, e.1.alloc.Succeeds)
    (flow : U32) : Scheduled flow (((Host.litedtInit cfg nodeId now).run events).view flow) := by
  refine Host.run_preserves (fun _ now hscheduled => hscheduled.setTime now)
    (fun e he _ _ _ => scheduled_move (halloc e he)) ⟨bookkeeping_init hsize nodeId now flow, ?_⟩
  intro c hstream
  simp [Host.view, Host.litedtInit, Host.findConnection, Timerlist.timerlistGet,
    Timerlist.timerlistInit] at hstream

/-! ### The entries whose time has come -/

def PacketEntry.readyBy (time : Time) (packet : PacketEntry) : PacketEntry :=
  { packet with isReady := packet.isReady || decide (packet.retransTime ≤ time) }

theorem PacketEntry.readyBy_of_ready {packet : PacketEntry} (time : Time)
    (hisReady : packet.isReady = true) : packet.readyBy time = packet := by
  unfold readyBy
  rw [hisReady, Bool.true_or, ← hisReady]

theorem PacketEntry.readyBy_of_lt {packet : PacketEntry} {time : Time}
    (hlater : time < packet.retransTime) : packet.readyBy time = packet := by
  unfold readyBy
  rw [decide_eq_false (not_le.mpr hlater), Bool.or_false]

/-- The loop of `retrans_time_event` stops early, but not too early: exactly the entries whose time
has come are ready after it. -/
theorem Outstanding.toList_readyLoop (time : Time) : ∀ (queue : List U32) {c : Stream}
    {ready : U32 → Nat} {packets : List (Nat × PacketEntry)}, c.waitingQueue = queue →
    Outstanding c ready lo snd packets → c.Sorted →
    (c.readyLoop time queue).1.packetList.toList =
      c.packetList.toList.map (fun e => (e.1, e.2.readyBy time)) := by
  intro queue
  induction queue with
  | nil =>
      intro c ready packets hqueue hout _
      have hsame : ∀ e ∈ c.packetList.toList, (e.1, e.2.readyBy time) = e := fun e he => by
        have hwaiting := hout.waiting_iff he
        rw [hqueue] at hwaiting
        rw [PacketEntry.readyBy_of_ready time (by simpa using hwaiting)]
      rw [Stream.readyLoop, List.map_congr_left hsame, List.map_id']
  | cons key rest ih =>
      intro c ready packets hqueue hout hsorted
      obtain ⟨packet, hmem, hisReady⟩ := hout.exists_waiting (hqueue ▸ List.mem_cons_self)
      rw [Stream.readyLoop, hout.value_iff.mpr hmem]
      dsimp only
      split
      · -- the queue is sorted, so the entries behind this one are not due either
        rename_i hlater
        have hsame : ∀ e ∈ c.packetList.toList, (e.1, e.2.readyBy time) = e := fun e he => by
          cases hready : e.2.isReady with
          | true => rw [PacketEntry.readyBy_of_ready time hready]
          | false =>
              have hwaiting := (hout.waiting_iff he).mpr hready
              have hle : packet.retransTime ≤ e.2.retransTime := by
                unfold Stream.Sorted at hsorted
                rw [hqueue] at hsorted hwaiting
                rcases List.mem_cons.mp hwaiting with heq | hrest
                · have heq' : packet = e.2 := hout.packet_unique hmem he heq.symm
                  rw [heq']
                · exact (List.pairwise_cons.mp hsorted).1 e.1 hrest packet e.2 hmem he
              rw [PacketEntry.readyBy_of_lt (lt_of_lt_of_le hlater hle)]
        rw [List.map_congr_left hsame, List.map_id']
      · rename_i hdue
        obtain ⟨p, rfl, he⟩ := hout.mem_toList.mp hmem
        obtain ⟨packets', -, hqueue', hout'⟩ := hout.setReady hqueue he hisReady
        rw [ih hqueue' hout' (hsorted.of_thinned (Stream.thinned_setReady c _))]
        have hlist : (c.setReady (wire p)).packetList.toList = c.packetList.toList.map (fun e =>
            (e.1, if e.1 = wire p then { e.2 with isReady := true } else e.2)) :=
          Treemap.treemapSetValue_toList _ _ _
        rw [hlist, List.map_map]
        refine List.map_congr_left fun e he' => ?_
        simp only [Function.comp_apply]
        split
        · rename_i heq
          rw [hout.packet_unique he' hmem heq]
          simp [PacketEntry.readyBy, not_lt.mp hdue]
        · rfl

namespace Host

variable {h : Host}

theorem findPacket_retransTimeEvent (hscheduled : Scheduled flow (h.view flow)) {conn : Conn}
    (hfind : h.findConnection flow = some conn)
    (hstate : conn.state.code < ConnState.closeWait.code) (time : Time) (key : U32) :
    (h.retransTimeEvent flow time).findPacket flow key =
      (h.findPacket flow key).map (PacketEntry.readyBy time) := by
  obtain ⟨snd, fin, packets, hsending⟩ := hscheduled.book.sending (view_stream_of_find hfind)
  have hlist := hsending.toList_readyLoop time conn.waitingQueue rfl
    (hscheduled.sorted _ (view_stream_of_find hfind))
  have hstream : ((h.retransTimeEvent flow time).view flow).stream =
      some (conn.readyLoop time conn.waitingQueue).1 := by
    rw [view_retransTimeEvent_self hfind (not_le.mpr hstate) rfl]
  rw [findPacket_eq, hstream, Option.bind_some, findPacket, hfind, Option.bind_some,
    Treemap.treemapValue, hlist, Treemap.treemapValue, List.find?_map, Option.map_map,
    Option.map_map]
  rfl

end Host

end Liteflow

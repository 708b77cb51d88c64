import Liteflow.Proof.RefineActs

/-!
# The host refines its tables

What an act does to the tables of a host is a sequence of moves, so every event is one.
-/

namespace Liteflow

/-- The tables of the host get from those of `h` to those of `h'` by moves. -/
def Steps (now : Time) (may : Packet → Prop) (h h' : Host) : Prop :=
  TableMoves now may h.tables h'.tables

namespace Host

variable {now : Time} {may : Packet → Prop} {h₀ h h' : Host} {flow : U32} {env : Env} {conn : Conn}

/-! ### The tables under the small functions -/

theorem flows_modifyConn (update : Conn → Conn) : (h.modifyConn flow update).flows = h.flows :=
  Timerlist.modifyFirst_map (fun _ _ => rfl) flow update h.connQueue.nodes

theorem mem_flows : flow ∈ h.flows ↔ h.findConnection flow ≠ none := by
  unfold flows findConnection Timerlist.timerlistGet
  rw [ne_eq, Option.map_eq_none_iff, List.find?_eq_none, List.mem_map]
  simp

theorem tables_modifyConn (flow : U32) (update : Conn → Conn) :
    (h.modifyConn flow update).tables =
      { h.tables with
        card := Function.update h.tables.card flow
          ((h.findConnection flow).map (fun conn => (update conn).card)) } := by
  have hcard : (h.modifyConn flow update).tables.card = Function.update h.tables.card flow
      ((h.findConnection flow).map (fun conn => (update conn).card)) := by
    funext g
    simp only [tables, findConnection_modifyConn, Function.update_apply]
    by_cases heq : flow = g
    · subst heq
      simp [Option.map_map, Function.comp_def]
    · rw [if_neg heq, if_neg (Ne.symm heq)]
  unfold tables at hcard ⊢
  simp only [Tables.mk.injEq]
  exact ⟨flows_modifyConn update, hcard, rfl, rfl, rfl, rfl, rfl, rfl⟩

theorem tables_of_kept (hkept : h'.kept = h.kept) : h'.tables = h.tables := by
  simp only [kept, core, Prod.mk.injEq] at hkept
  obtain ⟨⟨-, -, -, hconns, -, hout, hlog, -⟩, htimewait, hactive, hnext, hwakes⟩ := hkept
  simp only [tables, flows, findConnection, hconns, htimewait, hactive, hnext, hwakes, hout, hlog]

theorem tables_card_of_find (hfind : h.findConnection flow = some conn) :
    h.tables.card flow = some conn.card := by
  simp [tables, hfind]

theorem tables_card_of_none (hfind : h.findConnection flow = none) : h.tables.card flow = none := by
  simp [tables, hfind]

theorem connQueue_retransModFini (h : Host) (flow : U32) (packets : List PacketEntry) :
    (h.retransModFini flow packets).connQueue = h.connQueue := by
  unfold Host.retransModFini
  induction packets generalizing h with
  | nil => rfl
  | cons packet rest ih =>
      rw [List.foldl_cons, ih]
      unfold abandonPacket
      dsimp only
      split <;> rfl

variable (env) in
theorem connQueue_releaseConnection (hfind : h.findConnection flow = some conn)
    (cause : ReleaseCause) :
    (h.releaseConnection env cause flow).connQueue = h.connQueue.timerlistDel flow := by
  have hdeleted (inactive : Host) (heq : inactive.connQueue = h.connQueue) :
      (inactive.retransModFini flow (conn.packetList.toList.map Prod.snd)).connQueue.timerlistDel flow =
        h.connQueue.timerlistDel flow := by
    rw [connQueue_retransModFini, heq]
  unfold releaseConnection
  rw [hfind]
  dsimp only
  split
  · exact hdeleted _ rfl
  · exact hdeleted _ rfl

theorem curTime_releaseConnection (cause : ReleaseCause) (flow : U32) :
    (h.releaseConnection env cause flow).curTime = h.curTime := by
  have hfini (inactive : Host) (packets : List PacketEntry) :
      (inactive.retransModFini flow packets).curTime = inactive.curTime :=
    congrArg FlowState.curTime (view_retransModFini_self packets)
  unfold releaseConnection
  split
  · rfl
  · dsimp only
    split
    · exact hfini _ _
    · exact hfini _ _

end Host

namespace Steps

open Host

variable {now : Time} {may : Packet → Prop} {h₀ h h' : Host} {flow : U32} {env : Env} {conn : Conn}

/-! ### Chaining -/

theorem refl (h : Host) : Steps now may h h :=
  Relation.ReflTransGen.refl

theorem of_tables_eq (hs : Steps now may h₀ h) (heq : h'.tables = h.tables) :
    Steps now may h₀ h' := by
  unfold Steps
  rw [heq]
  exact hs

theorem move {t : Tables} (hs : Steps now may h₀ h) (hmove : TableMove now may h.tables t)
    (heq : h'.tables = t) : Steps now may h₀ h' := by
  subst heq
  exact Relation.ReflTransGen.tail hs hmove

/-- What every move keeps holds at the end. -/
theorem preserves {P : Tables → Prop} (hs : Steps now may h h')
    (hmove : ∀ t t', TableMove now may t t' → P t → P t') (hP : P h.tables) : P h'.tables := by
  unfold Steps TableMoves at hs
  generalize h'.tables = t' at hs
  induction hs with
  | refl => exact hP
  | tail _ hlast ih => exact hmove _ _ hlast ih

/-! ### Small functions -/

theorem modifyConn (hs : Steps now may h₀ h) (flow : U32) {update : Conn → Conn}
    (hactive : ∀ conn, (update conn).active = conn.active)
    (howes : ∀ conn, h.findConnection flow = some conn → (update conn).owes = true →
      conn.owes = true) : Steps now may h₀ (h.modifyConn flow update) := by
  cases hfind : h.findConnection flow with
  | none =>
      refine hs.of_tables_eq ?_
      rw [tables_modifyConn, hfind, Option.map_none, ← tables_card_of_none hfind,
        Function.update_eq_self]
  | some conn =>
      refine hs.move (.update flow (update conn).owes (tables_card_of_find hfind)
        fun hafter => .inl (howes conn hfind hafter)) ?_
      rw [tables_modifyConn, hfind, Option.map_some, Conn.card, hactive]
      rfl

theorem modifyStream (hs : Steps now may h₀ h) (flow : U32) {update : Stream → Stream}
    (howes : ∀ conn, h.findConnection flow = some conn → (update conn.toStream).owes = true →
      conn.owes = true) : Steps now may h₀ (h.modifyStream flow update) :=
  hs.modifyConn flow (fun _ => rfl) howes

theorem tables_advanceSync (h : Host) (flow : U32) (time : Time) :
    (h.advanceSync flow time).tables = h.tables := by
  unfold advanceSync
  split
  · rfl
  · split
    · rename_i conn hfind _
      have hmodified : (h.modifyConn flow (fun c => { c with nextSyncTime := time })).tables =
          h.tables := by
        rw [tables_modifyConn, hfind, Option.map_some]
        have hcard := tables_card_of_find hfind
        rw [show ({ conn with nextSyncTime := time } : Conn).card = conn.card from rfl, ← hcard,
          Function.update_eq_self]
      refine Eq.trans ?_ hmodified
      simp [Host.tables, Host.flows, Host.findConnection, Timerlist.nodes_moveup]
    · rfl

theorem modEvtime (hs : Steps now may h₀ h) (target : Option U32) (time : Time) :
    Steps now may h₀ (h.litedtModEvtime target time) := by
  obtain ⟨synced, hsynced, heq⟩ : ∃ synced : Host, synced.tables = h.tables ∧
      h.litedtModEvtime target time =
        if time < synced.nextEventTime then
          { synced with nextEventTime := time, wakes := synced.wakes ++ [(time, true)] }
        else { synced with wakes := synced.wakes ++ [(time, false)] } := by
    cases target with
    | none => exact ⟨h, rfl, rfl⟩
    | some flow => exact ⟨h.advanceSync flow time, tables_advanceSync h flow time, rfl⟩
  refine hs.move (.wake time) ?_
  rw [heq, ← hsynced]
  split
  · rename_i hlt
    simp [Host.tables, Host.flows, Host.findConnection, hlt]
  · rename_i hle
    simp [Host.tables, Host.flows, Host.findConnection, hle]

/-! ### Creating and releasing -/

theorem createPacketEntry (hs : Steps now may h₀ h)
    (hpending : ∀ conn, h.findConnection flow = some conn → isSndQueueEmpty conn.toStream = false)
    (seq length fecSeq : U32) (fecIndex : U8) :
    Steps now may h₀ (h.createPacketEntry env flow seq length fecSeq fecIndex) := by
  unfold Host.createPacketEntry
  split
  · exact hs
  · split
    · exact hs
    · have hcounted : Steps now may h₀
          { h.count .post with
            inflight := h.inflight + 1
            inflightBytes := h.inflightBytes + length } :=
        hs.of_tables_eq rfl
      refine hcounted.modifyStream flow fun conn hfind howes => ?_
      refine Stream.owes_of_pending (hpending conn hfind) ?_ howes
      unfold Stream.addPacket
      split <;> rfl

theorem createConnection (hs : Steps env.now may h₀ h) (tunnelId : U16) (state : ConnState)
    (hnone : h.findConnection flow = none) (hfree : h.timewaitQueue.queueGet flow = none) :
    Steps env.now may h₀
      ({ h with
        connQueue := h.connQueue.timerlistPush env.now flow
          (newConn h.cfg env.now tunnelId state) }.record (.created flow)) := by
  refine hs.move (.create flow (tables_card_of_none hnone) hfree) ?_
  have hflows : (h.connQueue.timerlistPush env.now flow
      (newConn h.cfg env.now tunnelId state)).nodes.map TimerNode.key = h.flows ++ [flow] := by
    rw [Timerlist.nodes_push, List.map_append]
    rfl
  have hcard : (fun g => ((h.connQueue.timerlistPush env.now flow
      (newConn h.cfg env.now tunnelId state)).timerlistGet g).map Conn.card) =
        Function.update h.tables.card flow (some { active := false, owes := false }) := by
    funext g
    rw [Timerlist.timerlistGet_push, Function.update_apply]
    by_cases heq : g = flow
    · subst heq
      have hget : h.connQueue.timerlistGet g = none := hnone
      rw [if_pos rfl, if_pos rfl, hget]
      simp [Conn.card, newConn, Stream.owes, isSndQueueEmpty, Treemap.treemapSize,
        Treemap.toList]
    · rw [if_neg heq, if_neg (Ne.symm heq), Option.or_none]
      rfl
  simp only [Host.tables, Host.record, Host.flows, Host.findConnection] at hflows hcard ⊢
  rw [hflows, hcard]

theorem tables_retransModFini (h : Host) (flow : U32) (packets : List PacketEntry) :
    (h.retransModFini flow packets).tables = h.tables := by
  unfold Host.retransModFini
  induction packets generalizing h with
  | nil => rfl
  | cons packet rest ih =>
      rw [List.foldl_cons, ih]
      unfold abandonPacket
      dsimp only
      split <;> rfl

/-- `release_connection` is one move: the flow leaves the connections for the time-wait queue. -/
theorem releaseConnection (hs : Steps env.now may h₀ h) (cause : ReleaseCause) (flow : U32) :
    Steps env.now may h₀ (h.releaseConnection env cause flow) := by
  unfold Host.releaseConnection
  cases hfind : h.findConnection flow with
  | none => exact hs
  | some conn =>
      dsimp only
      refine hs.move (.release flow cause conn.toStream (tables_card_of_find hfind)) ?_
      set inactive := if conn.active then { h with activeQueue := h.activeQueue.del flow } else h
        with hinactive
      set counted := inactive.count (.release conn.packetList.treemapSize)
      set abandoned := counted.retransModFini flow (conn.packetList.toList.map Prod.snd)
        with habandoned
      have hinactive' : inactive.tables =
          { h.tables with
            active := if conn.active then h.activeQueue.del flow else h.activeQueue } := by
        rw [hinactive]
        split <;> rfl
      have habandoned' : abandoned.tables = inactive.tables := tables_retransModFini _ _ _
      have hconns : abandoned.connQueue = h.connQueue := by
        rw [habandoned, connQueue_retransModFini]
        change inactive.connQueue = h.connQueue
        rw [hinactive]
        split <;> rfl
      have hcard : (fun g => ((h.connQueue.timerlistDel flow).timerlistGet g).map Conn.card) =
          Function.update h.tables.card flow none := by
        funext g
        rw [Timerlist.timerlistGet_del, Function.update_apply]
        by_cases heq : flow = g
        · rw [if_pos heq, if_pos heq.symm]
          rfl
        · rw [if_neg heq, if_neg (Ne.symm heq)]
          rfl
      have hflows : (h.connQueue.timerlistDel flow).nodes.map TimerNode.key =
          h.flows.filter (fun g => g ≠ flow) := by
        rw [Timerlist.nodes_del, Host.flows, List.filter_map]
        rfl
      rw [hinactive'] at habandoned'
      simp only [Host.tables, Tables.mk.injEq] at habandoned'
      obtain ⟨-, -, htimewait, hactive, hnext, hwakes, hout, hlog⟩ := habandoned'
      simp only [Host.tables, Host.record, Host.flows, Host.findConnection, hconns, htimewait,
        hactive, hnext, hwakes, hout, hlog] at hcard hflows ⊢
      rw [hcard, hflows]
      rfl

/-! ### Scheduling -/

theorem writeActivate (hs : Steps now may h₀ h) (hfind : h.findConnection flow = some conn)
    (update : Stream → Stream) :
    Steps now may h₀ ((h.modifyStream flow update).activate flow) := by
  set conn' : Conn := { conn with toStream := update conn.toStream }
  have hfind' : (h.modifyStream flow update).findConnection flow = some conn' := by
    rw [Host.modifyStream, findConnection_modifyConn, if_pos rfl, hfind]
    rfl
  have hwritten := tables_modifyConn (h := h) flow (fun c => { c with toStream := update c.toStream })
  rw [hfind, Option.map_some] at hwritten
  refine hs.move (.write flow (update conn.toStream).owes (tables_card_of_find hfind)) ?_
  unfold activate
  rw [hfind']
  dsimp only
  split
  · rename_i hactive
    have hcard : conn'.card = { active := true, owes := (update conn.toStream).owes } := by
      rw [Conn.card, hactive]
    rw [if_pos (show conn.card.active = true from hactive), ← hcard]
    exact hwritten
  · rename_i hactive
    have hactivated := tables_modifyConn (h := h.modifyStream flow update) flow
      (fun c => { c with active := true })
    rw [hfind', Option.map_some, Host.modifyStream, hwritten, Function.update_idem] at hactivated
    rw [if_neg (show ¬conn.card.active = true from hactive)]
    exact congrArg (fun t : Tables => { t with active := h.activeQueue.addTail flow }) hactivated

theorem deactivate (hs : Steps now may h₀ h) (hmember : flow ∈ h.activeQueue.flows)
    (hfind : h.findConnection flow = some conn) (howes : conn.owes = false) :
    Steps now may h₀ (h.deactivate flow) := by
  refine hs.move (.rest flow hmember (tables_card_of_find hfind) howes) ?_
  have hmodified := tables_modifyConn (h := h) flow (fun c => { c with active := false })
  rw [hfind, Option.map_some, Conn.card, show ({ conn with active := false } : Conn).owes = false
    from howes] at hmodified
  exact congrArg (fun t : Tables => { t with active := h.activeQueue.del flow }) hmodified

/-! ### Acknowledgements -/

theorem establish (hs : Steps now may h₀ h) (flow : U32) :
    Steps now may h₀ (h.modifyStream flow Stream.establish) :=
  hs.modifyStream flow fun _ _ => Stream.owes_establish

theorem tables_releasePacketEntry (flow : U32) (state : Host × RateSample) (packet : PacketEntry) :
    (releasePacketEntry env flow state packet).1.tables = state.1.tables := by
  unfold releasePacketEntry packetDelivered
  dsimp only
  split <;> split <;> rfl

theorem releasePackets (hs : Steps now may h₀ h) (hfind : h.findConnection flow = some conn)
    {released : Stream × List PacketEntry} (howes : released.1.owes = true → conn.owes = true)
    (rs : RateSample) : Steps now may h₀ (h.releasePackets env flow released rs).1 := by
  have hstored : Steps now may h₀ (h.modifyStream flow (fun _ => released.1)) := by
    refine hs.modifyStream flow fun conn' hfind' hafter => ?_
    obtain rfl := Option.some.inj (hfind.symm.trans hfind')
    exact howes hafter
  unfold Host.releasePackets
  generalize h.modifyStream flow (fun _ => released.1) = stored at hstored
  generalize released.2 = packets
  induction packets generalizing stored rs with
  | nil => exact hstored
  | cons packet rest ih =>
      rw [List.foldl_cons]
      exact ih _ _ (hstored.of_tables_eq (tables_releasePacketEntry flow (stored, rs) packet))

theorem releasePacketRange (hs : Steps now may h₀ h) (flow seqStart seqEnd : U32)
    (rs : RateSample) : Steps now may h₀ (h.releasePacketRange env flow seqStart seqEnd rs).1 := by
  unfold Host.releasePacketRange
  split
  · exact hs
  · rename_i conn hfind
    refine hs.releasePackets hfind (Stream.owes_of_relisted (Stream.relisted_releaseRange _ _ _)
      fun hempty => ?_) rs
    rw [Stream.releaseRange_of_empty hempty, hempty]

theorem retransCheckpoint (hs : Steps now may h₀ h) (flow swndStart : U32) (rs : RateSample) :
    Steps now may h₀ (h.retransCheckpoint env flow swndStart rs).1 := by
  unfold Host.retransCheckpoint
  split
  · exact hs
  · rename_i conn hfind
    refine hs.releasePackets hfind (Stream.owes_of_relisted (Stream.relisted_checkpoint _ _)
      fun hempty => ?_) rs
    rw [Stream.checkpoint_of_empty hempty, hempty]

theorem releaseRanges (hs : Steps now may h₀ h) (flow : U32) (acks : List (U32 × U32))
    (rs : RateSample) : Steps now may h₀ (Host.releaseRanges env flow acks h rs).1 := by
  unfold Host.releaseRanges
  induction acks generalizing h rs with
  | nil => exact hs
  | cons range rest ih =>
      rw [List.foldl_cons]
      exact ih (hs.releasePacketRange flow range.1 range.2 rs) _

theorem moveWindow (hs : Steps now may h₀ h) (flow : U32) (ack : DataAck) (rs : RateSample) :
    Steps now may h₀ (h.moveWindow env flow ack rs).1 := by
  unfold Host.moveWindow
  split
  · exact hs
  · rename_i conn hfind
    split
    · split
      · exact hs.move (.note (.assertFailed flow .ackRelease) rfl) rfl
      · rename_i stream hmoved
        dsimp only
        refine Steps.retransCheckpoint ?_ flow _ rs
        refine hs.modifyConn flow (fun _ => rfl) fun conn' hfind' howes => ?_
        obtain rfl := Option.some.inj (hfind.symm.trans hfind')
        obtain ⟨sendBuf, acked, rfl⟩ := Stream.moveSwin_eq hmoved
        exact howes
    · exact hs

theorem releaseAcked (hs : Steps now may h₀ h) (flow : U32) (ack : DataAck) :
    Steps now may h₀ (h.releaseAcked env flow ack) := by
  unfold Host.releaseAcked
  dsimp only
  have hranged : Steps now may h₀ (Host.releaseRanges env flow ack.acks
      (h.modifyStream flow Stream.establish) {}).1 :=
    (hs.establish flow).releaseRanges flow ack.acks {}
  generalize Host.releaseRanges env flow ack.acks (h.modifyStream flow Stream.establish) {} = ranged
    at hranged
  have hmoved : Steps now may h₀ (ranged.1.moveWindow env flow ack ranged.2).1 :=
    hranged.moveWindow flow ack ranged.2
  generalize ranged.1.moveWindow env flow ack ranged.2 = moved at hmoved
  exact (hmoved.of_tables_eq (tables_of_kept
    (kept_generateBandwidth moved.2 (moved.1.delivered - h.delivered)))).of_tables_eq
      (tables_of_kept (kept_ctrlIoEvent moved.2))

/-! ### Acts -/

/-- One case for each act: the tables follow it by moves. -/
theorem act {event : HostEvent} (hs : Steps env.now may h₀ h) (hact : Act env event may h h') :
    Steps env.now may h₀ h' := by
  cases hact with
  | aside htables hgauges hqueue hbytes => exact hs.of_tables_eq htables
  | send flight credit hmay => exact hs.move (.send flight hmay) rfl
  | note entry hentry => exact hs.move (.note entry hentry) rfl
  | wake flow time => exact hs.modEvtime flow time
  | update flow update hactive hquiet =>
      exact hs.modifyConn flow hactive fun conn hfind => (hquiet conn hfind).owes
  | write flow update hfind hpackets => exact hs.writeActivate hfind update
  | post flow seq length fecSeq fecIndex hevent hpending =>
      exact hs.createPacketEntry hpending seq length fecSeq fecIndex
  | rest flow hmember hfind howes => exact hs.deactivate hmember hfind howes
  | rotate flow hmember => exact hs.move (.rotate flow hmember) rfl
  | create flow tunnelId state hnew hfree => exact hs.createConnection tunnelId state hnew hfree
  | release flow cause hfind => exact hs.releaseConnection cause flow
  | expire => exact hs.move .expire rfl
  | ack flow ack hevent hfind => exact hs.releaseAcked flow ack
  | resched time =>
      refine hs.of_tables_eq ?_
      simp [Host.tables, Host.flows, Host.findConnection, Timerlist.nodes_reschedTop]
  | control => exact hs.of_tables_eq (tables_of_kept kept_ctrlTimeEvent)
  | limit => exact hs.of_tables_eq rfl

theorem of_acts {event : HostEvent} (hs : Acts env event may h h') : Steps env.now may h h' :=
  hs.preserves (fun _ _ hact hs => hs.act hact) (.refl h)

end Steps

namespace Host

/-- What the moves of the tables keep, every event keeps. -/
theorem tables_step {P : Tables → Prop} {env : Env} {h : Host}
    (hmove : ∀ t t', TableMove env.now (fun _ => True) t t' → P t → P t')
    (hstamp : ∀ t next, P t → P { t with nextEvent := next }) (event : HostEvent)
    (hP : P h.tables) : P (h.step env event).tables := by
  obtain ⟨h', hs, hend⟩ := h.acts_step env event
  have hsteps : P h'.tables := (Steps.of_acts hs).preserves hmove hP
  rcases hend with heq | ⟨next, heq⟩
  · rw [heq]
    exact hsteps
  · rw [heq]
    exact hstamp _ _ hsteps

theorem log_extends (h : Host) (env : Env) (event : HostEvent) : h.log <+: (h.step env event).log := by
  refine tables_step (P := fun t => h.log <+: t.log) (fun t t' hmove hbegins => ?_)
    (fun _ _ hbegins => hbegins) event (List.prefix_refl _)
  cases hmove with
  | note event hevent => exact hbegins.trans (List.prefix_append _ _)
  | create flow hnew hfree => exact hbegins.trans (List.prefix_append _ _)
  | release flow cause stream hcard => exact hbegins.trans (List.prefix_append _ _)
  | _ => exact hbegins

end Host

end Liteflow

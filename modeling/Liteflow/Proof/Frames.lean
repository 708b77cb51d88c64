import Liteflow.Proof.FecGroup
import Liteflow.Proof.RefineTime

/-!
# What a move leaves alone

A stream has a sending and a receiving half, and the state of the connection. The moves of one half do
not touch the other one, and only a few moves touch the state. These are facts about the functions of
the model; they hold for every stream.
-/

namespace Liteflow

/-! ### Halves -/

structure SendFrame (c c' : Stream) : Prop where
  swinStart_eq : c'.swinStart = c.swinStart
  writeSeq_eq : c'.writeSeq = c.writeSeq
  sendSeq_eq : c'.sendSeq = c.sendSeq
  sendBuf_eq : c'.sendBuf = c.sendBuf
  packetList_eq : c'.packetList = c.packetList
  waitingQueue_eq : c'.waitingQueue = c.waitingQueue
  acked_eq : c'.acked = c.acked

structure FecMod.SendFrame (fm fm' : FecMod) : Prop where
  currentFecSeq_eq : fm'.currentFecSeq = fm.currentFecSeq
  currentFecEnd_eq : fm'.currentFecEnd = fm.currentFecEnd
  currentFecIndex_eq : fm'.currentFecIndex = fm.currentFecIndex
  currentFecMembers_eq : fm'.currentFecMembers = fm.currentFecMembers
  fecLen_eq : fm'.fecLen = fm.fecLen
  fecBuf_eq : fm'.fecBuf = fm.fecBuf

structure FecMod.RecvFrame (fm fm' : FecMod) : Prop where
  fecRecvStart_eq : fm'.fecRecvStart = fm.fecRecvStart
  fecRecvEnd_eq : fm'.fecRecvEnd = fm.fecRecvEnd
  fecQueue_eq : fm'.fecQueue = fm.fecQueue

/-- The same receiving half, apart from the error correction and the records of what to acknowledge. -/
structure RecvFrame (c c' : Stream) : Prop where
  rwinStart_eq : c'.rwinStart = c.rwinStart
  rwinSize_eq : c'.rwinSize = c.rwinSize
  recvBuf_eq : c'.recvBuf = c.recvBuf
  consumed_eq : c'.consumed = c.consumed
  stored_eq : c'.stored = c.stored
  acks_eq : c'.acks = c.acks

structure StateFrame (c c' : Stream) : Prop where
  state_eq : c'.state = c.state
  confirmed_eq : c'.confirmed = c.confirmed
  fecEnabled_eq : c'.fecEnabled = c.fecEnabled

theorem SendFrame.trans {c c' c'' : Stream} (h : SendFrame c c') (h' : SendFrame c' c'') :
    SendFrame c c'' :=
  ⟨h'.swinStart_eq.trans h.swinStart_eq, h'.writeSeq_eq.trans h.writeSeq_eq,
    h'.sendSeq_eq.trans h.sendSeq_eq, h'.sendBuf_eq.trans h.sendBuf_eq,
    h'.packetList_eq.trans h.packetList_eq, h'.waitingQueue_eq.trans h.waitingQueue_eq,
    h'.acked_eq.trans h.acked_eq⟩

/-! ### The functions of the sending half -/

/-- The packet list and the waiting queue may have changed, and nothing else. -/
def Relisted (c c' : Stream) : Prop :=
  ∃ list queue, c' = { c with packetList := list, waitingQueue := queue }

namespace Stream

variable {c c' c'' : Stream}

theorem relisted_refl (c : Stream) : Relisted c c :=
  ⟨c.packetList, c.waitingQueue, rfl⟩

theorem Relisted.trans (h : Relisted c c') (h' : Relisted c' c'') : Relisted c c'' := by
  obtain ⟨list, queue, rfl⟩ := h
  obtain ⟨list', queue', rfl⟩ := h'
  exact ⟨list', queue', rfl⟩

section Loops

variable {P : Stream → Prop}

theorem releaseRange_keeps (hremove : ∀ c key packet, P c → P (c.removePacket key packet))
    (seqStart seqEnd : U32) (hc : P c) : P (c.releaseRange seqStart seqEnd).1 := by
  unfold releaseRange
  generalize c.packetList.treemapLowerBound seqCmp seqStart = entry
  generalize c.packetList.treemapSize = fuel
  induction fuel generalizing entry c with
  | zero => exact hc
  | succ fuel ih =>
      cases entry with
      | none => exact hc
      | some entry =>
          unfold rangeLoop
          split
          · exact hc
          · exact ih (hremove c entry.1 entry.2 hc) _

theorem checkpoint_keeps (hremove : ∀ c key packet, P c → P (c.removePacket key packet))
    (swndStart : U32) (hc : P c) : P (c.checkpoint swndStart).1 := by
  unfold checkpoint
  generalize c.packetList.treemapSize = fuel
  induction fuel generalizing c with
  | zero => exact hc
  | succ fuel ih =>
      unfold checkpointLoop
      split
      · exact hc
      · split
        · exact hc
        · exact ih (hremove c _ _ hc)

theorem readyLoop_keeps (hready : ∀ c key, P c → P (c.setReady key)) (time : Time)
    (queue : List U32) (hc : P c) : P (c.readyLoop time queue).1 := by
  induction queue generalizing c with
  | nil => exact hc
  | cons key rest ih =>
      unfold readyLoop
      split
      · exact hc
      · split
        · exact hc
        · exact ih (hready c key hc)

end Loops

theorem relisted_releaseRange (c : Stream) (seqStart seqEnd : U32) :
    Relisted c (c.releaseRange seqStart seqEnd).1 :=
  releaseRange_keeps (fun _ _ _ h => Relisted.trans h ⟨_, _, rfl⟩) _ _ (relisted_refl c)

theorem relisted_checkpoint (c : Stream) (swndStart : U32) :
    Relisted c (c.checkpoint swndStart).1 :=
  checkpoint_keeps (fun _ _ _ h => Relisted.trans h ⟨_, _, rfl⟩) _ (relisted_refl c)

theorem relisted_readyLoop (time : Time) (queue : List U32) (c : Stream) :
    Relisted c (c.readyLoop time queue).1 :=
  readyLoop_keeps (fun _ _ h => Relisted.trans h ⟨_, _, rfl⟩) _ _ (relisted_refl c)

theorem relisted_enter (nodeAlloc : Bool) (c : Stream) (packet : PacketEntry) :
    Relisted c (c.enter nodeAlloc packet) := by
  unfold enter addPacket
  split
  · exact relisted_refl c
  · split
    · exact ⟨_, _, rfl⟩
    · exact relisted_refl c

theorem relisted_requeue (c : Stream) (key : U32) (time : Time) :
    Relisted c (c.requeue key time) :=
  ⟨_, _, rfl⟩

theorem moveSwin_eq {nodeAlloc : Bool} {now : Time} {ack : DataAck}
    (hmoved : c.moveSwin nodeAlloc now ack = some c') :
    ∃ sendBuf acked, c' =
      { c with
        lastSyncTime := now
        swinStart := ack.winStart
        swinSize := umin ack.winSize swndMaxSize
        sendBuf := sendBuf
        acked := acked } := by
  unfold moveSwin at hmoved
  dsimp only at hmoved
  split at hmoved
  · exact ⟨_, _, (Option.some.inj hmoved).symm⟩
  · obtain ⟨sendBuf, -, rfl⟩ := Option.map_eq_some_iff.mp hmoved
    exact ⟨_, _, rfl⟩

/-! ### The functions of the receiving half -/

theorem sendFrame_establish (c : Stream) : SendFrame c c.establish := by
  unfold establish
  split <;> constructor <;> rfl

theorem sendFrame_storeData (alloc : Alloc) (c : Stream) (data : DataPost) :
    SendFrame c (c.storeData alloc data).2 := by
  obtain ⟨⟩ := receiveFrame_storeData alloc c data
  constructor <;> assumption

theorem sendFrame_setFec (c : Stream) (fec : FecMod) : SendFrame c (c.setFec fec) := by
  constructor <;> rfl

theorem sendFrame_insertFec (alloc : Alloc) (c : Stream) (inserted : FecMod.Inserted) :
    SendFrame c (c.insertFec alloc inserted) := by
  have hset := sendFrame_setFec c inserted.fec
  have hopen := hset.trans (sendFrame_establish _)
  unfold insertFec
  split
  · exact hset
  · split
    · exact hopen
    · exact hopen.trans (sendFrame_storeData alloc _ _)

theorem releaseRecv_eq {nodeAlloc : Bool} {size : U32}
    (hreleased : c.releaseRecv nodeAlloc size = some c') :
    size ≤ c.recvBuf.rbufReadableBytes ∧ ∃ recvBuf rwinStart rwinSize, c' =
      { c with
        recvBuf := recvBuf
        consumed := c.consumed + size.toNat
        rwinStart := rwinStart
        rwinSize := rwinSize } := by
  obtain ⟨recvBuf, hrelease, rfl⟩ := Option.map_eq_some_iff.mp hreleased
  refine ⟨?_, recvBuf, _, _, rfl⟩
  by_contra hle
  rw [Rbuf.rbufRelease, if_pos (BitVec.not_le.mp hle)] at hrelease
  exact absurd hrelease (by simp)

end Stream

/-! ### Moves -/

structure Grows (flights : Flight → Prop) (events : Event → Prop) (v v' : FlowState) : Prop where
  out : ∃ fs, v'.out = v.out ++ fs ∧ ∀ f ∈ fs, flights f
  log : ∃ es, v'.log = v.log ++ es ∧ ∀ e ∈ es, events e

theorem Grows.of_eq {flights : Flight → Prop} {events : Event → Prop} {v v' : FlowState}
    (hout : v'.out = v.out) (hlog : v'.log = v.log) : Grows flights events v v' :=
  ⟨⟨[], by simp [hout], by simp⟩, ⟨[], by simp [hlog], by simp⟩⟩

theorem Grows.trans {flights : Flight → Prop} {events : Event → Prop} {v v' v'' : FlowState}
    (h : Grows flights events v v') (h' : Grows flights events v' v'') :
    Grows flights events v v'' := by
  obtain ⟨⟨fs, hfs, hflights⟩, es, hes, hevents⟩ := h
  obtain ⟨⟨fs', hfs', hflights'⟩, es', hes', hevents'⟩ := h'
  refine ⟨⟨fs ++ fs', by rw [hfs', hfs, List.append_assoc], ?_⟩,
    ⟨es ++ es', by rw [hes', hes, List.append_assoc], ?_⟩⟩
  · exact List.forall_mem_append.mpr ⟨hflights, hflights'⟩
  · exact List.forall_mem_append.mpr ⟨hevents, hevents'⟩

theorem Grows.mono {flights flights' : Flight → Prop} {events events' : Event → Prop}
    {v v' : FlowState} (hgrows : Grows flights events v v') (hflights : ∀ f, flights f → flights' f)
    (hevents : ∀ e, events e → events' e) : Grows flights' events' v v' := by
  obtain ⟨⟨fs, hout, hfs⟩, es, hlog, hes⟩ := hgrows
  exact ⟨⟨fs, hout, fun f hf => hflights f (hfs f hf)⟩, es, hlog, fun e he => hevents e (hes e he)⟩

theorem grows_send {flights : Flight → Prop} {events : Event → Prop} (v : FlowState)
    {flight : Flight} (hflight : flights flight) : Grows flights events v (v.send flight) :=
  ⟨⟨[flight], rfl, by simpa using hflight⟩, ⟨[], by simp [FlowState.send], by simp⟩⟩

theorem grows_note {flights : Flight → Prop} {events : Event → Prop} (v : FlowState)
    {event : Event} (hevent : events event) : Grows flights events v (v.note event) :=
  ⟨⟨[], by simp [FlowState.note], by simp⟩, ⟨[event], rfl, by simpa using hevent⟩⟩

theorem exists_of_rel_some {α : Type} {R : α → α → Prop} {o : Option α} {b : α}
    (hrel : Option.Rel R o (some b)) : ∃ a, o = some a ∧ R a b := by
  cases hrel with
  | some h => exact ⟨_, rfl, h⟩

def Packet.CarriesData (flow : U32) : Packet → Prop
  | dataPost g _ | connectData g _ _ | dataFec g _ => g = flow
  | _ => False

def Flight.CarriesData (flow : U32) (flight : Flight) : Prop :=
  flight.packet.CarriesData flow

def Event.OfSender : Event → Prop
  | wrote _ _ | bufferRead _ _ _ _ _ | assertFailed _ _ | dangling _ => True
  | _ => False

/-- Two streams with the same receiving half and state. Only an acknowledgement refreshes
`last_sync_time`. -/
structure SameReceiver (flow : U32) (event : HostEvent) (now : Time) (c c' : Stream) : Prop where
  recv : RecvFrame c c'
  state : StateFrame c c'
  sackMap_eq : c'.sackMap = c.sackMap
  fec : c.fec.RecvFrame c'.fec
  sync : c'.lastSyncTime = c.lastSyncTime ∨
    ∃ ack, event = .io (.dataAck flow ack) ∧ c'.lastSyncTime = now

/-- A move that leaves the receiving half, the state and the clock alone. -/
structure SenderFrame (flow : U32) (event : HostEvent) (v v' : FlowState) : Prop extends
    Grows (Flight.CarriesData flow) Event.OfSender v v' where
  cfg_eq : v'.cfg = v.cfg
  curTime_eq : v'.curTime = v.curTime
  stream : Option.Rel (SameReceiver flow event v.curTime) v.stream v'.stream

section

variable {flow : U32} {env : Env} {event : HostEvent} {start v v' v'' : FlowState} {c c' c'' : Stream}

theorem SameReceiver.refl (c : Stream) : SameReceiver flow event v.curTime c c :=
  ⟨by constructor <;> rfl, by constructor <;> rfl, rfl, by constructor <;> rfl, .inl rfl⟩

theorem SameReceiver.of_relisted (hrelisted : Relisted c c') :
    SameReceiver flow event v.curTime c c' := by
  obtain ⟨list, queue, rfl⟩ := hrelisted
  exact ⟨by constructor <;> rfl, by constructor <;> rfl, rfl, by constructor <;> rfl, .inl rfl⟩

theorem SameReceiver.trans {now : Time} (h : SameReceiver flow event now c c')
    (h' : SameReceiver flow event now c' c'') : SameReceiver flow event now c c'' := by
  refine ⟨⟨h'.recv.rwinStart_eq.trans h.recv.rwinStart_eq, h'.recv.rwinSize_eq.trans h.recv.rwinSize_eq,
    h'.recv.recvBuf_eq.trans h.recv.recvBuf_eq, h'.recv.consumed_eq.trans h.recv.consumed_eq,
    h'.recv.stored_eq.trans h.recv.stored_eq, h'.recv.acks_eq.trans h.recv.acks_eq⟩,
    ⟨h'.state.state_eq.trans h.state.state_eq, h'.state.confirmed_eq.trans h.state.confirmed_eq,
      h'.state.fecEnabled_eq.trans h.state.fecEnabled_eq⟩,
    h'.sackMap_eq.trans h.sackMap_eq,
    ⟨h'.fec.fecRecvStart_eq.trans h.fec.fecRecvStart_eq,
      h'.fec.fecRecvEnd_eq.trans h.fec.fecRecvEnd_eq,
      h'.fec.fecQueue_eq.trans h.fec.fecQueue_eq⟩, ?_⟩
  rcases h'.sync with hsync | hsync
  · rw [hsync]
    exact h.sync
  · exact .inr hsync

theorem sameReceiver_posted (cfg : Config) (nodeAlloc : Bool) (c : Stream) (packet : PacketEntry) :
    SameReceiver flow event v.curTime c (c.posted cfg nodeAlloc packet) := by
  unfold Stream.posted
  obtain ⟨list, queue, heq⟩ := Stream.relisted_enter nodeAlloc c packet
  dsimp only
  rw [heq]
  split <;>
    exact ⟨by constructor <;> rfl, by constructor <;> rfl, rfl, by constructor <;> rfl, .inl rfl⟩

theorem carriesData_dataFlight (c : Stream) (flow : U32) (post : DataPost) :
    (c.dataFlight flow post).CarriesData flow := by
  by_cases hstate : c.state = .request <;>
    simp [Stream.dataFlight, Flight.CarriesData, Packet.CarriesData, hstate]

theorem SenderFrame.of_stream (hgrows : Grows (Flight.CarriesData flow) Event.OfSender v v')
    (hcfg : v'.cfg = v.cfg) (htime : v'.curTime = v.curTime) (hstream : v.stream = some c)
    (hstream' : v'.stream = some c') (hsame : SameReceiver flow event v.curTime c c') :
    SenderFrame flow event v v' :=
  ⟨hgrows, hcfg, htime, by rw [hstream, hstream']; exact .some hsame⟩

theorem SenderFrame.trans (h : SenderFrame flow event v v') (h' : SenderFrame flow event v' v'') :
    SenderFrame flow event v v'' := by
  refine ⟨h.toGrows.trans h'.toGrows, h'.cfg_eq.trans h.cfg_eq, h'.curTime_eq.trans h.curTime_eq, ?_⟩
  have hfirst := h.stream
  have hsecond := h'.stream
  rw [h.curTime_eq] at hsecond
  revert hfirst hsecond
  generalize v.stream = s
  generalize v'.stream = s'
  generalize v''.stream = s''
  intro hfirst hsecond
  cases hfirst with
  | none => exact hsecond
  | some hsame =>
      cases hsecond with
      | some hsame' => exact .some (hsame.trans hsame')

theorem SenderFrame.of_eq (hgrows : Grows (Flight.CarriesData flow) Event.OfSender v v')
    (hcfg : v'.cfg = v.cfg) (htime : v'.curTime = v.curTime) (hstream : v'.stream = v.stream) :
    SenderFrame flow event v v' := by
  refine ⟨hgrows, hcfg, htime, ?_⟩
  rw [hstream]
  cases v.stream with
  | none => exact .none
  | some c => exact .some (.refl c)

theorem senderFrame_requeue (v : FlowState) (key : U32) (packet : PacketEntry) (time : Time) :
    SenderFrame flow event v (v.requeue flow key packet time) := by
  unfold FlowState.requeue
  split
  · refine ⟨.of_eq rfl rfl, rfl, rfl, ?_⟩
    cases v.stream with
    | none => exact .none
    | some c => exact .some (.of_relisted (c.relisted_requeue key time))
  · exact .of_eq (grows_note v trivial) rfl rfl rfl

theorem senderFrame_popUnready (v : FlowState) (key : U32) :
    SenderFrame flow event v (v.popUnready flow key) := by
  unfold FlowState.popUnready
  split
  · exact .of_eq (grows_note v trivial) rfl rfl rfl
  · split
    · exact .of_eq (.of_eq rfl rfl) rfl rfl rfl
    · exact .of_eq (.of_eq rfl rfl) rfl rfl rfl

theorem senderFrame_repost (hstream : v.stream = some c) (nodeAlloc : Bool)
    (packet entry : PacketEntry) :
    SenderFrame flow event v (v.repost flow c nodeAlloc packet entry) := by
  unfold FlowState.repost
  split
  · exact .of_eq (grows_send v (carriesData_dataFlight c flow _)) rfl rfl rfl
  · refine .of_stream ?_ rfl rfl hstream rfl (.of_relisted (c.relisted_enter nodeAlloc entry))
    refine ⟨⟨[c.dataFlight flow (c.postOf packet)], rfl, ?_⟩,
      ⟨[c.bufferRead flow packet.seq packet.length], rfl, ?_⟩⟩
    · simpa using carriesData_dataFlight c flow _
    · simp [Stream.bufferRead, Event.OfSender]

theorem senderFrame_postFull (hstream : v.stream = some c) :
    SenderFrame flow event v (v.postFull flow c) := by
  unfold FlowState.postFull
  split
  · refine .of_stream ⟨⟨[c.fecFlight flow], rfl, ?_⟩, ⟨[], by simp [FlowState.send,
      FlowState.withStream], by simp⟩⟩ rfl rfl hstream rfl ?_
    · simp [Flight.CarriesData, Packet.CarriesData, Stream.fecFlight]
    · exact ⟨by constructor <;> rfl, by constructor <;> rfl, rfl, by constructor <;> rfl, .inl rfl⟩
  · exact .of_eq (.of_eq rfl rfl) rfl rfl rfl

theorem SenderMove.frame (hmove : SenderMove flow env v v') : SenderFrame flow event v v' := by
  cases hmove with
  | write data hstream hstate hfits hdata =>
      exact .of_stream ⟨⟨[], by simp [FlowState.note, FlowState.withStream], by simp⟩,
        ⟨[.wrote flow data.val], rfl, by simp [Event.OfSender]⟩⟩ rfl rfl hstream rfl
        ⟨by constructor <;> rfl, by constructor <;> rfl, rfl, by constructor <;> rfl, .inl rfl⟩
  | @post c packet hstream hfirst =>
      refine SenderFrame.trans ?_ (senderFrame_postFull rfl)
      refine .of_stream ⟨⟨[c.dataFlight flow (c.postOf packet)], rfl, ?_⟩,
        ⟨[c.bufferRead flow packet.seq packet.length], rfl, ?_⟩⟩ rfl rfl hstream rfl
        (sameReceiver_posted v.cfg env.alloc.node c packet)
      · simpa using carriesData_dataFlight c flow _
      · simp [Stream.bufferRead, Event.OfSender]
  | @keepalive c hstream =>
      exact .of_eq (grows_send v (carriesData_dataFlight c flow _)) rfl rfl rfl
  | @fecPost c hstream hindex =>
      refine .of_stream ⟨⟨[c.fecFlight flow], rfl, ?_⟩, ⟨[], by simp [FlowState.send,
        FlowState.withStream], by simp⟩⟩ rfl rfl hstream rfl ?_
      · simp [Flight.CarriesData, Packet.CarriesData, Stream.fecFlight]
      · exact ⟨by constructor <;> rfl, by constructor <;> rfl, rfl, by constructor <;> rfl, .inl rfl⟩
  | @ready c c' packets dangling time hstream hready =>
      have hrelisted := Stream.relisted_readyLoop time c.waitingQueue c
      rw [hready] at hrelisted
      refine .of_stream ⟨⟨[], by simp, by simp⟩, ?_⟩ rfl rfl hstream rfl (.of_relisted hrelisted)
      cases dangling
      · exact ⟨[], by simp, by simp⟩
      · exact ⟨[.dangling flow], rfl, by simp [Event.OfSender]⟩
  | @retransmit c packet key time entry hstream hready hpacket hwindow hfits hentry =>
      exact ((senderFrame_repost hstream env.alloc.node packet entry).trans
        (senderFrame_requeue _ key packet time)).trans (senderFrame_popUnready _ key)
  | @giveUp c packet key time hstream hready hpacket =>
      exact (senderFrame_requeue v key packet time).trans (senderFrame_popUnready _ key)
  | hold key hstream hready hpacket => exact senderFrame_popUnready v key
  | lost key hready hpacket => exact .of_eq (grows_note v trivial) rfl rfl rfl

theorem AckMove.frame (hmove : AckMove flow env event v v') : SenderFrame flow event v v' := by
  cases hmove with
  | @range c ack range hstream hevent hrange =>
      exact .of_stream (.of_eq rfl rfl) rfl rfl hstream rfl
        (.of_relisted (c.relisted_releaseRange range.1 range.2))
  | @window c moved ack hstream hevent hwindow hmoved =>
      obtain ⟨list, queue, heq⟩ := Stream.relisted_checkpoint moved ack.winStart
      obtain ⟨sendBuf, acked, rfl⟩ := Stream.moveSwin_eq hmoved
      refine .of_stream (.of_eq rfl rfl) rfl rfl hstream rfl ?_
      rw [heq]
      exact ⟨by constructor <;> rfl, by constructor <;> rfl, rfl, by constructor <;> rfl,
        .inr ⟨ack, hevent, rfl⟩⟩
  | failed hstream hevent hwindow hmoved => exact .of_eq (grows_note v trivial) rfl rfl rfl

def Packet.IsAck (flow : U32) : Packet → Prop
  | dataAck g _ => g = flow
  | _ => False

def Event.OfReceiver : Event → Prop
  | read _ _ | fecRecovered _ _ | fecIndices _ _ | assertFailed _ _ => True
  | _ => False

structure SameSender (c c' : Stream) : Prop where
  send : SendFrame c c'
  state : StateFrame c c'
  fec : c.fec.SendFrame c'.fec
  lastSyncTime_eq : c'.lastSyncTime = c.lastSyncTime
  tunnelId_eq : c'.tunnelId = c.tunnelId

/-- A move that leaves the sending half, the state and the clock alone. -/
structure ReceiverFrame (flow : U32) (v v' : FlowState) : Prop extends
    Grows (fun flight => flight.packet.IsAck flow) Event.OfReceiver v v' where
  cfg_eq : v'.cfg = v.cfg
  curTime_eq : v'.curTime = v.curTime
  ready_eq : v'.ready = v.ready
  stream : Option.Rel SameSender v.stream v'.stream

theorem FecMod.SendFrame.trans {fm fm' fm'' : FecMod} (h : fm.SendFrame fm')
    (h' : fm'.SendFrame fm'') : fm.SendFrame fm'' :=
  ⟨h'.currentFecSeq_eq.trans h.currentFecSeq_eq, h'.currentFecEnd_eq.trans h.currentFecEnd_eq,
    h'.currentFecIndex_eq.trans h.currentFecIndex_eq,
    h'.currentFecMembers_eq.trans h.currentFecMembers_eq, h'.fecLen_eq.trans h.fecLen_eq,
    h'.fecBuf_eq.trans h.fecBuf_eq⟩

theorem FecMod.sendFrame_recover (fm : FecMod) (fseq : U32) (group : FecGroup) (used : List U8) :
    fm.SendFrame (fm.recover fseq group used).fec := by
  unfold recover
  dsimp only
  repeat' split
  all_goals constructor <;> rfl

theorem FecMod.sendFrame_opened (fm : FecMod) (fseq : U32) (fmems : U8) :
    fm.SendFrame (fm.opened fseq fmems) := by
  unfold opened
  split <;> constructor <;> rfl

theorem FecMod.sendFrame_fecInsert (nodeAlloc : Bool) (fm : FecMod) (fseq : U32) (fidx fmems : U8)
    (buf : List Byte) (fin : U32) :
    fm.SendFrame (fm.fecInsert nodeAlloc fseq fidx fmems buf fin).fec := by
  rcases fecInsert_cases nodeAlloc fm fseq fidx fmems buf fin with heq | ⟨used, heq⟩ | ⟨group, used, heq, -⟩
  · rw [heq]
    constructor <;> rfl
  · rw [heq]
    exact sendFrame_opened fm fseq fmems
  · rw [heq]
    exact (sendFrame_opened fm fseq fmems).trans (sendFrame_recover _ _ _ _)

theorem FecMod.sendFrame_fecCheckpoint (cfg : Config) (fm : FecMod) (recvStart : U32) :
    fm.SendFrame (fm.fecCheckpoint cfg recvStart) := by
  have hloop : ∀ (fuel : Nat) (fm : FecMod), fm.SendFrame (checkpointLoop recvStart fuel fm) := by
    intro fuel
    induction fuel with
    | zero => exact fun fm => by constructor <;> rfl
    | succ fuel ih =>
        intro fm
        unfold checkpointLoop
        split
        · split
          · exact FecMod.SendFrame.trans (by constructor <;> rfl) (ih _)
          · constructor <;> rfl
        · constructor <;> rfl
  exact (hloop _ fm).trans (by constructor <;> rfl)

theorem Insertion.sendFrame {fm : FecMod} {inserted : FecMod.Inserted}
    (hinserted : Insertion flow event fm inserted) : fm.SendFrame inserted.fec := by
  cases hinserted with
  | data hevent => exact FecMod.sendFrame_fecInsert _ _ _ _ _ _ _
  | sum hevent => exact FecMod.sendFrame_fecInsert _ _ _ _ _ _ _

theorem sameSender_storeData (alloc : Alloc) (c : Stream) (data : DataPost) :
    SameSender c (c.storeData alloc data).2 := by
  have hframe := Stream.receiveFrame_storeData alloc c data
  exact ⟨Stream.sendFrame_storeData alloc c data,
    ⟨hframe.state_eq, hframe.confirmed_eq, hframe.fecEnabled_eq⟩,
    by rw [hframe.fec_eq]; constructor <;> rfl, hframe.lastSyncTime_eq, hframe.tunnelId_eq⟩

theorem SameSender.trans (h : SameSender c c') (h' : SameSender c' c'') : SameSender c c'' :=
  ⟨h.send.trans h'.send,
    ⟨h'.state.state_eq.trans h.state.state_eq, h'.state.confirmed_eq.trans h.state.confirmed_eq,
      h'.state.fecEnabled_eq.trans h.state.fecEnabled_eq⟩,
    h.fec.trans h'.fec, h'.lastSyncTime_eq.trans h.lastSyncTime_eq,
    h'.tunnelId_eq.trans h.tunnelId_eq⟩

theorem sameSender_setFec {fec : FecMod} (hfec : c.fec.SendFrame fec) :
    SameSender c (c.setFec fec) :=
  ⟨c.sendFrame_setFec fec, by constructor <;> rfl, hfec, rfl, rfl⟩

theorem sameSender_insertFec (alloc : Alloc) {inserted : FecMod.Inserted}
    (hinserted : Insertion flow event c.fec inserted) (hstate : c.state ≠ .request) :
    SameSender c (c.insertFec alloc inserted) := by
  have hset := sameSender_setFec hinserted.sendFrame
  have hestablish : (c.setFec inserted.fec).establish = c.setFec inserted.fec := by
    rw [Stream.establish, if_neg]
    exact hstate
  unfold Stream.insertFec
  split
  · exact hset
  · rw [hestablish]
    split
    · exact hset
    · exact hset.trans (sameSender_storeData alloc _ _)

theorem ReceiverFrame.of_stream
    (hgrows : Grows (fun flight => flight.packet.IsAck flow) Event.OfReceiver v v')
    (hcfg : v'.cfg = v.cfg) (htime : v'.curTime = v.curTime) (hready : v'.ready = v.ready)
    (hstream : v.stream = some c) (hstream' : v'.stream = some c') (hsame : SameSender c c') :
    ReceiverFrame flow v v' :=
  ⟨hgrows, hcfg, htime, hready, by rw [hstream, hstream']; exact .some hsame⟩

theorem ReceiverMove.frame (hmove : ReceiverMove flow env event start v v') :
    ReceiverFrame flow v v' := by
  cases hmove with
  | @store c data hstream hevent hlen huntouched =>
      exact .of_stream (.of_eq rfl rfl) rfl rfl rfl hstream rfl (sameSender_storeData _ c data)
  | @insert c inserted hstream hinserted huntouched hstate hdecode =>
      refine .of_stream ⟨⟨[], by simp [FlowState.withStream], by simp⟩,
        ⟨[.fecIndices flow inserted.indices] ++
          (inserted.recovered.map (fun dp => Event.fecRecovered flow dp)).toList, ?_, ?_⟩⟩
        rfl rfl rfl hstream rfl (sameSender_insertFec env.alloc hinserted hstate)
      · exact List.append_assoc _ _ _
      · intro e he
        rcases List.mem_append.mp he with he | he
        · exact List.mem_singleton.mp he ▸ trivial
        · obtain ⟨dp, -, rfl⟩ := Option.map_eq_some_iff.mp (Option.mem_toList.mp he)
          trivial
  | @checkpoint c hstream =>
      exact .of_stream (.of_eq rfl rfl) rfl rfl rfl hstream rfl
        (sameSender_setFec (FecMod.sendFrame_fecCheckpoint v.cfg c.fec c.rwinStart))
  | @read c c' size hstream hsize hreleased =>
      obtain ⟨-, recvBuf, rwinStart, rwinSize, rfl⟩ := Stream.releaseRecv_eq hreleased
      exact .of_stream ⟨⟨[], by simp [FlowState.note, FlowState.withStream], by simp⟩,
        ⟨[.read flow (c.front size.toNat)], rfl, by simp [Event.OfReceiver]⟩⟩ rfl rfl rfl hstream rfl
        ⟨by constructor <;> rfl, by constructor <;> rfl, by constructor <;> rfl, rfl, rfl⟩
  | @failed c size hstream hreleased =>
      exact .of_stream (grows_note v trivial) rfl rfl rfl hstream hstream
        ⟨by constructor <;> rfl, by constructor <;> rfl, by constructor <;> rfl, rfl, rfl⟩
  | @ack c acks sackMap hstream hacks =>
      exact .of_stream ⟨⟨[c.ackFlight flow acks], rfl, by simp [Packet.IsAck, Stream.ackFlight]⟩,
        ⟨[], by simp [FlowState.send, FlowState.withStream], by simp⟩⟩ rfl rfl rfl hstream rfl
        ⟨by constructor <;> rfl, by constructor <;> rfl, by constructor <;> rfl, rfl, rfl⟩

/-! ### Control moves -/

def Packet.IsControl : Packet → Prop
  | connectReq _ _ | connectRsp _ _ | connectRst _ | closeReq _ _ | closeRsp _ => True
  | _ => False

/-- What a control move does: it begins or ends the connection, or turns its state, and sends control
packets. -/
inductive ControlShape (flow : U32) (env : Env) (event : HostEvent) (v : FlowState) :
    FlowState → Prop where
  | create {state : ConnState} (tunnelId : U16) (hstream : v.stream = none) :
      ControlShape flow env event v
        ((v.withStream (Host.newConn v.cfg env.now tunnelId state).toStream).note (.created flow))
  | release {c : Stream} {cause : ReleaseCause} (hstream : v.stream = some c)
      (hreleases : Releases flow env event v.curTime c cause) :
      ControlShape flow env event v
        { v.note (.released flow cause c) with
          stream := none
          ready := unready v.ready (c.packetList.toList.map Prod.snd) }
  | turn {c : Stream} {out : List Flight} (state : ConnState) (confirmed : Bool)
      (hstream : v.stream = some c)
      (hout : ∃ fs, out = v.out ++ fs ∧ ∀ f ∈ fs, f.packet.IsControl) :
      ControlShape flow env event v
        { v with stream := some { c with state := state, confirmed := confirmed }, out := out }
  | send {out : List Flight} (hout : ∃ fs, out = v.out ++ fs ∧ ∀ f ∈ fs, f.packet.IsControl) :
      ControlShape flow env event v { v with out := out }

theorem ControlMove.shape (hmove : ControlMove flow env event v v') :
    ControlShape flow env event v v' := by
  have hnone : ∃ fs, v.out = v.out ++ fs ∧ ∀ f ∈ fs, f.packet.IsControl := ⟨[], by simp, by simp⟩
  have hone {flight : Flight} (hflight : flight.packet.IsControl) :
      ∃ fs, v.out ++ [flight] = v.out ++ fs ∧ ∀ f ∈ fs, f.packet.IsControl :=
    ⟨[flight], rfl, by simpa using hflight⟩
  cases hmove with
  | create tunnelId hstream hopens => exact .create tunnelId hstream
  | release hstream hreleases => exact .release hstream hreleases
  | @establish c hstream =>
      unfold Stream.establish
      split
      · exact .turn .established c.confirmed hstream hnone
      · exact .turn c.state c.confirmed hstream hnone
  | @close c hstream => exact .turn .finWait c.confirmed hstream (hone trivial)
  | confirm hstream hevent hfin hclosed hend =>
      rw [Stream.closeWait, if_pos hend]
      exact .turn .closed true hstream (hone trivial)
  | @closeWait c lastSeq hstream hevent hfin hclosed hend =>
      rw [Stream.closeWait, if_neg hend]
      exact .turn .closeWait c.confirmed hstream hnone
  | @reset c hstream => exact .turn .closed c.confirmed hstream hnone
  | closeReq | closeRsp | connectReq | connectRsp | connectRst => exact .send (hone trivial)

end

end Liteflow

import Liteflow.Proof.RefineConnection

/-!
# Incoming datagrams refine the transition system

One lemma for each handler of `Receive.lean`. A data packet is stored, and inserted into the error
correction, before any callback runs: until then nothing has been read from the stream since the event
began, which is what `Untouched` says.
-/

namespace Liteflow

namespace Stream

@[simp]
theorem establish_consumed (c : Stream) : c.establish.consumed = c.consumed := by
  unfold establish
  split <;> rfl

@[simp]
theorem establish_fec (c : Stream) : c.establish.fec = c.fec := by
  unfold establish
  split <;> rfl

theorem establish_state_ne (c : Stream) : c.establish.state ≠ .request := by
  unfold establish
  split
  · simp
  · assumption

/-- Storing data changes the receive window and the records of what to acknowledge only. -/
structure ReceiveFrame (c c' : Stream) : Prop where
  state_eq : c'.state = c.state
  tunnelId_eq : c'.tunnelId = c.tunnelId
  swinStart_eq : c'.swinStart = c.swinStart
  swinSize_eq : c'.swinSize = c.swinSize
  writeSeq_eq : c'.writeSeq = c.writeSeq
  sendSeq_eq : c'.sendSeq = c.sendSeq
  lastSyncTime_eq : c'.lastSyncTime = c.lastSyncTime
  sendBuf_eq : c'.sendBuf = c.sendBuf
  packetList_eq : c'.packetList = c.packetList
  waitingQueue_eq : c'.waitingQueue = c.waitingQueue
  fecEnabled_eq : c'.fecEnabled = c.fecEnabled
  fec_eq : c'.fec = c.fec
  acked_eq : c'.acked = c.acked
  consumed_eq : c'.consumed = c.consumed
  confirmed_eq : c'.confirmed = c.confirmed
  acks_eq : c'.acks = c.acks

theorem receiveFrame_pushSackMap (nodeAlloc : Bool) (c : Stream) (seq : U32) :
    ReceiveFrame c (c.pushSackMap nodeAlloc seq) := by
  unfold pushSackMap
  split
  · constructor <;> rfl
  · dsimp only
    split <;> constructor <;> rfl

theorem receiveFrame_storeData (alloc : Alloc) (c : Stream) (data : DataPost) :
    ReceiveFrame c (c.storeData alloc data).2 := by
  unfold storeData
  dsimp only
  split
  · obtain ⟨⟩ := receiveFrame_pushSackMap alloc.node
      ({ c with
        recvBuf := (c.recvBuf.rbufWrite alloc data.seq data.data).2
        stored := if (c.recvBuf.rbufWrite alloc data.seq data.data).1 = 0 then c.stored ++ [data]
          else c.stored } : Stream).updateRwin data.seq
    constructor <;> assumption
  · constructor <;> rfl

end Stream

theorem Untouched.of_eq {start : FlowState} {c c' : Stream} (huntouched : Untouched start c)
    (hconsumed : c'.consumed = c.consumed) (hfec : c'.fec = c.fec) : Untouched start c' := by
  unfold Untouched at *
  rw [hconsumed, hfec]
  exact huntouched

variable {flow : U32} {env : Env} {event : HostEvent} {start : FlowState} {h : Host} {g : U32}

namespace Host

/-! ### Pings -/

theorem reaches_pingReq : Reaches flow env event start h (h.litedtPingReq env) :=
  .single (.session .pingReq) (view_emit _ _)

theorem reaches_onPingReq {req : PingReq} (hevent : event = .io (.pingReq req)) :
    Reaches flow env event start h (h.litedtOnPingReq env req) := by
  unfold litedtOnPingReq
  split
  · exact .refl h
  · split
    · exact .refl h
    · rename_i htoken
      split
      · exact .refl h
      · exact .single (.session (.pingRsp hevent (not_not.mp htoken))) (view_emit _ _)

theorem view_goOnline :
    h.goOnline.view flow =
      { h.view flow with session := { (h.view flow).session with remoteOnline := true } } := by
  unfold goOnline
  split
  · rename_i honline
    have hsession : h.toSession = { h.toSession with remoteOnline := true } := by
      cases hs : h.toSession
      simp_all
    simp only [view]
    rw [← hsession]
  · dsimp only
    split
    · rfl
    · rw [view_litedtModEvtime]
      rfl

theorem reaches_onPingRsp {rsp : PingRsp} (hevent : event = .io (.pingRsp rsp)) :
    Reaches flow env event start h (h.litedtOnPingRsp env rsp) := by
  unfold litedtOnPingRsp
  split
  · rename_i haccepts
    rw [acceptsPingRsp, decide_eq_true_iff] at haccepts
    obtain ⟨hid, htime, hnode, -, -, htoken⟩ := haccepts
    refine .single (.session (.accept hevent hid htime hnode htoken)) ?_
    rw [view_goOnline]
    rfl
  · exact .refl h

/-! ### Connection requests -/

theorem reaches_onConnReq (tunnelId : U16) (noRsp : Bool) (hopens : Opens g event .established) :
    Reaches flow env event start h (h.litedtOnConnReq env g tunnelId noRsp).2 := by
  unfold litedtOnConnReq
  split
  · exact reaches_connRsp 0
  · dsimp only
    have hcreated : Reaches flow env event start h
        (h.createConnection env g tunnelId .established).2 :=
      reaches_createConnection tunnelId hopens
    split
    · split
      · exact hcreated
      · exact (hcreated.trans (reaches_connRsp 0)).trans (reaches_dataAck false)
    · exact hcreated.trans (reaches_connRsp _)

theorem reaches_establish (g : U32) :
    Reaches flow env event start h (h.modifyStream g Stream.establish) :=
  reaches_modifyStream fun _ _ hfind => .control (.establish (view_stream_of_find hfind))

theorem reaches_onConnRsp (status : Int) (hevent : event = .io (.connectRsp g status)) :
    Reaches flow env event start h (h.litedtOnConnRsp env g status).2 := by
  unfold litedtOnConnRsp
  split
  · exact .refl h
  · split
    · exact (reaches_establish g).trans (reaches_dataAck false)
    · exact reaches_releaseConnection fun _ _ => .refused hevent ‹_›

/-! ### Data -/

theorem reaches_reack : Reaches flow env event start h (h.reack g) :=
  .of_view_eq ((view_litedtModEvtime _ _).trans (view_modifyConn_flags fun _ => rfl))

theorem reaches_flushAcks (fuel : Nat) :
    Reaches flow env event start h (flushAcks g fuel h) := by
  induction fuel generalizing h with
  | zero => exact .refl h
  | succ fuel ih =>
      rw [flushAcks]
      split
      · exact (reaches_dataAck true).trans ih
      · exact .refl h

theorem reaches_acknowledge : Reaches flow env event start h (h.acknowledge g) := by
  unfold acknowledge
  split
  · exact .refl h
  · split
    · exact ((reaches_dataAck true).trans (reaches_flushAcks _)).trans reaches_reack
    · exact .of_view_eq ((view_litedtModEvtime _ _).trans (view_modifyConn_flags fun _ => rfl))

theorem reaches_finishDataRecv (readable : U32) :
    Reaches flow env event start h (h.finishDataRecv env g readable) := by
  unfold finishDataRecv
  dsimp only
  split
  · exact reaches_acknowledge
  · split
    · exact reaches_acknowledge.trans (reaches_notifyReceive readable)
    · exact reaches_acknowledge

theorem reaches_fecCheckpoint : Reaches flow env event start h (h.fecCheckpoint g) :=
  reaches_modifyStream fun _ _ hfind => .receiver (.checkpoint (view_stream_of_find hfind))

theorem reaches_onDataRecvWith {h₀ : Host} {insert : Host → Host} {data : DataPost} {conn : Conn}
    (hfind : h.findConnection g = some conn)
    (hestablished : data.len = 0 →
      Reaches flow env event start h₀ (h.modifyStream g Stream.establish))
    (hwritten : data.len ≠ 0 → Reaches flow env event start h₀
      ((h.modifyStream g Stream.establish).modifyStream g
        (fun _ => (conn.establish.storeData env.alloc data).2)))
    (hinsert : data.len ≠ 0 → h.decodes (conn.establish.storeData env.alloc data).2 = true →
      Reaches flow env event start
        ((h.modifyStream g Stream.establish).modifyStream g
          (fun _ => (conn.establish.storeData env.alloc data).2))
        (insert ((h.modifyStream g Stream.establish).modifyStream g
          (fun _ => (conn.establish.storeData env.alloc data).2)))) :
    Reaches flow env event start h₀ (h.onDataRecvWith env insert g data).2 := by
  unfold onDataRecvWith
  rw [hfind]
  dsimp only
  split
  · rename_i hlen
    exact ((hestablished hlen).trans (reaches_dataAck true)).trans reaches_reack
  · rename_i hlen
    refine ((hwritten hlen).trans ?_).trans (reaches_finishDataRecv _)
    split
    · rename_i hdecodes
      exact (hinsert hlen hdecodes.2).trans reaches_fecCheckpoint
    · exact .refl _

theorem reaches_fecInsert {insert : FecMod → FecMod.Inserted}
    (hinsert : g = flow → ∀ conn, h.findConnection g = some conn →
      Insertion g event conn.fec (insert conn.fec) ∧ Untouched start conn.toStream ∧
        conn.state ≠ .request ∧ h.cfg.fecDecode ≠ 0) :
    Reaches flow env event start h (h.fecInsert env insert g) := by
  unfold fecInsert
  cases hfind : h.findConnection g with
  | none => exact .refl h
  | some conn =>
      dsimp only
      set updated := (h.modifyStream g (fun c => c.setFec (insert conn.fec).fec)).record
        (.fecIndices g (insert conn.fec).indices) with hupdated
      obtain ⟨conn', hfind', hstream⟩ : ∃ conn', updated.findConnection g = some conn' ∧
          conn'.toStream = conn.setFec (insert conn.fec).fec :=
        find_modifyStream hfind (fun c => c.setFec (insert conn.fec).fec)
      by_cases heq : g = flow
      · subst heq
        obtain ⟨hinserted, huntouched, hstate, hdecode⟩ := hinsert rfl conn hfind
        have hview : updated.view g = ((h.view g).withStream
            (conn.setFec (insert conn.fec).fec)).note (.fecIndices g (insert conn.fec).indices) := by
          rw [hupdated, view_record, view_modifyStream_self hfind]
        have hmove : ReceiverMove g env event start _ _ := .insert (view_stream_of_find hfind)
          hinserted huntouched hstate hdecode
        cases hrecovered : (insert conn.fec).recovered with
        | none =>
            refine .receiver hmove ?_
            rw [hview]
            simp [Stream.insertFec, hrecovered, FlowState.note, FlowState.withStream]
        | some dp =>
            dsimp only
            have hreach : ∀ (h' : Host) (c' : Stream),
                c' = conn.toStream.insertFec env.alloc (insert conn.fec) →
                h'.view g = ((updated.record (.fecRecovered g dp)).view g).withStream c' →
                Reaches g env event start h h' := by
              intro h' c' hc' hh'
              refine .receiver hmove ?_
              rw [hh', view_record, hview, hc']
              simp [hrecovered, FlowState.note, FlowState.withStream]
            have hrecorded : (updated.record (.fecRecovered g dp)).findConnection g = some conn' :=
              hfind'
            refine reaches_onDataRecvWith hrecorded ?_ ?_ ?_
            · intro hlen
              refine hreach _ _ ?_ (view_modifyStream_self hrecorded _)
              simp [Stream.insertFec, hrecovered, hlen, hstream]
            · intro hlen
              obtain ⟨conn'', hfind'', -⟩ := find_modifyStream hrecorded Stream.establish
              refine hreach _ _ ?_ ((view_modifyStream_self hfind'' _).trans
                (by rw [view_modifyStream_self hrecorded]; rfl))
              simp only [Stream.insertFec, hrecovered, hstream, if_neg hlen]
            · exact fun _ _ => .refl _
      · have hnote : Reaches flow env event start h updated := by
          refine .foreignNote (.fecIndices g (insert conn.fec).indices) rfl heq ?_
          rw [hupdated, view_record, view_modifyStream_of_ne heq]
        cases hrecovered : (insert conn.fec).recovered with
        | none => exact hnote
        | some dp =>
            dsimp only
            have hrecorded : Reaches flow env event start h
                (updated.record (.fecRecovered g dp)) :=
              hnote.trans (.foreignNote (.fecRecovered g dp) rfl heq (view_record _))
            refine reaches_onDataRecvWith hfind' ?_ ?_ ?_
            · exact fun _ => hrecorded.silent (view_modifyStream_of_ne heq _)
            · exact fun _ => (hrecorded.silent (view_modifyStream_of_ne heq _)).silent
                (view_modifyStream_of_ne heq _)
            · exact fun _ _ => .refl _

theorem reaches_onDataRecv {data : DataPost} (hevent : Brings g event data)
    (huntouched : g = flow → ∀ conn, h.findConnection g = some conn →
      Untouched start conn.toStream) :
    Reaches flow env event start h (h.litedtOnDataRecv env g data).2 := by
  unfold litedtOnDataRecv
  cases hfind : h.findConnection g with
  | none =>
      simp only [onDataRecvWith, hfind]
      exact .refl h
  | some conn =>
      have hframe := Stream.receiveFrame_storeData env.alloc conn.establish data
      obtain ⟨conn', hfind', hstream⟩ := find_modifyStream hfind Stream.establish
      refine reaches_onDataRecvWith hfind (fun _ => reaches_establish g) ?_ ?_
      · intro hlen
        refine (reaches_establish g).trans ?_
        by_cases heq : g = flow
        · subst heq
          refine .receiver (.store (view_stream_of_find hfind') hevent hlen ?_)
            ((view_modifyStream_self hfind' _).trans (by rw [hstream]))
          exact (huntouched rfl conn hfind).of_eq (by simp [hstream]) (by simp [hstream])
        · exact .of_view_eq (view_modifyStream_of_ne heq _)
      · intro hlen hdecodes
        refine reaches_fecInsert fun heq written hwritten => ?_
        subst heq
        obtain ⟨conn'', hfind'', hstream'⟩ := find_modifyStream hfind'
          (fun _ => (conn.establish.storeData env.alloc data).2)
        obtain rfl : conn'' = written := Option.some.inj (hfind''.symm.trans hwritten)
        have hdecode : h.cfg.fecDecode ≠ 0 := by
          rw [decodes, decide_eq_true_iff] at hdecodes
          exact hdecodes.2
        refine ⟨.data hevent, (huntouched rfl conn hfind).of_eq ?_ ?_, ?_, hdecode⟩
        · rw [hstream', hframe.consumed_eq, Stream.establish_consumed]
        · rw [hstream', hframe.fec_eq, Stream.establish_fec]
        · rw [hstream', hframe.state_eq]
          exact Stream.establish_state_ne _

theorem reaches_onDataFec {sum : DataFec} (hevent : event = .io (.dataFec g sum))
    (huntouched : g = flow → ∀ conn, h.findConnection g = some conn →
      Untouched start conn.toStream) :
    Reaches flow env event start h (h.litedtOnDataFec env g sum).2 := by
  unfold litedtOnDataFec
  cases hfind : h.findConnection g with
  | none => exact .refl h
  | some conn =>
      dsimp only
      split
      · exact .refl h
      · rename_i hdecodes
        have hdecode : h.cfg.fecDecode ≠ 0 := by
          rw [Bool.not_eq_false, decodes, decide_eq_true_iff] at hdecodes
          exact hdecodes.2
        split
        · refine ((reaches_establish g).trans ?_).trans reaches_fecCheckpoint
          refine reaches_fecInsert fun heq conn' hfind' => ?_
          subst heq
          obtain ⟨conn'', hfind'', hstream⟩ := find_modifyStream hfind Stream.establish
          obtain rfl : conn'' = conn' := Option.some.inj (hfind''.symm.trans hfind')
          refine ⟨.sum hevent, (huntouched rfl conn hfind).of_eq ?_ ?_, ?_, hdecode⟩
          · rw [hstream, Stream.establish_consumed]
          · rw [hstream, Stream.establish_fec]
          · rw [hstream]
            exact Stream.establish_state_ne _
        · exact reaches_establish g

/-! ### Acknowledgements -/

theorem view_packetDelivered (packet : PacketEntry) (rs : RateSample) :
    (h.packetDelivered env packet rs).1.view flow = h.view flow := by
  unfold packetDelivered
  dsimp only
  split <;> rfl

theorem view_releasePacketEntry_of_ne (hne : g ≠ flow) (rs : RateSample) (packet : PacketEntry) :
    (releasePacketEntry env g (h, rs) packet).1.view flow = h.view flow := by
  have hview : (h.packetDelivered env packet rs).1.view flow = h.view flow :=
    view_packetDelivered packet rs
  unfold releasePacketEntry
  dsimp only
  split
  · refine Eq.trans ?_ hview
    simp only [view, entries_del_of_ne hne]
    rfl
  · exact hview

theorem view_releasePacketEntry_self (rs : RateSample) (packet : PacketEntry) :
    (releasePacketEntry env flow (h, rs) packet).1.view flow =
      { h.view flow with ready := unready (h.view flow).ready [packet] } := by
  have hview : (h.packetDelivered env packet rs).1.view flow = h.view flow :=
    view_packetDelivered packet rs
  unfold releasePacketEntry
  dsimp only [unready, List.foldl]
  split
  · rw [← hview, ← entries_del_self]
    rfl
  · exact hview

theorem view_foldl_release_of_ne (hne : g ≠ flow) (packets : List PacketEntry) (rs : RateSample) :
    (packets.foldl (releasePacketEntry env g) (h, rs)).1.view flow = h.view flow := by
  induction packets generalizing h rs with
  | nil => rfl
  | cons packet rest ih =>
      rw [List.foldl_cons]
      have hentry : (releasePacketEntry env g (h, rs) packet).1.view flow = h.view flow :=
        view_releasePacketEntry_of_ne hne rs packet
      generalize releasePacketEntry env g (h, rs) packet = state at hentry ⊢
      exact (ih state.2).trans hentry

theorem view_foldl_release_self (packets : List PacketEntry) (rs : RateSample) :
    (packets.foldl (releasePacketEntry env flow) (h, rs)).1.view flow =
      { h.view flow with ready := unready (h.view flow).ready packets } := by
  induction packets generalizing h rs with
  | nil => rfl
  | cons packet rest ih =>
      rw [List.foldl_cons]
      have hentry : (releasePacketEntry env flow (h, rs) packet).1.view flow =
          { h.view flow with ready := unready (h.view flow).ready [packet] } :=
        view_releasePacketEntry_self rs packet
      generalize releasePacketEntry env flow (h, rs) packet = state at hentry ⊢
      refine (ih state.2).trans ?_
      rw [hentry]
      rfl

theorem view_releasePackets_of_ne (hne : g ≠ flow) (released : Stream × List PacketEntry)
    (rs : RateSample) : (h.releasePackets env g released rs).1.view flow = h.view flow :=
  (view_foldl_release_of_ne hne _ _).trans (view_modifyStream_of_ne hne _)

theorem view_releasePackets_self {conn : Conn} (hfind : h.findConnection flow = some conn)
    (released : Stream × List PacketEntry) (rs : RateSample) :
    (h.releasePackets env flow released rs).1.view flow =
      { h.view flow with
        stream := some released.1
        ready := unready (h.view flow).ready released.2 } := by
  refine (view_foldl_release_self _ _).trans ?_
  rw [view_modifyStream_self hfind]
  rfl

theorem reaches_releasePacketRange {ack : DataAck} (hevent : event = .io (.dataAck g ack))
    {range : U32 × U32} (hrange : range ∈ ack.acks) (rs : RateSample) :
    Reaches flow env event start h (h.releasePacketRange env g range.1 range.2 rs).1 := by
  unfold releasePacketRange
  cases hfind : h.findConnection g with
  | none => exact .refl h
  | some conn =>
      dsimp only
      by_cases heq : g = flow
      · subst heq
        exact .single (.ack (.range (view_stream_of_find hfind) hevent hrange))
          (view_releasePackets_self hfind _ rs)
      · exact .of_view_eq (view_releasePackets_of_ne heq _ rs)

theorem reaches_releaseRanges {ack : DataAck} (hevent : event = .io (.dataAck g ack))
    {ranges : List (U32 × U32)} (hranges : ranges ⊆ ack.acks) (rs : RateSample) :
    Reaches flow env event start h (releaseRanges env g ranges h rs).1 := by
  unfold releaseRanges
  induction ranges generalizing h rs with
  | nil => exact .refl h
  | cons range rest ih =>
      rw [List.cons_subset] at hranges
      rw [List.foldl_cons]
      exact (reaches_releasePacketRange hevent hranges.1 rs).trans (ih hranges.2 _)

theorem reaches_moveWindow {ack : DataAck} (hevent : event = .io (.dataAck g ack))
    (rs : RateSample) : Reaches flow env event start h (h.moveWindow env g ack rs).1 := by
  unfold moveWindow
  cases hfind : h.findConnection g with
  | none => exact .refl h
  | some conn =>
      dsimp only
      split
      · rename_i hwindow
        cases hmoved : conn.moveSwin env.alloc.node h.curTime ack with
        | none =>
            dsimp only
            by_cases heq : g = flow
            · subst heq
              exact .single (.ack (.failed (view_stream_of_find hfind) hevent hwindow hmoved))
                (view_record _)
            · exact .foreignNote (.assertFailed g .ackRelease) rfl heq (view_record _)
        | some moved =>
            dsimp only
            obtain ⟨conn', hfind', hstream⟩ : ∃ conn', (h.modifyConn g (fun c =>
                { c with toStream := moved, probesSent := 0 })).findConnection g = some conn' ∧
                conn'.toStream = moved := by
              rw [findConnection_modifyConn, if_pos rfl, hfind]
              exact ⟨_, rfl, rfl⟩
            unfold retransCheckpoint
            rw [hfind']
            dsimp only
            by_cases heq : g = flow
            · subst heq
              refine .single (.ack (.window (view_stream_of_find hfind) hevent hwindow hmoved)) ?_
              rw [view_releasePackets_self hfind', view_modifyConn_self hfind, hstream]
              rfl
            · exact .of_view_eq ((view_releasePackets_of_ne heq _ rs).trans
                (view_modifyConn_of_ne heq _))
      · exact .refl h

theorem reaches_onDataAck {ack : DataAck} (hevent : event = .io (.dataAck g ack)) :
    Reaches flow env event start h (h.litedtOnDataAck env g ack).2 := by
  unfold litedtOnDataAck
  cases hfind : h.findConnection g with
  | none => exact .refl h
  | some conn =>
      dsimp only
      set ranged := releaseRanges env g ack.acks (h.modifyStream g Stream.establish) {}
      set moved := ranged.1.moveWindow env g ack ranged.2
      have hmoved : Reaches flow env event start h moved.1 :=
        ((reaches_establish g).trans
          (reaches_releaseRanges hevent (List.Subset.refl _) {})).trans
            (reaches_moveWindow hevent ranged.2)
      have hcontrolled : Reaches flow env event start h
          ((moved.1.generateBandwidth moved.2 (moved.1.delivered - h.delivered)).ctrlIoEvent
            moved.2) :=
        (hmoved.silent (view_generateBandwidth _ _)).silent (view_ctrlIoEvent _)
      split
      · exact hcontrolled
      · split
        · exact hcontrolled.trans (reaches_notifySend _)
        · exact hcontrolled

/-! ### Closing -/

theorem reaches_onCloseReq (lastSeq : U32) (hevent : event = .io (.closeReq g lastSeq)) :
    Reaches flow env event start h (h.litedtOnCloseReq env g lastSeq) := by
  unfold litedtOnCloseReq
  cases hfind : h.findConnection g with
  | none =>
      refine reaches_closeRsp fun heq => ?_
      subst heq
      exact .absent hevent ((view_stream_eq_none h g).mpr hfind)
  | some conn =>
      dsimp only
      split
      · rename_i hfin
        refine (reaches_releaseFound hfind (.closeReq hevent hfin)).trans
          (reaches_closeRsp fun heq => ?_)
        · subst heq
          refine .absent hevent ?_
          simp only [releaseConnection, hfind]
          exact congrArg FlowState.stream (view_delConn_self _)
      · rename_i hfin
        split
        · exact .refl h
        · rename_i hclosed
          split
          · rename_i hend
            refine .silent ?_ (view_litedtModEvtime _ _)
            by_cases heq : g = flow
            · subst heq
              refine .control (.confirm (view_stream_of_find hfind) hevent hfin hclosed hend) ?_
              rw [litedtCloseRsp, view_emit, view_modifyStream_self hfind]
            · refine .foreignSend { packet := .closeRsp g } rfl heq ?_
              rw [litedtCloseRsp, view_emit, view_modifyStream_of_ne heq]
          · rename_i hend
            refine .silent (reaches_modifyStream fun conn' heq hfind' => ?_) (view_litedtModEvtime _ _)
            subst heq
            obtain rfl := Option.some.inj (hfind.symm.trans hfind')
            exact .control (.closeWait (view_stream_of_find hfind) hevent hfin hclosed hend)

theorem reaches_onCloseRsp (hevent : event = .io (.closeRsp g)) :
    Reaches flow env event start h (h.litedtOnCloseRsp env g) := by
  unfold litedtOnCloseRsp
  cases hfind : h.findConnection g with
  | none => exact .refl h
  | some conn =>
      dsimp only
      split
      · exact reaches_releaseFound hfind (.closeRsp hevent ‹_›)
      · exact .refl h

theorem reaches_onConnRst (hevent : event = .io (.connectRst g)) :
    Reaches flow env event start h (h.litedtOnConnRst env g) := by
  unfold litedtOnConnRst
  cases hfind : h.findConnection g with
  | none => exact .refl h
  | some conn =>
      dsimp only
      split
      · exact reaches_releaseFound hfind (.reset hevent ‹_›)
      · refine .silent (reaches_modifyStream fun conn' heq hfind' => ?_) (view_litedtModEvtime _ _)
        subst heq
        obtain rfl := Option.some.inj (hfind.symm.trans hfind')
        exact .control (.reset (view_stream_of_find hfind) hevent ‹_›)

/-! ### Dispatch -/

theorem reaches_resetOnError {result : Int × Host}
    (hresult : Reaches flow env event start h result.2) :
    Reaches flow env event start h (resetOnError g result) := by
  unfold resetOnError
  split
  · exact hresult
  · exact hresult.trans reaches_connRst

theorem untouched_view {conn : Conn} (hfind : h.findConnection flow = some conn) :
    Untouched (h.view flow) conn.toStream := by
  unfold Untouched
  rw [view_stream_of_find hfind]
  exact ⟨rfl, rfl⟩

theorem find_createConnection {tunnelId : U16} {state : ConnState} {conn : Conn}
    (hbefore : h.findConnection flow = none)
    (hfind : (h.createConnection env flow tunnelId state).2.findConnection flow = some conn) :
    conn.toStream = (newConn h.cfg env.now tunnelId state).toStream := by
  unfold createConnection at hfind
  rw [hbefore] at hfind
  simp only [Option.isSome_none, Bool.false_eq_true, ↓reduceIte] at hfind
  split at hfind
  · exact absurd hfind (by simp [hbefore])
  · split at hfind
    · exact absurd hfind (by simp [hbefore])
    · have hstream := view_stream_of_find hfind
      rw [view_litedtModEvtime, view_record, view_push_self hbefore] at hstream
      exact (Option.some.inj hstream).symm

theorem untouched_onConnReq (tunnelId : U16) {conn : Conn}
    (hfind : (h.litedtOnConnReq env flow tunnelId true).2.findConnection flow = some conn) :
    Untouched (h.view flow) conn.toStream := by
  unfold litedtOnConnReq at hfind
  cases hbefore : h.findConnection flow with
  | some before =>
      rw [hbefore] at hfind
      rw [litedtConnRsp, find_emit] at hfind
      exact untouched_view hfind
  | none =>
      rw [hbefore] at hfind
      have hcreated :
          (h.createConnection env flow tunnelId .established).2.findConnection flow = some conn := by
        dsimp only at hfind
        split at hfind
        · exact hfind
        · rwa [litedtConnRsp, find_emit] at hfind
      unfold Untouched
      rw [(view_stream_eq_none h flow).mpr hbefore, find_createConnection hbefore hcreated]
      exact ⟨rfl, rfl⟩

theorem reaches_ioEvent (packet : Packet) (hevent : event = .io packet)
    (hstart : start = (h.updateTime env).view flow) :
    Reaches flow env event start (h.updateTime env) (h.litedtIoEvent env packet) := by
  unfold litedtIoEvent
  cases packet with
  | pingReq req => exact reaches_onPingReq hevent
  | pingRsp rsp => exact reaches_onPingRsp hevent
  | connectReq g tunnelId => exact reaches_onConnReq tunnelId false (.request hevent)
  | connectRsp g status => exact reaches_resetOnError (reaches_onConnRsp status hevent)
  | dataAck g ack => exact reaches_resetOnError (reaches_onDataAck hevent)
  | closeReq g lastSeq => exact reaches_onCloseReq lastSeq hevent
  | closeRsp g => exact reaches_onCloseRsp hevent
  | connectRst g => exact reaches_onConnRst hevent
  | dataPost g sent =>
      dsimp only
      split
      · exact .refl _
      · rename_i data hdata
        refine reaches_resetOnError (reaches_onDataRecv ⟨sent, hdata, .inl hevent⟩ ?_)
        rintro rfl conn hfind
        rw [hstart]
        exact untouched_view hfind
  | connectData g tunnelId sent =>
      dsimp only
      split
      · exact .refl _
      · rename_i data hdata
        split
        · refine (reaches_onConnReq tunnelId true (.data hevent)).trans
            (reaches_resetOnError (reaches_onDataRecv ⟨sent, hdata, .inr ⟨tunnelId, hevent⟩⟩ ?_))
          rintro rfl conn hfind
          have huntouched := untouched_onConnReq tunnelId hfind
          rw [hstart]
          exact huntouched
        · exact reaches_onConnReq tunnelId true (.data hevent)
  | dataFec g fec =>
      dsimp only
      refine reaches_resetOnError (reaches_onDataFec hevent ?_)
      rintro rfl conn hfind
      rw [hstart]
      exact untouched_view hfind

end Host

end Liteflow

import Liteflow.Acts
import Liteflow.Proof.Frames
import Liteflow.Proof.Treemap

/-!
# An event is a sequence of acts

One lemma for each function of the model. The lemmas are stated for a host that has been reached by
acts already, so that they can be chained.
-/

namespace Liteflow

/-! ### Quiet changes of a stream -/

namespace Stream

variable {c c' : Stream}

theorem owes_eq_true : c.owes = true ↔
    c.state.code ≤ ConnState.finWait.code ∧ Host.isSndQueueEmpty c = false := by
  simp [owes]

theorem owes_of_sendFrame (hframe : SendFrame c c')
    (hstate : c'.state.code ≤ ConnState.finWait.code → c.state.code ≤ ConnState.finWait.code)
    (howes : c'.owes = true) : c.owes = true := by
  rw [owes_eq_true, Host.isSndQueueEmpty] at *
  rw [hframe.writeSeq_eq, hframe.sendSeq_eq, hframe.packetList_eq] at howes
  exact ⟨hstate howes.1, howes.2⟩

theorem owes_of_relisted (hrelisted : Relisted c c')
    (hempty : c.packetList.treemapSize = 0 → c'.packetList.treemapSize = 0)
    (howes : c'.owes = true) : c.owes = true := by
  obtain ⟨list, queue, rfl⟩ := hrelisted
  rw [owes_eq_true] at *
  refine ⟨howes.1, ?_⟩
  have hpending := howes.2
  simp only [Host.isSndQueueEmpty, decide_eq_false_iff_not, not_and] at hpending ⊢
  exact fun hseq hsize => hpending hseq (hempty hsize)

theorem owes_of_pending (hpending : Host.isSndQueueEmpty c = false)
    (hstate : c'.state = c.state) (howes : c'.owes = true) : c.owes = true := by
  rw [owes_eq_true] at *
  exact ⟨hstate ▸ howes.1, hpending⟩

theorem size_setValue (list : Treemap U32 PacketEntry) (key : U32)
    (update : PacketEntry → PacketEntry) :
    (list.treemapSetValue key update).treemapSize = list.treemapSize := by
  rw [Treemap.treemapSize, Treemap.treemapSetValue_toList, List.length_map, Treemap.treemapSize]

theorem size_readyLoop (time : Time) (queue : List U32) (c : Stream) :
    (c.readyLoop time queue).1.packetList.treemapSize = c.packetList.treemapSize := by
  induction queue generalizing c with
  | nil => rfl
  | cons key rest ih =>
      unfold readyLoop
      split
      · rfl
      · split
        · rfl
        · exact (ih _).trans (size_setValue _ _ _)

theorem releaseRange_of_empty (hempty : c.packetList.treemapSize = 0) (seqStart seqEnd : U32) :
    (c.releaseRange seqStart seqEnd).1 = c := by
  rw [releaseRange, hempty]
  rfl

theorem checkpoint_of_empty (hempty : c.packetList.treemapSize = 0) (swndStart : U32) :
    (c.checkpoint swndStart).1 = c := by
  rw [checkpoint, hempty]
  rfl

theorem owes_establish (howes : c.establish.owes = true) : c.owes = true := by
  refine owes_of_sendFrame (sendFrame_establish c) (fun hstate => ?_) howes
  unfold establish at hstate
  split at hstate
  · rename_i hrequest
    rw [hrequest]
    decide
  · exact hstate

theorem owes_closeWait (lastSeq : U32) : (c.closeWait lastSeq).owes = false := by
  unfold closeWait owes
  split <;> simp [ConnState.code]

theorem pending_of_value {key : U32} {packet : PacketEntry}
    (hvalue : c.packetList.treemapValue key = some packet) : Host.isSndQueueEmpty c = false := by
  have hne : c.packetList.treemapSize ≠ 0 := by
    intro hzero
    rw [Treemap.treemapSize, List.length_eq_zero_iff] at hzero
    rw [Treemap.treemapValue, hzero] at hvalue
    simp at hvalue
  simp [Host.isSndQueueEmpty, hne]

theorem mem_snapshots {delivered : U32} : delivered ∈ c.snapshots ↔
    ∃ entry ∈ c.packetList.toList, entry.2.delivered = delivered :=
  List.mem_map

theorem map_setValue {α : Type} (read : PacketEntry → α) (list : Treemap U32 PacketEntry)
    (key : U32) {update : PacketEntry → PacketEntry}
    (hupdate : ∀ packet, read (update packet) = read packet) :
    (list.treemapSetValue key update).toList.map (fun entry => read entry.2) =
      list.toList.map (fun entry => read entry.2) := by
  rw [Treemap.treemapSetValue_toList, List.map_map]
  refine List.map_congr_left fun entry _ => ?_
  dsimp only [Function.comp_apply]
  split
  · exact hupdate entry.2
  · rfl

theorem snapshots_removePacket (c : Stream) (key : U32) (packet : PacketEntry) :
    (c.removePacket key packet).snapshots ⊆ c.snapshots :=
  List.map_subset _ (Treemap.treemapDelete_subset _ _ _)

theorem snapshots_releaseRange (c : Stream) (seqStart seqEnd : U32) :
    (c.releaseRange seqStart seqEnd).1.snapshots ⊆ c.snapshots :=
  releaseRange_keeps (P := fun c' => c'.snapshots ⊆ c.snapshots)
    (fun c' key packet => List.Subset.trans (snapshots_removePacket c' key packet)) _ _
    (List.Subset.refl _)

theorem snapshots_checkpoint (c : Stream) (swndStart : U32) :
    (c.checkpoint swndStart).1.snapshots ⊆ c.snapshots :=
  checkpoint_keeps (P := fun c' => c'.snapshots ⊆ c.snapshots)
    (fun c' key packet => List.Subset.trans (snapshots_removePacket c' key packet)) _
    (List.Subset.refl _)

theorem map_readyLoop {α : Type} (read : PacketEntry → α)
    (hready : ∀ packet : PacketEntry, read { packet with isReady := true } = read packet)
    (time : Time) (queue : List U32) (c : Stream) :
    (c.readyLoop time queue).1.packetList.toList.map (fun entry => read entry.2) =
      c.packetList.toList.map (fun entry => read entry.2) := by
  refine readyLoop_keeps (P := fun c' => c'.packetList.toList.map (fun entry => read entry.2) =
    c.packetList.toList.map (fun entry => read entry.2)) (fun c' key h => ?_) time queue rfl
  exact (map_setValue read c'.packetList key hready).trans h

theorem quiet_of_packetList (howes : c'.owes = true → c.owes = true)
    (hlist : c'.packetList = c.packetList) : Quiet c c' where
  owes := howes
  snapshots := by rw [snapshots, hlist, snapshots]
  lengths := by rw [lengths, hlist, lengths]

theorem quiet_of_sendFrame (hframe : SendFrame c c')
    (hstate : c'.state.code ≤ ConnState.finWait.code → c.state.code ≤ ConnState.finWait.code) :
    Quiet c c' :=
  quiet_of_packetList (owes_of_sendFrame hframe hstate) hframe.packetList_eq

theorem quiet_establish (c : Stream) : Quiet c c.establish :=
  quiet_of_packetList owes_establish (sendFrame_establish c).packetList_eq

theorem quiet_closeWait (c : Stream) (lastSeq : U32) : Quiet c (c.closeWait lastSeq) := by
  refine quiet_of_packetList (fun howes => absurd howes (by rw [owes_closeWait]; simp)) ?_
  unfold closeWait
  split <;> rfl

theorem quiet_readyLoop (time : Time) (queue : List U32) (c : Stream) :
    Quiet c (c.readyLoop time queue).1 where
  owes := owes_of_relisted (relisted_readyLoop _ _ _) fun hempty => by rw [size_readyLoop, hempty]
  snapshots := map_readyLoop _ (fun _ => rfl) time queue c
  lengths := map_readyLoop _ (fun _ => rfl) time queue c

theorem quiet_requeue (c : Stream) (key : U32) (time : Time) : Quiet c (c.requeue key time) where
  owes := owes_of_relisted (relisted_requeue _ _ _) fun hempty =>
    (size_setValue _ _ _).trans hempty
  snapshots := map_setValue _ _ _ fun _ => rfl
  lengths := map_setValue _ _ _ fun _ => rfl

end Stream

namespace Acts

open Host

variable {env : Env} {event : HostEvent} {may : Packet → Prop} {h₀ h h' : Host} {flow : U32} {conn : Conn}

/-! ### Chaining -/

theorem refl (h : Host) : Acts env event may h h :=
  Relation.ReflTransGen.refl

theorem act (hs : Acts env event may h₀ h) (hact : Act env event may h h') : Acts env event may h₀ h' :=
  Relation.ReflTransGen.tail hs hact

theorem aside (hs : Acts env event may h₀ h) (htables : h'.tables = h.tables)
    (hgauges : h'.gauges = h.gauges) (hqueue : h'.connQueue = h.connQueue)
    (hbytes : h'.inflightBytes = h.inflightBytes) : Acts env event may h₀ h' :=
  hs.act (.aside htables hgauges hqueue hbytes)

theorem preserves {P : Host → Prop} (hs : Acts env event may h h')
    (hact : ∀ h h', Act env event may h h' → P h → P h') (hP : P h) : P h' := by
  unfold Acts at hs
  induction hs with
  | refl => exact hP
  | tail _ hlast ih => exact hact _ _ hlast ih

theorem foldl {α : Type} {run : Host → α → Host} {calls : List α} (hs : Acts env event may h₀ h)
    (hrun : ∀ call ∈ calls, ∀ h, Acts env event may h₀ h → Acts env event may h₀ (run h call)) :
    Acts env event may h₀ (calls.foldl run h) := by
  induction calls generalizing h with
  | nil => exact hs
  | cons call rest ih =>
      exact ih (hrun call (by simp) h hs) fun call' hcall' => hrun call' (by simp [hcall'])

/-! ### Small functions -/

theorem socketSend (hs : Acts env event may h₀ h) {flight : Flight} (hmay : may flight.packet)
    (len : Nat) (force : Bool) : Acts env event may h₀ (h.socketSend flight len force).2 := by
  unfold Host.socketSend
  split
  · exact hs
  · exact hs.act (.send flight _ hmay)

theorem emit (hs : Acts env event may h₀ h) {flight : Flight} (hmay : may flight.packet) (len : Nat) :
    Acts env event may h₀ (h.emit flight len) :=
  hs.socketSend hmay len true

theorem record (hs : Acts env event may h₀ h) {entry : Event} (hentry : entry.isTurn = false) :
    Acts env event may h₀ (h.record entry) :=
  hs.act (.note entry hentry)

theorem modifyConn (hs : Acts env event may h₀ h) (flow : U32) {update : Conn → Conn}
    (hactive : ∀ conn, (update conn).active = conn.active)
    (hquiet : ∀ conn, h.findConnection flow = some conn →
      conn.toStream.Quiet (update conn).toStream) :
    Acts env event may h₀ (h.modifyConn flow update) :=
  hs.act (.update flow update hactive hquiet)

theorem modifyStream (hs : Acts env event may h₀ h) (flow : U32) {update : Stream → Stream}
    (hquiet : ∀ conn, h.findConnection flow = some conn →
      conn.toStream.Quiet (update conn.toStream)) :
    Acts env event may h₀ (h.modifyStream flow update) :=
  hs.modifyConn flow (fun _ => rfl) hquiet

theorem modifyFlags (hs : Acts env event may h₀ h) (flow : U32) {update : Conn → Conn}
    (hactive : ∀ conn, (update conn).active = conn.active)
    (hstream : ∀ conn, (update conn).toStream = conn.toStream) :
    Acts env event may h₀ (h.modifyConn flow update) :=
  hs.modifyConn flow hactive fun conn _ => by
    rw [hstream]
    exact ⟨fun howes => howes, rfl, rfl⟩

theorem modEvtime (hs : Acts env event may h₀ h) (flow : Option U32) (time : Time) :
    Acts env event may h₀ (h.litedtModEvtime flow time) :=
  hs.act (.wake flow time)

/-! ### Datagrams -/

theorem fecPost (hs : Acts env event may h₀ h) (hall : ∀ p, may p) (flow : U32) :
    Acts env event may h₀ (h.fecPost flow) := by
  unfold Host.fecPost
  split
  · exact hs
  · split
    · exact hs
    · refine (hs.emit (hall _) _).modifyStream flow fun _ _ => ?_
      exact ⟨fun howes => howes, rfl, rfl⟩

theorem fecPushData (hs : Acts env event may h₀ h) (hall : ∀ p, may p) (flow : U32) (post : DataPost) :
    Acts env event may h₀ (h.fecPushData flow post) := by
  have hpushed : Acts env event may h₀ (h.modifyStream flow (fun c =>
      c.setFec (c.fec.fecPushData post))) :=
    hs.modifyStream flow fun _ _ => ⟨fun howes => howes, rfl, rfl⟩
  unfold Host.fecPushData
  dsimp only
  split
  · exact hpushed
  · split
    · exact hpushed.fecPost hall flow
    · exact hpushed

theorem dataPost (hs : Acts env event may h₀ h) (hall : ∀ p, may p) {len : U32}
    (htime : len ≠ 0 → event.isTime = true)
    (hpending : len ≠ 0 → ∀ conn, h.findConnection flow = some conn →
      isSndQueueEmpty conn.toStream = false)
    (seq fecSeq : U32) (fecIndex : U8) (fecPost : Bool) :
    Acts env event may h₀ (h.litedtDataPost env flow seq len fecSeq fecIndex fecPost).2 := by
  unfold litedtDataPost
  split
  · exact hs
  · split
    · exact hs
    · split
      · exact hs
      · rename_i conn hfind
        split
        · exact hs
        · have hentered : Acts env event may h₀ (h.enterPost env flow conn seq len fecSeq fecIndex) := by
            unfold enterPost
            split
            · exact hs
            · exact (hs.record rfl).act (.post flow _ _ _ _ (htime ‹_›) (hpending ‹_›))
          dsimp only
          split
          · exact (hentered.socketSend (hall _) _ _).fecPushData hall flow _
          · exact hentered.socketSend (hall _) _ _

theorem dataAck (hs : Acts env event may h₀ h) (hmay : ∀ ack, may (.dataAck flow ack)) (ackList : Bool) :
    Acts env event may h₀ (h.litedtDataAck flow ackList) := by
  unfold litedtDataAck
  split
  · exact hs
  · dsimp only
    refine Acts.emit (hs.modifyStream flow fun _ _ => ?_) (hmay _) _
    exact ⟨fun howes => howes, rfl, rfl⟩

/-! ### Creating and releasing -/

theorem createConnection (hs : Acts env event may h₀ h) (flow : U32) (tunnelId : U16)
    (state : ConnState) : Acts env event may h₀ (h.createConnection env flow tunnelId state).2 := by
  unfold Host.createConnection
  split
  · exact hs
  · rename_i hnone
    rw [Option.not_isSome_iff_eq_none] at hnone
    split
    · exact hs
    · rename_i hfree
      rw [Option.not_isSome_iff_eq_none] at hfree
      dsimp only
      split
      · exact hs
      · dsimp only
        exact (hs.act (.create flow tunnelId state hnone hfree)).modEvtime _ _

theorem releaseConnection (hs : Acts env event may h₀ h) (cause : ReleaseCause) (flow : U32) :
    Acts env event may h₀ (h.releaseConnection env cause flow) := by
  cases hfind : h.findConnection flow with
  | none =>
      unfold Host.releaseConnection
      rw [hfind]
      exact hs
  | some conn => exact hs.act (.release flow cause hfind)

theorem releaseAll (hs : Acts env event may h₀ h) (cause : ReleaseCause) :
    Acts env event may h₀ (h.releaseAllConnections env cause) := by
  unfold releaseAllConnections
  generalize h.connQueue.timerlistSize = fuel
  induction fuel generalizing h with
  | zero => exact hs
  | succ fuel ih =>
      unfold releaseAllLoop
      split
      · exact hs
      · exact ih (hs.releaseConnection cause _)

theorem fini (hs : Acts env event may h₀ h) : Acts env event may h₀ (h.litedtFini env) :=
  (hs.releaseAll .finalised).aside rfl rfl rfl rfl

/-! ### Calls of the application -/

theorem connect (hs : Acts env event may h₀ h) (hall : ∀ p, may p) (flow : U32) (tunnelId : U16) :
    Acts env event may h₀ (h.litedtConnect env flow tunnelId).2 := by
  unfold litedtConnect
  split
  · exact hs
  · dsimp only
    split
    · exact hs.emit (hall _) _
    · have hcreated := hs.createConnection flow tunnelId .request
      split
      · exact hcreated.emit (hall _) _
      · exact hcreated

theorem close (hs : Acts env event may h₀ h) (hall : ∀ p, may p) (flow : U32) :
    Acts env event may h₀ (h.litedtClose env flow).2 := by
  unfold litedtClose
  split
  · exact hs
  · split
    · rename_i conn hfind hstate
      have hclosing : Acts env event may h₀
          (h.modifyStream flow (fun c => { c with state := .finWait })) := by
        refine hs.modifyStream flow fun conn' hfind' => ?_
        obtain rfl := Option.some.inj (hfind.symm.trans hfind')
        refine Stream.quiet_of_sendFrame (by constructor <;> rfl) fun _ => ?_
        exact hstate.trans (by decide)
      dsimp only
      exact (hclosing.emit (hall _) _).modEvtime _ _
    · split
      · exact (hs.emit (hall _) _).releaseConnection _ _
      · exact hs

theorem activate_record (h : Host) (event : Event) (flow : U32) :
    (h.record event).activate flow = (h.activate flow).record event := by
  unfold activate
  rw [find_record]
  split
  · rfl
  · split <;> rfl

theorem packetList_write (alloc : Alloc) (c : Stream) (data : List Byte) :
    (c.write alloc data).packetList = c.packetList := by
  unfold Stream.write
  rfl

theorem send (hs : Acts env event may h₀ h) (flow : U32) (data : Payload) :
    Acts env event may h₀ (h.litedtSend env flow data).2 := by
  unfold litedtSend
  cases hfind : h.findConnection flow with
  | none => exact hs
  | some conn =>
      dsimp only
      split
      · exact hs
      · split
        · exact hs
        · split
          · exact hs
          · dsimp only
            rw [activate_record]
            exact ((hs.act (.write flow _ hfind (packetList_write _ _ _))).record rfl).modEvtime _ _

theorem releaseFront (hs : Acts env event may h₀ h) (hfind : h.findConnection flow = some conn)
    (size : U32) : Acts env event may h₀ (h.releaseFront env flow conn size) := by
  unfold Host.releaseFront
  split
  · exact hs.record rfl
  · rename_i stream hreleased
    have hmodified : Acts env event may h₀ (h.modifyConn flow (fun c =>
        { c with toStream := stream, reackTimes := 2 })) := by
      refine hs.modifyConn flow (fun _ => rfl) fun conn' hfind' => ?_
      obtain rfl := Option.some.inj (hfind.symm.trans hfind')
      obtain ⟨-, recvBuf, rwinStart, rwinSize, rfl⟩ := Stream.releaseRecv_eq hreleased
      exact ⟨fun howes => howes, rfl, rfl⟩
    exact (hmodified.record rfl).modEvtime _ _

theorem recv (hs : Acts env event may h₀ h) (flow len : U32) :
    Acts env event may h₀ (h.litedtRecv env flow len).2 := by
  unfold litedtRecv
  split
  · exact hs
  · dsimp only
    split
    · exact hs
    · exact hs.releaseFront ‹_› _

theorem recvSkip (hs : Acts env event may h₀ h) (flow len : U32) :
    Acts env event may h₀ (h.litedtRecvSkip env flow len) := by
  unfold litedtRecvSkip
  split
  · exact hs
  · split
    · exact hs
    · exact hs.releaseFront ‹_› _

/-! ### Callbacks -/

theorem receiveCall (hs : Acts env event may h₀ h) (flow : U32) (call : ReceiveCall) :
    Acts env event may h₀ (Host.receiveCall env flow h call) := by
  cases call with
  | recv len => exact hs.recv flow len
  | skip len => exact hs.recvSkip flow len
  | setNotifyRecv notify => exact hs.modifyFlags flow (fun _ => rfl) fun _ => rfl
  | setNotifyRecvnew notify => exact hs.modifyFlags flow (fun _ => rfl) fun _ => rfl

theorem sendCall (hs : Acts env event may h₀ h) (flow : U32) {call : SendCall}
    (hcloses : call = .close → ∀ p, may p) :
    Acts env event may h₀ (Host.sendCall env flow h call) := by
  cases call with
  | send data => exact hs.send flow data
  | setNotifySend notify => exact hs.modifyFlags flow (fun _ => rfl) fun _ => rfl
  | close => exact hs.close (hcloses rfl) flow

theorem notifyReceive (hs : Acts env event may h₀ h) (flow readable : U32) :
    Acts env event may h₀ (h.notifyReceive env flow readable) := by
  unfold Host.notifyReceive
  split
  · exact hs
  · exact hs.foldl fun call _ h hs => hs.receiveCall flow call

theorem notifySend (hs : Acts env event may h₀ h) (hcloses : env.Closes → ∀ p, may p)
    (flow writable : U32) : Acts env event may h₀ (h.notifySend env flow writable) := by
  unfold Host.notifySend
  split
  · exact hs
  · rename_i sendCb hcb
    refine hs.foldl fun call hcall h' hs' => hs'.sendCall flow fun hclose => ?_
    exact hcloses ⟨sendCb, h, flow, writable, hcb, hclose ▸ hcall⟩

theorem call (hs : Acts env event may h₀ h) (hall : ∀ p, may p) (call : Call) :
    Acts env event may h₀ (h.call env call) := by
  cases call with
  | connect flow tunnelId => exact hs.connect hall flow tunnelId
  | close flow => exact hs.close hall flow
  | send flow data => exact hs.send flow data
  | recv flow len => exact hs.recv flow len
  | skip flow len => exact hs.recvSkip flow len
  | setNotifyRecv flow notify => exact hs.modifyFlags flow (fun _ => rfl) fun _ => rfl
  | setNotifyRecvnew flow notify => exact hs.modifyFlags flow (fun _ => rfl) fun _ => rfl
  | setNotifySend flow notify => exact hs.modifyFlags flow (fun _ => rfl) fun _ => rfl

/-! ### Incoming datagrams -/

theorem onPingReq (hs : Acts env event may h₀ h) (hmay : ∀ rsp, may (.pingRsp rsp)) (req : PingReq) :
    Acts env event may h₀ (h.litedtOnPingReq env req) := by
  unfold litedtOnPingReq
  repeat' split
  · exact hs
  · exact hs
  · exact hs
  · exact hs.emit (hmay _) _

theorem goOnline (hs : Acts env event may h₀ h) : Acts env event may h₀ h.goOnline := by
  unfold Host.goOnline
  split
  · exact hs
  · dsimp only
    split
    · exact hs.aside rfl rfl rfl rfl
    · refine Acts.modEvtime ?_ _ _
      exact hs.aside rfl rfl rfl rfl

theorem onPingRsp (hs : Acts env event may h₀ h) (rsp : PingRsp) :
    Acts env event may h₀ (h.litedtOnPingRsp env rsp) := by
  unfold litedtOnPingRsp
  split
  · have haccepted : Acts env event may h₀ (h.record (.pingAccepted rsp)) := hs.record rfl
    exact Acts.goOnline (haccepted.aside rfl rfl rfl rfl)
  · exact hs

theorem onConnReq (hs : Acts env event may h₀ h) (hrsp : ∀ status, may (.connectRsp flow status))
    (hack : ∀ ack, may (.dataAck flow ack)) (tunnelId : U16) (noRsp : Bool) :
    Acts env event may h₀ (h.litedtOnConnReq env flow tunnelId noRsp).2 := by
  have hcreated := hs.createConnection flow tunnelId .established
  unfold litedtOnConnReq
  split
  · exact hs.emit (hrsp _) _
  · dsimp only
    split
    · dsimp only
      split
      · exact hcreated
      · exact (hcreated.emit (hrsp _) _).dataAck hack false
    · exact hcreated.emit (hrsp _) _

theorem establish (hs : Acts env event may h₀ h) (flow : U32) :
    Acts env event may h₀ (h.modifyStream flow Stream.establish) :=
  hs.modifyStream flow fun conn _ => conn.quiet_establish

theorem onConnRsp (hs : Acts env event may h₀ h) (hack : ∀ ack, may (.dataAck flow ack))
    (status : Int) : Acts env event may h₀ (h.litedtOnConnRsp env flow status).2 := by
  unfold litedtOnConnRsp
  split
  · exact hs
  · split
    · exact (hs.establish flow).dataAck hack false
    · exact hs.releaseConnection _ _

theorem reack (hs : Acts env event may h₀ h) (flow : U32) : Acts env event may h₀ (h.reack flow) := by
  refine Acts.modEvtime ?_ _ _
  exact hs.modifyFlags flow (fun _ => rfl) fun _ => rfl

theorem flushAcks (hs : Acts env event may h₀ h) (hack : ∀ ack, may (.dataAck flow ack)) (fuel : Nat) :
    Acts env event may h₀ (Host.flushAcks flow fuel h) := by
  induction fuel generalizing h with
  | zero => exact hs
  | succ fuel ih =>
      unfold Host.flushAcks
      split
      · exact ih (hs.dataAck hack true)
      · exact hs

theorem acknowledge (hs : Acts env event may h₀ h) (hack : ∀ ack, may (.dataAck flow ack)) :
    Acts env event may h₀ (h.acknowledge flow) := by
  unfold Host.acknowledge
  split
  · exact hs
  · split
    · exact ((hs.dataAck hack true).flushAcks hack _).reack flow
    · refine Acts.modEvtime ?_ _ _
      exact hs.modifyFlags flow (fun _ => rfl) fun _ => rfl

theorem finishDataRecv (hs : Acts env event may h₀ h) (hack : ∀ ack, may (.dataAck flow ack))
    (readable : U32) : Acts env event may h₀ (h.finishDataRecv env flow readable) := by
  have hacked := hs.acknowledge hack
  unfold Host.finishDataRecv
  dsimp only
  split
  · exact hacked
  · split
    · exact hacked.notifyReceive flow readable
    · exact hacked

theorem fecCheckpoint (hs : Acts env event may h₀ h) (flow : U32) :
    Acts env event may h₀ (h.fecCheckpoint flow) :=
  hs.modifyStream flow fun _ _ => ⟨fun howes => howes, rfl, rfl⟩

theorem onDataRecvWith {insert : Host → Host} (hs : Acts env event may h₀ h)
    (hack : ∀ ack, may (.dataAck flow ack))
    (hinsert : ∀ h, Acts env event may h₀ h → Acts env event may h₀ (insert h)) (data : DataPost) :
    Acts env event may h₀ (h.onDataRecvWith env insert flow data).2 := by
  have hestablished := hs.establish flow
  unfold Host.onDataRecvWith
  cases hfind : h.findConnection flow with
  | none => exact hs
  | some conn =>
      dsimp only
      split
      · exact (hestablished.dataAck hack true).reack flow
      · set stored := conn.establish.storeData env.alloc data
        have hwritten : Acts env event may h₀ ((h.modifyStream flow Stream.establish).modifyStream flow
            (fun _ => stored.2)) := by
          refine hestablished.modifyStream flow fun conn' hfind' => ?_
          obtain ⟨conn'', hfind'', hstream⟩ := find_modifyStream hfind Stream.establish
          obtain rfl := Option.some.inj (hfind'.symm.trans hfind'')
          rw [hstream]
          refine Stream.quiet_of_sendFrame (Stream.sendFrame_storeData _ _ _) fun hstate => ?_
          rwa [(Stream.receiveFrame_storeData _ _ _).state_eq] at hstate
        refine Acts.finishDataRecv ?_ hack _
        split
        · exact (hinsert _ hwritten).fecCheckpoint flow
        · exact hwritten

theorem fecInsert (hs : Acts env event may h₀ h) (hack : ∀ ack, may (.dataAck flow ack))
    (insert : FecMod → FecMod.Inserted) : Acts env event may h₀ (h.fecInsert env insert flow) := by
  unfold Host.fecInsert
  split
  · exact hs
  · rename_i conn hfind
    have hupdated : Acts env event may h₀
        (h.modifyStream flow (fun c => c.setFec (insert conn.fec).fec)) :=
      hs.modifyStream flow fun _ _ => ⟨fun howes => howes, rfl, rfl⟩
    dsimp only
    split
    · exact hupdated.record rfl
    · exact Acts.onDataRecvWith ((hupdated.record rfl).record rfl) hack (fun _ hs => hs) _

theorem onDataRecv (hs : Acts env event may h₀ h) (hack : ∀ ack, may (.dataAck flow ack))
    (data : DataPost) : Acts env event may h₀ (h.litedtOnDataRecv env flow data).2 :=
  hs.onDataRecvWith hack (fun _ hs => hs.fecInsert hack _) data

theorem onDataFec (hs : Acts env event may h₀ h) (hack : ∀ ack, may (.dataAck flow ack))
    (fec : DataFec) : Acts env event may h₀ (h.litedtOnDataFec env flow fec).2 := by
  unfold litedtOnDataFec
  split
  · exact hs
  · split
    · exact hs
    · dsimp only
      split
      · exact ((hs.establish flow).fecInsert hack _).fecCheckpoint flow
      · exact hs.establish flow

theorem onCloseReq (hs : Acts env event may h₀ h) (hrsp : may (.closeRsp flow)) (lastSeq : U32) :
    Acts env event may h₀ (h.litedtOnCloseReq env flow lastSeq) := by
  have hwaiting : Acts env event may h₀ (h.modifyStream flow (fun c => c.closeWait lastSeq)) :=
    hs.modifyStream flow fun conn _ => conn.quiet_closeWait lastSeq
  unfold litedtOnCloseReq
  split
  · exact hs.emit hrsp _
  · split
    · exact (hs.releaseConnection _ _).emit hrsp _
    · split
      · exact hs
      · dsimp only
        split
        · exact (hwaiting.emit hrsp _).modEvtime _ _
        · exact hwaiting.modEvtime _ _

theorem onCloseRsp (hs : Acts env event may h₀ h) (flow : U32) :
    Acts env event may h₀ (h.litedtOnCloseRsp env flow) := by
  unfold litedtOnCloseRsp
  split
  · exact hs
  · split
    · exact hs.releaseConnection _ _
    · exact hs

theorem onConnRst (hs : Acts env event may h₀ h) (flow : U32) :
    Acts env event may h₀ (h.litedtOnConnRst env flow) := by
  have hclosed : Acts env event may h₀ (h.modifyStream flow (fun c => { c with state := .closed })) :=
    hs.modifyStream flow fun _ _ =>
      Stream.quiet_of_packetList
        (fun howes => absurd (Stream.owes_eq_true.mp howes).1 (by simp [ConnState.code])) rfl
  unfold litedtOnConnRst
  split
  · exact hs
  · split
    · exact hs.releaseConnection _ _
    · exact hclosed.modEvtime _ _

theorem resetOnError {result : Int × Host} (hs : Acts env event may h₀ result.2)
    (hrst : may (.connectRst flow)) : Acts env event may h₀ (Host.resetOnError flow result) := by
  unfold Host.resetOnError
  split
  · exact hs
  · exact hs.emit hrst _

/-! ### Acknowledgements -/

theorem notifyAcked {ack : DataAck} (hs : Acts env event may h₀ (h.releaseAcked env flow ack))
    (hcloses : env.Closes → ∀ p, may p) (hfind : h.findConnection flow = some conn) :
    Acts env event may h₀ (h.litedtOnDataAck env flow ack).2 := by
  unfold releaseAcked at hs
  unfold litedtOnDataAck
  rw [hfind]
  dsimp only at hs ⊢
  split
  · exact hs
  · split
    · exact hs.notifySend hcloses flow _
    · exact hs

theorem onDataAck {ack : DataAck} (hs : Acts env event may h₀ h)
    (hcloses : env.Closes → ∀ p, may p) (hevent : event = .io (.dataAck flow ack)) :
    Acts env event may h₀ (h.litedtOnDataAck env flow ack).2 := by
  cases hfind : h.findConnection flow with
  | none =>
      unfold litedtOnDataAck
      rw [hfind]
      exact hs
  | some conn => exact (hs.act (.ack flow ack hevent hfind)).notifyAcked hcloses hfind

theorem updateTime (hs : Acts env event may h₀ h) : Acts env event may h₀ (h.updateTime env) :=
  hs.aside rfl rfl rfl rfl

/-! ### Retransmissions -/

theorem retransTimeEvent (hs : Acts env event may h₀ h) (flow : U32) (time : Time) :
    Acts env event may h₀ (h.retransTimeEvent flow time) := by
  unfold Host.retransTimeEvent
  split
  · exact hs
  · rename_i conn hfind
    split
    · exact hs
    · dsimp only
      have hstored : Acts env event may h₀ (h.modifyStream flow
          (fun _ => (conn.readyLoop time conn.waitingQueue).1)) := by
        refine hs.modifyStream flow fun conn' hfind' => ?_
        obtain rfl := Option.some.inj (hfind.symm.trans hfind')
        exact Stream.quiet_readyLoop _ _ _
      have hqueued : Acts env event may h₀ ((conn.readyLoop time conn.waitingQueue).2.1.foldl
          (pushReady flow) (h.modifyStream flow
            (fun _ => (conn.readyLoop time conn.waitingQueue).1))) :=
        hstored.foldl fun _ _ _ hs => hs.aside rfl rfl rfl rfl
      split
      · exact hqueued.record rfl
      · exact hqueued

theorem retransActive (hs : Acts env event may h₀ h) (curTime : Time) (flows : List U32)
    (nextTime : Time) : Acts env event may h₀ (Host.retransActive curTime flows h nextTime).1 := by
  induction flows generalizing h nextTime with
  | nil => exact hs
  | cons flow rest ih => exact ih (hs.retransTimeEvent flow curTime) _

theorem queueRetrans (hs : Acts env event may h₀ h) (flow key : U32) (packet : PacketEntry)
    (time : Time) : Acts env event may h₀ (h.queueRetrans flow key packet time) := by
  unfold Host.queueRetrans
  split
  · exact hs.modifyStream flow fun conn _ => conn.quiet_requeue _ _
  · exact hs.record rfl

theorem popUnready (hs : Acts env event may h₀ h) (flow key : U32) :
    Acts env event may h₀ (h.popUnready flow key) := by
  unfold Host.popUnready
  split
  · exact hs.record rfl
  · split
    · exact hs
    · exact hs.aside rfl rfl rfl rfl

theorem handleRetrans (hs : Acts env event may h₀ h) (hall : ∀ p, may p)
    (htime : event.isTime = true) {key : U32}
    {packet : PacketEntry} (hpacket : h.findPacket flow key = some packet) (conn : Conn) :
    Acts env event may h₀ (h.handleRetrans env flow key conn packet).2 := by
  unfold Host.handleRetrans
  split
  · exact hs.queueRetrans flow _ packet h.curTime
  · split
    · refine Acts.queueRetrans
        (hs.dataPost hall (fun _ => htime) (fun _ conn' hfind' => ?_) _ _ _ _) flow _ packet _
      rw [findPacket, hfind', Option.bind_some] at hpacket
      exact Stream.pending_of_value hpacket
    · exact hs

theorem retransQueueLoop (hs : Acts env event may h₀ h) (hall : ∀ p, may p)
    (htime : event.isTime = true) (fuel : Nat) :
    Acts env event may h₀ (h.retransQueueLoop env fuel) := by
  induction fuel generalizing h with
  | zero => exact hs
  | succ fuel ih =>
      unfold Host.retransQueueLoop
      split
      · exact hs
      · rename_i time flow key htop
        split
        · rename_i conn packet hfind hpacket
          dsimp only
          have hturn : Acts env event may h₀
              ((h.handleRetrans env flow key conn packet).2.popUnready flow key) :=
            (hs.handleRetrans hall htime hpacket conn).popUnready flow key
          split
          · exact hturn
          · exact ih hturn
        · exact hs.record rfl

theorem checkRetransQueue (hs : Acts env event may h₀ h) (hall : ∀ p, may p)
    (htime : event.isTime = true) (nextTime : Time) :
    Acts env event may h₀ (h.checkRetransQueue env nextTime).1 := by
  have hsent : Acts env event may h₀
      ((Host.retransActive h.curTime h.activeQueue.flows h nextTime).1.retransQueueSend env) :=
    (hs.retransActive h.curTime h.activeQueue.flows nextTime).retransQueueLoop hall htime _
  unfold Host.checkRetransQueue
  dsimp only
  split <;> exact hsent

/-! ### First transmissions -/

theorem transmitLoop (hs : Acts env event may h₀ h) (hall : ∀ p, may p)
    (htime : event.isTime = true) (flow : U32) (fuel : Nat) :
    Acts env event may h₀ (h.transmitLoop env flow fuel).2 := by
  induction fuel generalizing h with
  | zero => exact hs
  | succ fuel ih =>
      unfold Host.transmitLoop
      split
      · exact hs
      · rename_i conn hfind
        dsimp only
        split
        · exact hs
        · rename_i hsome
          have hne : conn.writeSeq ≠ conn.sendSeq := fun heq => hsome (.inl heq)
          have hpending : ∀ c : Stream, c.writeSeq = conn.writeSeq → c.sendSeq = conn.sendSeq →
              isSndQueueEmpty c = false := by
            intro c hwrite hsend
            simp [isSndQueueEmpty, hwrite, hsend, hne]
          split
          · exact hs
          · split
            · exact hs
            · set posted := h.litedtDataPost env flow conn.sendSeq (h.nextBytes conn.toStream)
                  (h.fecHeader conn.toStream).1 (h.fecHeader conn.toStream).2 true with hpost
              have hposted : Acts env event may h₀ posted.2 := by
                refine hs.dataPost hall (fun _ => htime) (fun _ conn' hfind' => ?_) _ _ _ true
                obtain rfl := Option.some.inj (hfind.symm.trans hfind')
                exact hpending conn.toStream rfl rfl
              split
              · refine ih (hposted.modifyStream flow fun conn' hfind' => ?_)
                have hseqs : posted.2.unposted flow = h.unposted flow := unposted_dataPost ..
                rw [unposted, unposted, hfind, hfind', Option.map_some, Option.map_some] at hseqs
                obtain ⟨hwrite, hsend⟩ := Prod.mk.inj (Option.some.inj (Prod.mk.inj hseqs).1)
                exact Stream.quiet_of_packetList
                  (Stream.owes_of_pending (hpending conn'.toStream hwrite hsend) rfl) rfl
              · split <;> exact hposted

theorem transmitActive (hs : Acts env event may h₀ h) (hall : ∀ p, may p)
    (htime : event.isTime = true) {flows : List U32}
    (hflows : flows.Sublist h.activeQueue.flows) (limited : Bool) (nextTime : Time) :
    Acts env event may h₀ (h.transmitActive env flows limited nextTime).1 := by
  refine transmitActive_preserves
    (P := fun flows h => flows.Sublist h.activeQueue.flows ∧ Acts env event may h₀ h) And.right
    (fun hs => hs.2.act (.rotate _ (hs.1.subset List.mem_cons_self))) (fun g fuel hs => ⟨?_, ?_⟩)
    (fun hs => ⟨(List.sublist_cons_self _ _).trans hs.1, hs.2⟩)
    (fun {rest h flow conn} hfind hidle hs => ⟨?_, ?_⟩) limited nextTime ⟨hflows, hs⟩
  · rw [activeQueue_transmitLoop]
    exact hs.1
  · exact hs.2.transmitLoop hall htime g fuel
  · have herased := hs.1.erase flow
    rwa [List.erase_cons_head] at herased
  · refine hs.2.act (.rest flow (hs.1.subset List.mem_cons_self) hfind ?_)
    rcases hidle with hclosing | hempty
    · simp [Stream.owes, hclosing]
    · simp [Stream.owes, hempty]

theorem checkTransmitQueue (hs : Acts env event may h₀ h) (hall : ∀ p, may p)
    (htime : event.isTime = true) (nextTime : Time) :
    Acts env event may h₀ (h.checkTransmitQueue env nextTime).1 := by
  have hsent : Acts env event may h₀ (h.transmitActive env h.activeQueue.flows false nextTime).1 :=
    hs.transmitActive hall htime (.refl _) false nextTime
  have hmarked (limited : Bool) : Acts env event may h₀
      ((h.transmitActive env h.activeQueue.flows false nextTime).1.markAppLimited limited) := by
    unfold markAppLimited
    split
    · exact hsent
    · exact hsent.act .limit
  unfold Host.checkTransmitQueue clearCredit
  dsimp only
  split
  · exact (hmarked _).aside rfl rfl rfl rfl
  · exact hmarked _

/-! ### Connection timers -/

theorem probeWindow (hs : Acts env event may h₀ h) (hall : ∀ p, may p) (flow : U32) (conn : Conn)
    (maxProbes : Nat) : Acts env event may h₀ (h.probeWindow env flow conn maxProbes) := by
  unfold Host.probeWindow
  dsimp only
  refine Acts.modifyFlags ?_ flow (fun _ => rfl) fun _ => rfl
  split
  · have hposted : Acts env event may h₀ (h.litedtDataPost env flow conn.sendSeq 0 0 0 false).2 :=
      hs.dataPost hall (fun hne => absurd rfl hne) (fun hne => absurd rfl hne) _ _ _ _
    exact hposted.modifyFlags flow (fun _ => rfl) fun _ => rfl
  · exact hs

theorem checkAndSendProbes (hs : Acts env event may h₀ h) (hall : ∀ p, may p) (flow : U32)
    (conn : Conn) : Acts env event may h₀ (h.checkAndSendProbes env flow conn).2 := by
  unfold Host.checkAndSendProbes
  repeat' split
  all_goals first | exact hs | exact hs.probeWindow hall flow conn _

theorem synchronize (hs : Acts env event may h₀ h) (hall : ∀ p, may p) {sent : Host}
    (hsent : h.synchronize flow conn = some sent) : Acts env event may h₀ sent := by
  have hgroup : Acts env event may h₀
      (if conn.fecEnabled ∧ h.cfg.fecGroupSize ≠ 0 then h.fecPost flow else h) := by
    split
    · exact hs.fecPost hall flow
    · exact hs
  unfold Host.synchronize at hsent
  dsimp only at hsent
  split at hsent
  · exact Option.some.inj hsent ▸ hs.emit (hall _) _
  · exact Option.some.inj hsent ▸ hgroup.dataAck (fun _ => hall _) _
  · exact Option.some.inj hsent ▸ hgroup.emit (hall _) _
  · exact Option.some.inj hsent ▸ hs.dataAck (fun _ => hall _) _
  · split at hsent
    · exact absurd hsent (by simp)
    · exact Option.some.inj hsent ▸ hs

theorem rearm (hs : Acts env event may h₀ h) (flow : U32) : Acts env event may h₀ (h.rearm flow) := by
  unfold Host.rearm
  refine hs.modifyFlags flow (fun conn => ?_) fun conn => ?_ <;> split <;> rfl

theorem notifyUser (hs : Acts env event may h₀ h) (hall : ∀ p, may p) (flow : U32) :
    Acts env event may h₀ (h.notifyUser env flow).2.2 := by
  have hreceived : Acts env event may h₀ (h.notifyReadable env flow).2 := by
    unfold notifyReadable
    split
    · exact hs
    · split
      · dsimp only
        split
        · exact hs
        · exact hs.notifyReceive flow _
      · exact hs
  unfold Host.notifyUser
  dsimp only
  split
  · exact hreceived
  · split
    · dsimp only
      split
      · exact hreceived
      · exact hreceived.notifySend (fun _ => hall) flow _
    · exact hreceived

theorem finishConnection (hs : Acts env event may h₀ h) (hall : ∀ p, may p) (flow : U32)
    (probeTime : Time) : Acts env event may h₀ (h.finishConnection env flow probeTime) := by
  have hnotified := hs.notifyUser hall flow
  unfold Host.finishConnection
  dsimp only
  split
  · exact hnotified
  · exact hnotified.act (.resched _)

theorem checkConnection (hs : Acts env event may h₀ h) (hall : ∀ p, may p) (flow : U32)
    (conn : Conn) : Acts env event may h₀ (h.checkConnection env flow conn) := by
  have hprobed : Acts env event may h₀ (h.checkAndSendProbes env flow conn).2 :=
    hs.checkAndSendProbes hall flow conn
  unfold Host.checkConnection
  split
  · exact hs.releaseConnection _ _
  · dsimp only
    split
    · exact hprobed
    · split
      · split
        · exact hprobed.releaseConnection _ _
        · rename_i sent hsent
          exact ((hprobed.synchronize hall hsent).rearm flow).finishConnection hall flow _
      · exact hprobed.finishConnection hall flow _

theorem checkConnectionLoop (hs : Acts env event may h₀ h) (hall : ∀ p, may p) (fuel : Nat) :
    Acts env event may h₀ (Host.checkConnectionLoop env fuel h) := by
  induction fuel generalizing h with
  | zero => exact hs
  | succ fuel ih =>
      unfold Host.checkConnectionLoop
      split
      · exact hs
      · split
        · exact hs
        · split
          · exact hs
          · exact ih (hs.checkConnection hall _ _)

theorem checkConnectionState (hs : Acts env event may h₀ h) (hall : ∀ p, may p) (fuel : Nat)
    (nextTime : Time) :
    Acts env event may h₀ (Host.checkConnectionState env fuel h nextTime).1 := by
  unfold Host.checkConnectionState
  dsimp only
  split <;> exact hs.checkConnectionLoop hall fuel

/-! ### Events -/

theorem ioEvent {packet : Packet} (hs : Acts env (.io packet) may h₀ h)
    (hmay : ∀ p, p.rank < packet.rank → may p) (hcloses : env.Closes → ∀ p, may p) :
    Acts env (.io packet) may h₀ (h.litedtIoEvent env packet) := by
  have hbegan : Acts env (.io packet) may h₀ (h.updateTime env) := hs.updateTime
  have hrst (flow : U32) (hrank : 0 < packet.rank) : may (.connectRst flow) := hmay _ hrank
  have hack (flow : U32) (hrank : 1 < packet.rank) (ack : DataAck) : may (.dataAck flow ack) :=
    hmay _ hrank
  have hrsp (flow : U32) (hrank : 2 < packet.rank) (status : Int) :
      may (.connectRsp flow status) :=
    hmay _ hrank
  unfold litedtIoEvent
  cases packet with
  | pingReq req => exact hbegan.onPingReq (fun _ => hmay _ Nat.zero_lt_one) req
  | pingRsp rsp => exact hbegan.onPingRsp rsp
  | connectReq flow tunnelId =>
      exact hbegan.onConnReq (hrsp flow (Nat.lt_add_one 2)) (hack flow (Nat.lt_add_left 1 Nat.one_lt_two))
        tunnelId false
  | connectRsp flow status =>
      exact (hbegan.onConnRsp (hack flow Nat.one_lt_two) status).resetOnError
        (hrst flow Nat.two_pos)
  | dataAck flow ack =>
      exact (hbegan.onDataAck hcloses rfl).resetOnError (hrst flow Nat.one_pos)
  | closeReq flow lastSeq => exact hbegan.onCloseReq (hmay _ Nat.zero_lt_one) lastSeq
  | closeRsp flow => exact hbegan.onCloseRsp flow
  | connectRst flow => exact hbegan.onConnRst flow
  | dataFec flow fec =>
      exact (hbegan.onDataFec (hack flow Nat.one_lt_two) fec).resetOnError (hrst flow Nat.two_pos)
  | dataPost flow data =>
      dsimp only
      split
      · exact hbegan
      · exact (hbegan.onDataRecv (hack flow Nat.one_lt_two) _).resetOnError
          (hrst flow Nat.two_pos)
  | connectData flow tunnelId data =>
      have hack := hack flow (Nat.lt_add_left 1 Nat.one_lt_two)
      have hrequested : Acts env _ may h₀
          ((h.updateTime env).litedtOnConnReq env flow tunnelId true).2 :=
        hbegan.onConnReq (hrsp flow (Nat.lt_add_one 2)) hack tunnelId true
      dsimp only
      split
      · exact hbegan
      · split
        · exact (hrequested.onDataRecv hack _).resetOnError (hrst flow (Nat.succ_pos 2))
        · exact hrequested

theorem sendPing (hs : Acts env event may h₀ h) (hall : ∀ p, may p) :
    Acts env event may h₀ (h.sendPing env) := by
  unfold Host.sendPing
  split
  · have hnumbered : Acts env event may h₀
        { h with pingId := h.pingId + 1, priorPingTime := env.realtime } :=
      hs.aside rfl rfl rfl rfl
    have hpinged : Acts env event may h₀ (h.litedtPingReq env) := hnumbered.emit (hall _) _
    exact hpinged.aside rfl rfl rfl rfl
  · exact hs

theorem goOffline (hs : Acts env event may h₀ h) : Acts env event may h₀ (h.goOffline env) := by
  have hstamped : Acts env event may h₀
      { h with offlineTime := getOfflineTime h.cfg h.curTime } :=
    hs.aside rfl rfl rfl rfl
  exact (hstamped.releaseAll .offline).aside rfl rfl rfl rfl

theorem addCredit (hs : Acts env event may h₀ h) : Acts env event may h₀ h.addCredit := by
  unfold Host.addCredit
  dsimp only
  split
  · exact hs.aside rfl rfl rfl rfl
  · exact hs

theorem serve (hs : Acts env event may h₀ h) (hall : ∀ p, may p) (htime : event.isTime = true)
    (fuel : Nat) (nextTime : Time) :
    ∃ h' next, Acts env event may h₀ h' ∧ h.serve env fuel nextTime = h'.stampEvent next := by
  have hcredited := (hs.addCredit).act .control
  have hchecked := hcredited.checkConnectionState hall fuel nextTime
  unfold Host.serve
  generalize Host.checkConnectionState env fuel h.addCredit.ctrlTimeEvent nextTime = checked
    at hchecked ⊢
  have hretransmitted : Acts env event may h₀ (checked.1.checkRetransQueue env checked.2).1 :=
    hchecked.checkRetransQueue hall htime checked.2
  exact ⟨_, _, hretransmitted.checkTransmitQueue hall htime _, rfl⟩

theorem expired (hs : Acts env event may h₀ h) (hall : ∀ p, may p) :
    Acts env event may h₀
      { (h.updateTime env).sendPing env with
        timewaitQueue :=
          (expireTimeWait env.now ((h.updateTime env).sendPing env).timewaitQueue).1 } := by
  have hpinged : Acts env event may h₀ ((h.updateTime env).sendPing env) :=
    hs.updateTime.sendPing hall
  exact hpinged.act .expire

theorem timeEvent {fuel : Nat} (hs : Acts env (.time fuel) may h₀ h) (hall : ∀ p, may p) :
    Acts env (.time fuel) may h₀ (h.litedtTimeEvent env fuel) ∨
      ∃ h' next, Acts env (.time fuel) may h₀ h' ∧ h.litedtTimeEvent env fuel = h'.stampEvent next := by
  have hexpired : Acts env (.time fuel) may h₀
      { (h.updateTime env).sendPing env with
        timewaitQueue :=
          (expireTimeWait env.now ((h.updateTime env).sendPing env).timewaitQueue).1 } :=
    hs.expired hall
  unfold litedtTimeEvent
  dsimp only
  split
  · exact .inl hs.updateTime
  · split
    · exact .inl hexpired.goOffline
    · split
      · exact .inr (hexpired.serve hall rfl fuel _)
      · exact .inl hexpired

end Acts

theorem Host.acts_step (h : Host) (env : Env) (event : HostEvent) :
    ∃ h', Acts env event (fun _ => True) h h' ∧
      (h.step env event = h' ∨ ∃ next, h.step env event = h'.stampEvent next) := by
  cases event with
  | call call => exact ⟨_, (Acts.refl h).call (fun _ => trivial) call, .inl rfl⟩
  | io packet =>
      exact ⟨_, (Acts.refl h).ioEvent (fun _ _ => trivial) fun _ _ => trivial, .inl rfl⟩
  | fini => exact ⟨_, (Acts.refl h).fini, .inl rfl⟩
  | time fuel =>
      rcases Acts.timeEvent (.refl h) fun _ => trivial with hs | ⟨h', next, hs, heq⟩
      · exact ⟨_, hs, .inl rfl⟩
      · exact ⟨h', hs, .inr ⟨next, heq⟩⟩

end Liteflow

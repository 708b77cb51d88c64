import Liteflow.Proof.View

/-!
# Connections refine the transition system

One lemma for each function of `Connection.lean`: as seen from any flow, what it does is a sequence
of moves. A function that works on another flow `g` sends datagrams of `g` and notes events of `g`.
-/

namespace Liteflow

section Reaches

variable (flow : U32) (env : Env) (event : HostEvent) (start : FlowState)

/-- As seen from `flow`, the host gets from `h` to `h'` by moves. -/
def Reaches (h h' : Host) : Prop :=
  Moves flow env event start (h.view flow) (h'.view flow)

end Reaches

variable {flow : U32} {env : Env} {event : HostEvent} {start : FlowState} {h h' h'' : Host}

namespace Reaches

theorem of_view_eq (heq : h'.view flow = h.view flow) : Reaches flow env event start h h' := by
  unfold Reaches
  rw [heq]
  exact Relation.ReflTransGen.refl

theorem refl (h : Host) : Reaches flow env event start h h :=
  Relation.ReflTransGen.refl

theorem trans (hfirst : Reaches flow env event start h h')
    (hrest : Reaches flow env event start h' h'') : Reaches flow env event start h h'' :=
  Relation.ReflTransGen.trans hfirst hrest

theorem silent (hfirst : Reaches flow env event start h h') (heq : h''.view flow = h'.view flow) :
    Reaches flow env event start h h'' :=
  hfirst.trans (of_view_eq heq)

theorem single {v : FlowState} (hmove : Move flow env event start (h.view flow) v)
    (heq : h'.view flow = v) : Reaches flow env event start h h' := by
  unfold Reaches
  rw [heq]
  exact .single hmove

theorem sender {v : FlowState} (hmove : SenderMove flow env (h.view flow) v)
    (heq : h'.view flow = v) : Reaches flow env event start h h' :=
  single (.sender hmove) heq

theorem control {v : FlowState} (hmove : ControlMove flow env event (h.view flow) v)
    (heq : h'.view flow = v) : Reaches flow env event start h h' :=
  single (.control hmove) heq

theorem receiver {v : FlowState} (hmove : ReceiverMove flow env event start (h.view flow) v)
    (heq : h'.view flow = v) : Reaches flow env event start h h' :=
  single (.receiver hmove) heq

theorem foreignSend (flight : Flight) {g : U32} (hflow : flight.packet.flow? = some g)
    (hne : g ≠ flow) (heq : h'.view flow = (h.view flow).send flight) :
    Reaches flow env event start h h' :=
  single (.foreignSend flight (by simpa [hflow] using hne) (by simp [hflow])) heq

theorem foreignNote (note : Event) {g : U32} (hflow : note.flow? = some g) (hne : g ≠ flow)
    (heq : h'.view flow = (h.view flow).note note) : Reaches flow env event start h h' :=
  single (.foreignNote note (by simpa [hflow] using hne) (by simp [hflow])) heq

end Reaches

namespace Host

variable {g : U32}

/-! ### Datagrams -/

/-- A datagram about a flow is a move of that flow, and foreign to the others. -/
theorem reaches_emit {flight : Flight} {len : Nat} (hflow : flight.packet.flow? = some g)
    (hmove : g = flow → ControlMove flow env event (h.view flow) ((h.view flow).send flight)) :
    Reaches flow env event start h (h.emit flight len) := by
  by_cases heq : g = flow
  · exact .control (hmove heq) (view_emit _ _)
  · exact .foreignSend flight hflow heq (view_emit _ _)

theorem reaches_connReq (tunnelId : U16) :
    Reaches flow env event start h (h.litedtConnReq g tunnelId) :=
  reaches_emit rfl fun heq => heq ▸ .connectReq tunnelId

theorem reaches_connRsp (status : Int) :
    Reaches flow env event start h (h.litedtConnRsp g status) :=
  reaches_emit rfl fun heq => heq ▸ .connectRsp status

theorem reaches_connRst : Reaches flow env event start h (h.litedtConnRst g) :=
  reaches_emit rfl fun heq => heq ▸ .connectRst

theorem reaches_closeReq {conn : Conn} (hfind : h.findConnection g = some conn)
    (hstate : conn.state = .finWait) :
    Reaches flow env event start h (h.litedtCloseReq g conn.writeSeq) :=
  reaches_emit rfl fun heq => heq ▸ .closeReq (view_stream_of_find hfind) hstate

theorem reaches_closeRsp (hanswers : g = flow → Answers flow env event (h.view flow)) :
    Reaches flow env event start h (h.litedtCloseRsp g) := by
  refine reaches_emit rfl fun heq => ?_
  have hmove := hanswers heq
  subst heq
  exact .closeRsp hmove

/-- An update of the stream of a flow is a move of that flow, and nothing to the others. -/
theorem reaches_modifyStream {update : Stream → Stream}
    (hmove : ∀ conn, g = flow → h.findConnection flow = some conn → Move flow env event start
      (h.view flow) ((h.view flow).withStream (update conn.toStream))) :
    Reaches flow env event start h (h.modifyStream g update) := by
  by_cases heq : g = flow
  · subst heq
    cases hfind : h.findConnection g with
    | none => exact .of_view_eq (view_modifyStream_none hfind _)
    | some conn => exact .single (hmove conn rfl hfind) (view_modifyStream_self hfind _)
  · exact .of_view_eq (view_modifyStream_of_ne heq _)

theorem reaches_fecPost : Reaches flow env event start h (h.fecPost g) := by
  unfold fecPost
  cases hfind : h.findConnection g with
  | none => exact .refl h
  | some conn =>
      dsimp only
      split
      · exact .refl h
      · rename_i hindex
        by_cases heq : g = flow
        · subst heq
          refine .sender (.fecPost (view_stream_of_find hfind) hindex) ?_
          rw [view_modifyStream_self (by rw [find_emit, hfind]), view_emit]
          rfl
        · refine .foreignSend (conn.fecFlight g) rfl heq ?_
          rw [view_modifyStream_of_ne heq, view_emit]

theorem reaches_dataAck (ackList : Bool) :
    Reaches flow env event start h (h.litedtDataAck g ackList) := by
  unfold litedtDataAck
  cases hfind : h.findConnection g with
  | none => exact .refl h
  | some conn =>
      dsimp only
      generalize hacks : (if ackList then conn.takeAcks h.cfg.ackSize else ([], conn.sackMap)) = acks
      obtain ⟨acks, sackMap⟩ := acks
      dsimp only
      by_cases heq : g = flow
      · subst heq
        refine .receiver (.ack acks sackMap (view_stream_of_find hfind) ?_) ?_
        · cases ackList with
          | true => exact .inl hacks.symm
          | false => exact .inr hacks.symm
        · rw [view_emit, view_modifyStream_self hfind]
      · refine .foreignSend (conn.ackFlight g acks) rfl heq ?_
        rw [view_emit, view_modifyStream_of_ne heq]

/-! ### Creating and releasing -/

theorem view_push_of_ne (hne : g ≠ flow) (time : Time) (conn : Conn) :
    { h with connQueue := h.connQueue.timerlistPush time g conn }.view flow = h.view flow := by
  have hget : (h.connQueue.timerlistPush time g conn).timerlistGet flow =
      h.connQueue.timerlistGet flow := by
    rw [Timerlist.timerlistGet_push, if_neg hne, Option.or_none]
  simp only [view, findConnection, hget]

theorem view_push_self (hfind : h.findConnection flow = none) (time : Time) (conn : Conn) :
    { h with connQueue := h.connQueue.timerlistPush time flow conn }.view flow =
      (h.view flow).withStream conn.toStream := by
  have hget : (h.connQueue.timerlistPush time flow conn).timerlistGet flow = some conn := by
    rw [Timerlist.timerlistGet_push, if_pos rfl]
    rw [findConnection] at hfind
    rw [hfind]
    rfl
  simp only [view, findConnection, hget]
  rfl

/-- A flow opens when an event asks for it, and a flow that is in the table stays as it is. -/
theorem reaches_createConnection {state : ConnState} (tunnelId : U16)
    (hopens : Opens g event state) :
    Reaches flow env event start h (h.createConnection env g tunnelId state).2 := by
  unfold createConnection
  split
  · exact .refl h
  · rename_i hnone
    split
    · exact .refl h
    · dsimp only
      split
      · exact .refl h
      · refine .silent ?_ (view_litedtModEvtime _ _)
        rw [Option.not_isSome_iff_eq_none] at hnone
        by_cases heq : g = flow
        · subst heq
          refine .control (.create tunnelId ((view_stream_eq_none h g).mpr hnone) hopens) ?_
          rw [view_record, view_push_self hnone]
          rfl
        · refine .foreignNote (.created g) rfl heq ?_
          rw [view_record, view_push_of_ne heq]

theorem view_delConn_of_ne (hne : g ≠ flow) (timewaitQueue : HashQueue U32 Time) :
    { h with
      connQueue := h.connQueue.timerlistDel g
      timewaitQueue := timewaitQueue }.view flow = h.view flow := by
  have hget : (h.connQueue.timerlistDel g).timerlistGet flow = h.connQueue.timerlistGet flow := by
    rw [Timerlist.timerlistGet_del, if_neg hne]
  simp only [view, findConnection, hget]

theorem view_delConn_self (timewaitQueue : HashQueue U32 Time) :
    { h with
      connQueue := h.connQueue.timerlistDel flow
      timewaitQueue := timewaitQueue }.view flow = { h.view flow with stream := none } := by
  have hget : (h.connQueue.timerlistDel flow).timerlistGet flow = none := by
    rw [Timerlist.timerlistGet_del, if_pos rfl]
  simp only [view, findConnection, hget]
  rfl

/-- A connection is released for a cause that the event, the time and its own state allow. -/
theorem reaches_releaseConnection {cause : ReleaseCause}
    (hreleases : ∀ conn, h.findConnection g = some conn →
      Releases g env event h.curTime conn.toStream cause) :
    Reaches flow env event start h (h.releaseConnection env cause g) := by
  unfold releaseConnection
  cases hfind : h.findConnection g with
  | none => exact .refl h
  | some conn =>
      dsimp only
      set inactive := if conn.active then { h with activeQueue := h.activeQueue.del g } else h
        with hinactive
      have hview : inactive.view flow = h.view flow := by
        rw [hinactive]
        split <;> rfl
      by_cases heq : g = flow
      · subst heq
        refine .control (.release (view_stream_of_find hfind) (hreleases conn hfind)) ?_
        refine (view_delConn_self _).trans ?_
        rw [view_record, view_retransModFini_self, view_count, hview]
        rfl
      · refine .foreignNote (.released g cause conn.toStream) rfl heq ?_
        refine (view_delConn_of_ne heq _).trans ?_
        rw [view_record, view_retransModFini_of_ne heq, view_count, hview]

theorem reaches_releaseFound {cause : ReleaseCause} {conn : Conn}
    (hfind : h.findConnection g = some conn)
    (hreleases : Releases g env event h.curTime conn.toStream cause) :
    Reaches flow env event start h (h.releaseConnection env cause g) :=
  reaches_releaseConnection fun _ hfind' => Option.some.inj (hfind.symm.trans hfind') ▸ hreleases

theorem reaches_releaseAll {cause : ReleaseCause}
    (hreleases : ∀ (h : Host) (g : U32) (conn : Conn), h.findConnection g = some conn →
      Releases g env event h.curTime conn.toStream cause) :
    Reaches flow env event start h (h.releaseAllConnections env cause) := by
  unfold releaseAllConnections
  generalize h.connQueue.timerlistSize = fuel
  induction fuel generalizing h with
  | zero => exact .refl h
  | succ fuel ih =>
      rw [releaseAllLoop]
      split
      · exact .refl h
      · exact (reaches_releaseConnection (hreleases h _)).trans ih

theorem reaches_fini (hevent : event = .fini) :
    Reaches flow env event start h (h.litedtFini env) :=
  (reaches_releaseAll fun _ _ _ _ => .finalised hevent).trans
    (.single (.session (.finalise hevent)) rfl)

/-! ### Calls of the application -/

theorem reaches_connect (tunnelId : U16) (hevent : event = .call (.connect g tunnelId)) :
    Reaches flow env event start h (h.litedtConnect env g tunnelId).2 := by
  unfold litedtConnect
  split
  · exact .refl h
  · dsimp only
    split
    · exact reaches_connReq tunnelId
    · have hcreated : Reaches flow env event start h
          (h.createConnection env g tunnelId .request).2 :=
        reaches_createConnection tunnelId (.connect hevent)
      split
      · exact hcreated.trans (reaches_connReq tunnelId)
      · exact hcreated

theorem reaches_close (hcloses : Closes g env event) :
    Reaches flow env event start h (h.litedtClose env g).2 := by
  unfold litedtClose
  cases hfind : h.findConnection g with
  | none => exact .refl h
  | some conn =>
      dsimp only
      split
      · rename_i hstate
        refine .silent ?_ (view_litedtModEvtime _ _)
        by_cases heq : g = flow
        · subst heq
          refine .control (.close (view_stream_of_find hfind) hcloses hstate) ?_
          rw [litedtCloseReq, view_emit, view_modifyStream_self hfind]
        · refine .foreignSend { packet := .closeReq g conn.writeSeq } rfl heq ?_
          rw [litedtCloseReq, view_emit, view_modifyStream_of_ne heq]
      · split
        · rename_i hopen hfin
          have hstate : conn.state = .closeWait ∨ conn.state = .closed := by
            cases hc : conn.state <;> simp_all [ConnState.code]
          refine (reaches_closeRsp fun heq => .application (heq ▸ hcloses)).trans ?_
          exact reaches_releaseFound ((find_emit _ _).trans hfind) (.application hcloses hstate)
        · exact .refl h

theorem view_activate : (h.activate g).view flow = h.view flow := by
  unfold activate
  split
  · rfl
  · split
    · rfl
    · refine Eq.trans (b := (h.modifyConn g _).view flow) rfl ?_
      exact view_modifyConn_flags fun _ => rfl

/-- `litedt_send` writes behind what the flow has written, or does nothing. -/
theorem reaches_send (data : Payload) :
    Reaches flow env event start h (h.litedtSend env g data).2 := by
  unfold litedtSend
  cases hfind : h.findConnection g with
  | none => exact .refl h
  | some conn =>
      dsimp only
      split
      · exact .refl h
      · rename_i hstate
        split
        · exact .refl h
        · rename_i hfits
          split
          · exact .refl h
          · rename_i hdata
            refine .silent ?_ (view_litedtModEvtime _ _)
            refine .silent ?_ view_activate
            by_cases heq : g = flow
            · subst heq
              refine .sender (.write data (view_stream_of_find hfind) (by omega) (by omega)
                (by omega)) ?_
              rw [view_record, view_modifyStream_self hfind]
            · refine .foreignNote (.wrote g data.val) rfl heq ?_
              rw [view_record, view_modifyStream_of_ne heq]

theorem reaches_releaseFront {conn : Conn} (hfind : h.findConnection g = some conn) {size : U32}
    (hsize : size ≠ 0) : Reaches flow env event start h (h.releaseFront env g conn size) := by
  unfold releaseFront
  cases hreleased : conn.releaseRecv env.alloc.node size with
  | none =>
      dsimp only
      by_cases heq : g = flow
      · subst heq
        exact .receiver (.failed (view_stream_of_find hfind) hreleased) (view_record _)
      · exact .foreignNote (.assertFailed g .recvRelease) rfl heq (view_record _)
  | some stream =>
      dsimp only
      refine .silent ?_ (view_litedtModEvtime _ _)
      by_cases heq : g = flow
      · subst heq
        refine .receiver (.read (view_stream_of_find hfind) hsize hreleased) ?_
        rw [view_record, view_modifyConn_self hfind]
      · refine .foreignNote (.read g (conn.front size.toNat)) rfl heq ?_
        rw [view_record, view_modifyConn_of_ne heq]

theorem reaches_recv (len : U32) : Reaches flow env event start h (h.litedtRecv env g len).2 := by
  unfold litedtRecv
  cases hfind : h.findConnection g with
  | none => exact .refl h
  | some conn =>
      dsimp only
      split
      · exact .refl h
      · exact reaches_releaseFront hfind ‹_›

theorem reaches_recvSkip (len : U32) :
    Reaches flow env event start h (h.litedtRecvSkip env g len) := by
  unfold litedtRecvSkip
  cases hfind : h.findConnection g with
  | none => exact .refl h
  | some conn =>
      dsimp only
      split
      · exact .refl h
      · exact reaches_releaseFront hfind ‹_›

theorem reaches_setNotify (update : Conn → Conn)
    (hupdate : ∀ conn, (update conn).toStream = conn.toStream) :
    Reaches flow env event start h (h.modifyConn g update) :=
  .of_view_eq (view_modifyConn_flags hupdate)

/-! ### Callbacks -/

theorem reaches_foldl {α : Type} {run : Host → α → Host} {calls : List α}
    (hrun : ∀ (h : Host), ∀ call ∈ calls, Reaches flow env event start h (run h call)) :
    Reaches flow env event start h (calls.foldl run h) := by
  induction calls generalizing h with
  | nil => exact .refl h
  | cons call rest ih =>
      rw [List.foldl_cons]
      exact (hrun h call (by simp)).trans (ih fun h call hcall => hrun h call (by simp [hcall]))

theorem reaches_receiveCall (call : ReceiveCall) :
    Reaches flow env event start h (receiveCall env g h call) := by
  cases call with
  | recv len => exact reaches_recv len
  | skip len => exact reaches_recvSkip len
  | setNotifyRecv notify => exact reaches_setNotify _ fun _ => rfl
  | setNotifyRecvnew notify => exact reaches_setNotify _ fun _ => rfl

theorem reaches_sendCall (call : SendCall) (hcloses : call = .close → Closes g env event) :
    Reaches flow env event start h (sendCall env g h call) := by
  cases call with
  | send data => exact reaches_send data
  | setNotifySend notify => exact reaches_setNotify _ fun _ => rfl
  | close => exact reaches_close (hcloses rfl)

theorem reaches_notifyReceive (readable : U32) :
    Reaches flow env event start h (h.notifyReceive env g readable) := by
  unfold notifyReceive
  split
  · exact .refl h
  · exact reaches_foldl fun h call _ => reaches_receiveCall call

theorem reaches_notifySend (writable : U32) :
    Reaches flow env event start h (h.notifySend env g writable) := by
  unfold notifySend
  split
  · exact .refl h
  · rename_i sendCb hcb
    refine reaches_foldl fun h' call hcall => reaches_sendCall call fun hclose => ?_
    exact .inr ⟨sendCb, h, writable, hcb, hclose ▸ hcall⟩

/-- Every call of the application is a sequence of moves of every flow. -/
theorem reaches_call (call : Call) (hevent : event = .call call) :
    Reaches flow env event start h (h.call env call) := by
  cases call with
  | connect g tunnelId => exact reaches_connect tunnelId hevent
  | close g => exact reaches_close (.inl hevent)
  | send g data => exact reaches_send data
  | recv g len => exact reaches_recv len
  | skip g len => exact reaches_recvSkip len
  | setNotifyRecv g notify => exact reaches_setNotify _ fun _ => rfl
  | setNotifyRecvnew g notify => exact reaches_setNotify _ fun _ => rfl
  | setNotifySend g notify => exact reaches_setNotify _ fun _ => rfl

end Host

end Liteflow

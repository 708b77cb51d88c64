import Liteflow.Proof.RefineConnection

/-!
# What is done to one connection

While the code handles a connection that stays, it writes to the connection and moves its timer up; it
does not touch the others, their timers or the clock.
-/

namespace Liteflow

inductive Host.Touch (flow : U32) : Host → Host → Prop where
  | aside {h h' : Host} (hqueue : h'.connQueue = h.connQueue) (htime : h'.curTime = h.curTime) :
      Touch flow h h'
  | update {h : Host} (update : Conn → Conn) : Touch flow h (h.modifyConn flow update)
  | moveup {h : Host} (time : Time) :
      Touch flow h { h with connQueue := h.connQueue.timerlistMoveup time flow }

def Host.Touches (flow : U32) : Host → Host → Prop :=
  Relation.ReflTransGen (Host.Touch flow)

namespace Host.Touches

open Host

variable {env : Env} {flow : U32} {h₀ h h' : Host} {conn : Conn}

theorem refl (h : Host) : Touches flow h h :=
  Relation.ReflTransGen.refl

theorem touch (hs : Touches flow h₀ h) (htouch : Touch flow h h') : Touches flow h₀ h' :=
  Relation.ReflTransGen.tail hs htouch

theorem trans (hs : Touches flow h₀ h) (hs' : Touches flow h h') : Touches flow h₀ h' :=
  Relation.ReflTransGen.trans hs hs'

theorem aside (hs : Touches flow h₀ h) (hqueue : h'.connQueue = h.connQueue)
    (htime : h'.curTime = h.curTime) : Touches flow h₀ h' :=
  hs.touch (.aside hqueue htime)

theorem preserves {P : Host → Prop} (hs : Touches flow h h')
    (htouch : ∀ h h', Touch flow h h' → P h → P h') (hP : P h) : P h' := by
  unfold Touches at hs
  induction hs with
  | refl => exact hP
  | tail _ hlast ih => exact htouch _ _ hlast ih

theorem curTime (hs : Touches flow h h') : h'.curTime = h.curTime := by
  refine hs.preserves (P := fun h' => h'.curTime = h.curTime) (fun _ _ htouch heq => ?_) rfl
  cases htouch with
  | aside hqueue htime => exact htime.trans heq
  | update update => exact heq
  | moveup time => exact heq

theorem others (hs : Touches flow h h') {g : U32} (hne : g ≠ flow) :
    h'.findConnection g = h.findConnection g := by
  refine hs.preserves (P := fun h' => h'.findConnection g = h.findConnection g)
    (fun _ _ htouch heq => ?_) rfl
  cases htouch with
  | aside hqueue htime =>
      rw [findConnection, hqueue]
      exact heq
  | update update => rwa [findConnection_modifyConn, if_neg hne.symm]
  | moveup time =>
      rw [findConnection, Timerlist.timerlistGet_moveup]
      exact heq

theorem find (hs : Touches flow h h') (hfind : ∃ conn, h.findConnection flow = some conn) :
    ∃ conn, h'.findConnection flow = some conn := by
  refine hs.preserves (P := fun h' => ∃ conn, h'.findConnection flow = some conn)
    (fun _ _ htouch hfound => ?_) hfind
  obtain ⟨conn, hfound⟩ := hfound
  cases htouch with
  | aside hqueue htime =>
      refine ⟨conn, ?_⟩
      rwa [findConnection, hqueue]
  | update update =>
      rw [findConnection_modifyConn, if_pos rfl, hfound]
      exact ⟨_, rfl⟩
  | moveup time =>
      refine ⟨conn, ?_⟩
      rwa [findConnection, Timerlist.timerlistGet_moveup]

/-! ### Small functions -/

theorem modifyConn (hs : Touches flow h₀ h) (update : Conn → Conn) :
    Touches flow h₀ (h.modifyConn flow update) :=
  hs.touch (.update update)

theorem modifyStream (hs : Touches flow h₀ h) (update : Stream → Stream) :
    Touches flow h₀ (h.modifyStream flow update) :=
  hs.modifyConn _

theorem record (hs : Touches flow h₀ h) (event : Event) : Touches flow h₀ (h.record event) :=
  hs.aside rfl rfl

theorem socketSend (hs : Touches flow h₀ h) (flight : Flight) (len : Nat) (force : Bool) :
    Touches flow h₀ (h.socketSend flight len force).2 := by
  unfold Host.socketSend
  split
  · exact hs
  · exact hs.aside rfl rfl

theorem emit (hs : Touches flow h₀ h) (flight : Flight) (len : Nat) :
    Touches flow h₀ (h.emit flight len) :=
  hs.socketSend flight len true

theorem modEvtime (hs : Touches flow h₀ h) {target : Option U32}
    (htarget : target = none ∨ target = some flow) (time : Time) :
    Touches flow h₀ (h.litedtModEvtime target time) := by
  refine litedtModEvtime_keeps (P := Touches flow h₀) hs ?_ fun _ hs _ _ => hs.aside rfl rfl
  rintro g hg moved rfl
  rcases htarget with rfl | rfl
  · cases hg
  · cases hg
    exact (hs.modifyConn _).touch (.moveup time)

/-! ### Datagrams -/

theorem fecPost (hs : Touches flow h₀ h) : Touches flow h₀ (h.fecPost flow) := by
  unfold Host.fecPost
  split
  · exact hs
  · split
    · exact hs
    · exact (hs.emit _ _).modifyStream _

theorem fecPushData (hs : Touches flow h₀ h) (post : DataPost) :
    Touches flow h₀ (h.fecPushData flow post) := by
  unfold Host.fecPushData
  dsimp only
  split
  · exact hs.modifyStream _
  · split
    · exact (hs.modifyStream _).fecPost
    · exact hs.modifyStream _

theorem createPacketEntry (hs : Touches flow h₀ h) (seq length fecSeq : U32) (fecIndex : U8) :
    Touches flow h₀ (h.createPacketEntry env flow seq length fecSeq fecIndex) := by
  unfold Host.createPacketEntry
  split
  · exact hs
  · split
    · exact hs
    · have hcounted : Touches flow h₀
          { h.count .post with
            inflight := h.inflight + 1
            inflightBytes := h.inflightBytes + length } :=
        hs.aside rfl rfl
      exact hcounted.modifyStream _

theorem dataPost (hs : Touches flow h₀ h) (seq len fecSeq : U32) (fecIndex : U8) (fecPost : Bool) :
    Touches flow h₀ (h.litedtDataPost env flow seq len fecSeq fecIndex fecPost).2 := by
  have hentered (conn : Conn) : Touches flow h₀
      (h.enterPost env flow conn seq len fecSeq fecIndex) := by
    unfold enterPost
    split
    · exact hs
    · exact (hs.record _).createPacketEntry _ _ _ _
  unfold litedtDataPost
  split
  · exact hs
  · split
    · exact hs
    · split
      · exact hs
      · split
        · exact hs
        · dsimp only
          split
          · exact ((hentered _).socketSend _ _ _).fecPushData _
          · exact (hentered _).socketSend _ _ _

theorem dataAck (hs : Touches flow h₀ h) (ackList : Bool) :
    Touches flow h₀ (h.litedtDataAck flow ackList) := by
  unfold litedtDataAck
  split
  · exact hs
  · exact (hs.modifyStream _).emit _ _

/-! ### Calls of the application -/

theorem activate (hs : Touches flow h₀ h) : Touches flow h₀ (h.activate flow) := by
  unfold Host.activate
  split
  · exact hs
  · split
    · exact hs
    · exact (hs.modifyConn _).aside rfl rfl

theorem send (hs : Touches flow h₀ h) (data : Payload) :
    Touches flow h₀ (h.litedtSend env flow data).2 := by
  unfold litedtSend
  split
  · exact hs
  · split
    · exact hs
    · split
      · exact hs
      · split
        · exact hs
        · exact ((hs.modifyStream _).record _).activate.modEvtime (.inl rfl) _

theorem releaseFront (hs : Touches flow h₀ h) (conn : Conn) (size : U32) :
    Touches flow h₀ (h.releaseFront env flow conn size) := by
  unfold Host.releaseFront
  split
  · exact hs.record _
  · exact ((hs.modifyConn _).record _).modEvtime (.inr rfl) _

theorem receiveCall (hs : Touches flow h₀ h) (call : ReceiveCall) :
    Touches flow h₀ (Host.receiveCall env flow h call) := by
  cases call with
  | recv len =>
      change Touches flow h₀ (h.litedtRecv env flow len).2
      unfold litedtRecv
      split
      · exact hs
      · dsimp only
        split
        · exact hs
        · exact hs.releaseFront _ _
  | skip len =>
      change Touches flow h₀ (h.litedtRecvSkip env flow len)
      unfold litedtRecvSkip
      split
      · exact hs
      · split
        · exact hs
        · exact hs.releaseFront _ _
  | setNotifyRecv notify => exact hs.modifyConn _
  | setNotifyRecvnew notify => exact hs.modifyConn _

theorem notifyReceive (hs : Touches flow h₀ h) (readable : U32) :
    Touches flow h₀ (h.notifyReceive env flow readable) := by
  unfold Host.notifyReceive
  split
  · exact hs
  · rename_i receiveCb _
    generalize receiveCb h flow readable = calls
    induction calls generalizing h with
    | nil => exact hs
    | cons call rest ih => exact ih (hs.receiveCall call)

/-- The connection has not been closed by the peer, so `litedt_close` does not release it. -/
def Open (flow : U32) (h : Host) : Prop :=
  ∃ c, (h.view flow).stream = some c ∧ c.state.code ≤ ConnState.finWait.code

theorem sendCall (hs : Touches flow h₀ h) (hopen : Open flow h) (call : SendCall) :
    Touches flow h₀ (Host.sendCall env flow h call) ∧ Open flow (Host.sendCall env flow h call) := by
  obtain ⟨c, hstream, hstate⟩ := hopen
  obtain ⟨conn, hfind, rfl⟩ := (view_stream_eq_some h flow).mp hstream
  have hopen : Open flow h := ⟨conn.toStream, hstream, hstate⟩
  cases call with
  | send data =>
      refine ⟨hs.send data, ?_⟩
      change Open flow (h.litedtSend env flow data).2
      unfold litedtSend
      rw [hfind]
      dsimp only
      split
      · exact hopen
      · split
        · exact hopen
        · split
          · exact hopen
          · refine ⟨conn.write env.alloc data.val, ?_, hstate⟩
            rw [view_litedtModEvtime, view_activate, view_record, view_modifyStream_self hfind]
            rfl
  | setNotifySend notify =>
      refine ⟨hs.modifyConn _, conn.toStream, ?_, hstate⟩
      rw [← hstream]
      exact congrArg FlowState.stream (view_modifyConn_flags fun _ => rfl)
  | close =>
      change Touches flow h₀ (h.litedtClose env flow).2 ∧ Open flow (h.litedtClose env flow).2
      unfold litedtClose
      rw [hfind]
      dsimp only
      split
      · refine ⟨((hs.modifyStream _).emit _ _).modEvtime (.inr rfl) _,
          { conn.toStream with state := .finWait }, ?_,
          Nat.le_refl _⟩
        rw [view_litedtModEvtime, litedtCloseReq, view_emit, view_modifyStream_self hfind]
        rfl
      · split
        · rename_i hlate hnot
          cases hcode : conn.state <;> simp_all [ConnState.code]
        · exact ⟨hs, hopen⟩

theorem notifySend (hs : Touches flow h₀ h) (hopen : Open flow h) (writable : U32) :
    Touches flow h₀ (h.notifySend env flow writable) := by
  unfold Host.notifySend
  split
  · exact hs
  · rename_i sendCb _
    generalize sendCb h flow writable = calls
    induction calls generalizing h with
    | nil => exact hs
    | cons call rest ih =>
        obtain ⟨hcalled, hopen'⟩ := hs.sendCall hopen call
        exact ih hcalled hopen'

/-! ### The turn of a connection -/

theorem probeWindow (hs : Touches flow h₀ h) (conn : Conn) (maxProbes : Nat) :
    Touches flow h₀ (h.probeWindow env flow conn maxProbes) := by
  unfold Host.probeWindow
  dsimp only
  split
  · exact ((hs.dataPost _ _ _ _ _).modifyConn _).modifyConn _
  · exact hs.modifyConn _

theorem checkAndSendProbes (hs : Touches flow h₀ h) (conn : Conn) :
    Touches flow h₀ (h.checkAndSendProbes env flow conn).2 := by
  unfold Host.checkAndSendProbes
  split_ifs
  · exact hs
  · exact hs.probeWindow _ _
  · exact hs
  · exact hs
  · exact hs.probeWindow _ _
  · exact hs
  · exact hs

theorem synchronize (hs : Touches flow h₀ h) {sent : Host}
    (hsent : h.synchronize flow conn = some sent) : Touches flow h₀ sent := by
  have hgroup : Touches flow h₀
      (if conn.fecEnabled ∧ h.cfg.fecGroupSize ≠ 0 then h.fecPost flow else h) := by
    split
    · exact hs.fecPost
    · exact hs
  unfold Host.synchronize at hsent
  dsimp only at hsent
  split at hsent
  · obtain rfl := Option.some.inj hsent
    exact hs.emit _ _
  · obtain rfl := Option.some.inj hsent
    exact hgroup.dataAck _
  · obtain rfl := Option.some.inj hsent
    exact hgroup.emit _ _
  · obtain rfl := Option.some.inj hsent
    exact hs.dataAck _
  · split at hsent
    · cases hsent
    · obtain rfl := Option.some.inj hsent
      exact hs

end Host.Touches

end Liteflow

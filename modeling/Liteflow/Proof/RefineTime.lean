import Liteflow.Proof.RefineReceive

/-!
# Time events refine the transition system

One lemma for each function of `TimeEvent.lean`, and with them the refinement of every event of a
host. The two functions that post data check the pacing credit themselves, so `socket_send` does not
refuse what they post.
-/

namespace Liteflow

theorem FlowState.withStream_self {v : FlowState} {c : Stream} (hstream : v.stream = some c) :
    v.withStream c = v := by
  cases v
  simp_all [withStream]

variable {flow : U32} {env : Env} {event : HostEvent} {start : FlowState} {h : Host} {g : U32}

namespace Host

/-! ### Posting data -/

theorem findPacket_eq (seq : U32) :
    h.findPacket flow seq = (h.view flow).stream.bind (fun c => c.packetList.treemapValue seq) := by
  unfold findPacket view
  cases h.findConnection flow <;> rfl

theorem view_createPacketEntry_of_ne (hne : g ≠ flow) (seq length fecSeq : U32) (fecIndex : U8) :
    (h.createPacketEntry env g seq length fecSeq fecIndex).view flow = h.view flow := by
  unfold createPacketEntry
  split
  · rfl
  · split
    · rfl
    · exact view_modifyStream_of_ne hne _

theorem view_createPacketEntry_self {conn : Conn} (hfind : h.findConnection flow = some conn)
    (seq length fecSeq : U32) (fecIndex : U8) :
    (h.createPacketEntry env flow seq length fecSeq fecIndex).view flow =
      (h.view flow).withStream (conn.enter env.alloc.node
        (h.newPacket env conn.toStream seq length fecSeq fecIndex)) := by
  unfold createPacketEntry Stream.enter
  rw [hfind]
  dsimp only
  split
  · rw [if_pos ‹_›]
    exact (FlowState.withStream_self (view_stream_of_find hfind)).symm
  · rw [if_neg ‹_›]
    exact view_modifyStream_self (h := { h.count .post with
      inflight := h.inflight + 1
      inflightBytes := h.inflightBytes + length }) hfind _

theorem pacingCredit_createPacketEntry (seq length fecSeq : U32) (fecIndex : U8) :
    (h.createPacketEntry env g seq length fecSeq fecIndex).pacingCredit = h.pacingCredit := by
  unfold createPacketEntry
  split
  · rfl
  · split <;> rfl

theorem socketSend_pass (flow : U32) (flight : Flight) {len : Nat} {force : Bool}
    (hcredit : force = true ∨ len ≤ h.pacingCredit.toNat) :
    (h.socketSend flight len force).1 = false ∧
      (h.socketSend flight len force).2.view flow = (h.view flow).send flight ∧
      (h.socketSend flight len force).2.retransQueue = h.retransQueue := by
  have hpass : ¬ (force = false ∧ h.pacingCredit.toNat < len) := by
    rintro ⟨hforce, hlt⟩
    rcases hcredit with htrue | hle
    · simp [htrue] at hforce
    · omega
  unfold socketSend
  rw [if_neg hpass]
  exact ⟨rfl, rfl, rfl⟩

theorem reaches_socketSend_of_ne (hne : g ≠ flow) {flight : Flight}
    (hflow : flight.packet.flow? = some g) (len : Nat) (force : Bool) :
    Reaches flow env event start h (h.socketSend flight len force).2 := by
  unfold socketSend
  split
  · exact .refl h
  · exact .foreignSend flight hflow hne rfl

theorem reaches_fecPushData_of_ne (hne : g ≠ flow) (post : DataPost) :
    Reaches flow env event start h (h.fecPushData g post) := by
  have hpushed : Reaches flow env event start h
      (h.modifyStream g (fun c => c.setFec (c.fec.fecPushData post))) :=
    .of_view_eq (view_modifyStream_of_ne hne _)
  unfold fecPushData
  dsimp only
  split
  · exact hpushed
  · split
    · exact hpushed.trans reaches_fecPost
    · exact hpushed

theorem dataFlight_flow (c : Stream) (post : DataPost) :
    (c.dataFlight flow post).packet.flow? = some flow := by
  unfold Stream.dataFlight
  dsimp only
  split <;> rfl

theorem reaches_dataPost_of_ne (hne : g ≠ flow) (seq len fecSeq : U32) (fecIndex : U8)
    (fecPost : Bool) :
    Reaches flow env event start h (h.litedtDataPost env g seq len fecSeq fecIndex fecPost).2 := by
  unfold litedtDataPost
  split
  · exact .refl h
  · split
    · exact .refl h
    · split
      · exact .refl h
      · rename_i conn hfind
        split
        · exact .refl h
        · dsimp only
          have hentered : Reaches flow env event start h
              (h.enterPost env g conn seq len fecSeq fecIndex) := by
            unfold enterPost
            split
            · exact .refl h
            · exact (Reaches.foreignNote (conn.bufferRead g seq len) rfl hne (view_record _)).silent
                (view_createPacketEntry_of_ne hne seq len fecSeq fecIndex)
          have hsent : ∀ (plen : Nat) (force : Bool), Reaches flow env event start h
              ((h.enterPost env g conn seq len fecSeq fecIndex).socketSend
                (conn.dataFlight g (conn.dataPost seq len fecSeq fecIndex)) plen force).2 :=
            fun plen force =>
              hentered.trans (reaches_socketSend_of_ne hne (dataFlight_flow _ _) plen force)
          split
          · exact (hsent _ _).trans (reaches_fecPushData_of_ne hne _)
          · exact hsent _ _

theorem reaches_keepalive {conn : Conn} (hfind : h.findConnection g = some conn) :
    Reaches flow env event start h (h.litedtDataPost env g conn.sendSeq 0 0 0 false).2 := by
  by_cases heq : g = flow
  · subst heq
    unfold litedtDataPost
    split
    · exact .refl h
    · split
      · exact .refl h
      · rw [hfind]
        dsimp only
        split
        · exact .refl h
        · dsimp only
          rw [if_neg (by simp), enterPost, if_pos rfl]
          exact .sender (.keepalive (view_stream_of_find hfind)) (socketSend_pass g _ (.inl rfl)).2.1
  · exact reaches_dataPost_of_ne heq _ _ _ _ _

theorem plen_le {conn : Conn} {len : U32} :
    sizeofLitedtHeader + len.toNat +
      (if conn.state = .request then sizeofDataConn else sizeofDataPost) ≤
        len.toNat + litedtMaxHeader := by
  split <;> simp only [sizeofLitedtHeader, sizeofDataConn, sizeofConnReq, sizeofDataPost,
    litedtMaxHeader] <;> omega

theorem pacingCredit_enterPost (conn : Conn) (seq len fecSeq : U32) (fecIndex : U8) :
    (h.enterPost env g conn seq len fecSeq fecIndex).pacingCredit = h.pacingCredit := by
  unfold enterPost
  split
  · rfl
  · exact pacingCredit_createPacketEntry seq len fecSeq fecIndex

theorem retransQueue_enterPost (conn : Conn) (seq len fecSeq : U32) (fecIndex : U8) :
    (h.enterPost env g conn seq len fecSeq fecIndex).retransQueue = h.retransQueue := by
  unfold enterPost
  split
  · rfl
  · unfold createPacketEntry
    split
    · rfl
    · split <;> rfl

theorem litedtDataPost_eq (env : Env) {conn : Conn} (hfind : h.findConnection g = some conn)
    (seq len fecSeq : U32) (fecIndex : U8) (fecPost : Bool) (honline : h.litedtOnlineStatus = true)
    (hfits : conn.Fits h.cfg seq len) (hcredit : len.toNat + litedtMaxHeader ≤ h.pacingCredit.toNat) :
    ∃ sent : Host,
      sent.view g = ((h.enterPost env g conn seq len fecSeq fecIndex).view g).send
        (conn.dataFlight g (conn.dataPost seq len fecSeq fecIndex)) ∧
      sent.retransQueue = h.retransQueue ∧
      h.litedtDataPost env g seq len fecSeq fecIndex fecPost = (0,
        if conn.fecEnabled ∧ h.cfg.fecGroupSize ≠ 0 ∧ fecPost then
          sent.fecPushData g (conn.dataPost seq len fecSeq fecIndex)
        else sent) := by
  have hplen : sizeofLitedtHeader + len.toNat +
      (if conn.state = .request then sizeofDataConn else sizeofDataPost) ≤
        (h.enterPost env g conn seq len fecSeq fecIndex).pacingCredit.toNat := by
    rw [pacingCredit_enterPost]
    exact plen_le.trans hcredit
  obtain ⟨hpass, hview, hqueue⟩ := socketSend_pass g
    (conn.dataFlight g (conn.dataPost seq len fecSeq fecIndex)) (Or.inr hplen : (len = 0 : Bool) = true ∨ _)
  refine ⟨_, hview, hqueue.trans (retransQueue_enterPost conn seq len fecSeq fecIndex), ?_⟩
  unfold litedtDataPost
  rw [if_neg (by simp [honline]), if_neg (by have := hfits.1; omega), hfind]
  dsimp only
  rw [if_neg hfits.2, hpass]
  rfl

theorem nextBytes_le (c : Stream) :
    (h.nextBytes c).toNat ≤ h.cfg.mss ∧ (h.nextBytes c).toNat ≤ (c.writeSeq - c.sendSeq).toNat := by
  have hmss := h.cfg.mss_le
  unfold nextBytes
  simp only [umin_toNat, BitVec.toNat_ofNat]
  unfold litedtMssMax at hmss
  omega

theorem view_fecPushData {sent : Host} {conn : Conn} (hfind : sent.findConnection flow = some conn)
    (hfec : conn.fecEnabled ∧ sent.cfg.fecGroupSize ≠ 0) (post : DataPost) (bytes : U32) :
    ((sent.fecPushData flow post).modifyStream flow (fun c => c.advance bytes)).view flow =
      ((sent.view flow).withStream
        ((conn.setFec (conn.fec.fecPushData post)).advance bytes)).postFull flow
          ((conn.setFec (conn.fec.fecPushData post)).advance bytes) := by
  set pushed := sent.modifyStream flow (fun c => c.setFec (c.fec.fecPushData post)) with hpushed
  obtain ⟨conn', hfind', hstream⟩ : ∃ conn', pushed.findConnection flow = some conn' ∧
      conn'.toStream = conn.setFec (conn.fec.fecPushData post) :=
    find_modifyStream hfind (fun c => c.setFec (c.fec.fecPushData post))
  have hidle : (pushed.modifyStream flow (fun c => c.advance bytes)).view flow =
      (sent.view flow).withStream ((conn.setFec (conn.fec.fecPushData post)).advance bytes) := by
    rw [view_modifyStream_self hfind', hpushed, view_modifyStream_self hfind, hstream]
    rfl
  unfold fecPushData FlowState.postFull
  rw [← hpushed]
  dsimp only
  rw [hfind']
  dsimp only
  by_cases hfull : conn'.fec.currentFecMembers ≤ conn'.fec.currentFecIndex
  · rw [if_pos hfull]
    unfold fecPost
    rw [hfind']
    dsimp only
    rw [hstream] at hfull
    by_cases hindex : conn'.fec.currentFecIndex = 0
    · rw [if_pos hindex, hidle, if_neg]
      rw [hstream] at hindex
      exact fun hpost => hpost.2.2 hindex
    · rw [if_neg hindex]
      rw [hstream] at hindex
      rw [if_pos ⟨hfec, hfull, hindex⟩]
      obtain ⟨conn'', hfind'', hstream'⟩ := find_modifyStream
        (h := pushed.emit (conn'.fecFlight flow)
          (sizeofLitedtHeader + sizeofDataFec + conn'.fec.fecLen.toNat))
        (by rw [find_emit, hfind']) (fun c => c.setFec (c.fec.resetGroup pushed.cfg))
      rw [view_modifyStream_self hfind'', view_modifyStream_self (by rw [find_emit, hfind']),
        view_emit, hpushed, view_modifyStream_self hfind, hstream', hstream]
      rfl
  · rw [if_neg hfull, hidle, if_neg]
    rw [hstream] at hfull
    exact fun hpost => hfull hpost.2.1

theorem firstPacket_newPacket {conn : Conn} (hbytes : h.nextBytes conn.toStream ≠ 0)
    (hfits : conn.Fits h.cfg conn.sendSeq (h.nextBytes conn.toStream)) :
    FirstPacket h.cfg conn.toStream
      (h.newPacket env conn.toStream conn.sendSeq (h.nextBytes conn.toStream)
        (h.fecHeader conn.toStream).1 (h.fecHeader conn.toStream).2) where
  seq_eq := rfl
  length_le := (nextBytes_le conn.toStream).2
  length_pos := hbytes
  fec_eq := rfl
  waiting := rfl
  retransTime_eq := ⟨_, rfl⟩
  fits := hfits

theorem reaches_post (flow : U32) (env : Env) (event : HostEvent) (start : FlowState)
    {conn : Conn} (hfind : h.findConnection g = some conn)
    (hbytes : h.nextBytes conn.toStream ≠ 0)
    (hcredit : (h.nextBytes conn.toStream).toNat + litedtMaxHeader ≤ h.pacingCredit.toNat)
    {result : Int × Host}
    (hresult : h.litedtDataPost env g conn.sendSeq (h.nextBytes conn.toStream)
      (h.fecHeader conn.toStream).1 (h.fecHeader conn.toStream).2 true = result) :
    (result.1 = 0 → Reaches flow env event start h
        (result.2.modifyStream g (fun c => c.advance (h.nextBytes conn.toStream)))) ∧
      (result.1 ≠ 0 → Reaches flow env event start h result.2) := by
  by_cases hne : g = flow
  swap
  · have hposted : Reaches flow env event start h result.2 := by
      rw [← hresult]
      exact reaches_dataPost_of_ne hne _ _ _ _ _
    exact ⟨fun _ => hposted.silent (view_modifyStream_of_ne hne _), fun _ => hposted⟩
  subst hne
  set bytes := h.nextBytes conn.toStream with hbytes_eq
  by_cases hpass : h.litedtOnlineStatus = true ∧ conn.Fits h.cfg conn.sendSeq bytes
  swap
  · have hrefused : result.1 ≠ 0 ∧ result.2 = h := by
      rw [← hresult]
      unfold litedtDataPost
      rw [hfind]
      dsimp only
      split
      · exact ⟨by simp [litedtClientOffline], rfl⟩
      · split
        · exact ⟨by simp [litedtParameterError], rfl⟩
        · rename_i honline hmss
          rw [if_pos (not_not.mp fun hfits => hpass ⟨by simpa using honline, by omega, hfits⟩)]
          exact ⟨by simp [litedtSeqOutOfRange], rfl⟩
    exact ⟨fun hzero => absurd hzero hrefused.1, fun _ => .of_view_eq (by rw [hrefused.2])⟩
  · obtain ⟨sent, hsent, -, hpost⟩ := litedtDataPost_eq env hfind conn.sendSeq bytes
      (h.fecHeader conn.toStream).1 (h.fecHeader conn.toStream).2 true hpass.1 hpass.2 hcredit
    set packet := h.newPacket env conn.toStream conn.sendSeq bytes (h.fecHeader conn.toStream).1
      (h.fecHeader conn.toStream).2 with hpacket
    have hfirst : FirstPacket h.cfg conn.toStream packet := firstPacket_newPacket hbytes hpass.2
    have hentered : (h.enterPost env g conn conn.sendSeq bytes (h.fecHeader conn.toStream).1
        (h.fecHeader conn.toStream).2).view g =
        ((h.view g).withStream (conn.enter env.alloc.node packet)).note
          (conn.bufferRead g conn.sendSeq bytes) := by
      unfold enterPost
      rw [if_neg hbytes, view_createPacketEntry_self (by rw [find_record, hfind]), view_record]
      rfl
    rw [hentered] at hsent
    have hcfg : sent.cfg = h.cfg := congrArg FlowState.cfg hsent
    obtain ⟨conn', hfind', hstream⟩ : ∃ conn', sent.findConnection g = some conn' ∧
        conn'.toStream = conn.enter env.alloc.node packet :=
      (view_stream_eq_some sent g).mp (congrArg FlowState.stream hsent)
    rw [hresult] at hpost
    subst hpost
    refine ⟨fun _ => .sender (.post packet (view_stream_of_find hfind) hfirst) ?_,
      fun hzero => absurd rfl hzero⟩
    dsimp only
    have hfields : (conn.enter env.alloc.node packet).fecEnabled = conn.fecEnabled := by
      unfold Stream.enter
      split
      · rfl
      · unfold Stream.addPacket
        split <;> rfl
    by_cases hfec : conn.fecEnabled ∧ h.cfg.fecGroupSize ≠ 0
    · rw [if_pos ⟨hfec.1, hfec.2, rfl⟩, view_fecPushData hfind'
        (by rw [hstream, hfields, hcfg]; exact hfec), hsent, hstream, Stream.posted,
        if_pos (show conn.fecEnabled ∧ (h.view g).cfg.fecGroupSize ≠ 0 from hfec)]
      rfl
    · rw [if_neg (fun hpost => hfec ⟨hpost.1, hpost.2.1⟩), view_modifyStream_self hfind', hsent,
        hstream, Stream.posted,
        if_neg (show ¬ (conn.fecEnabled ∧ (h.view g).cfg.fecGroupSize ≠ 0) from hfec),
        FlowState.postFull, if_neg]
      · rfl
      · rw [show (Stream.advance _ _).fecEnabled = _ from hfields]
        exact fun hfull => hfec hfull.1

/-! ### First transmissions -/

theorem reaches_transmitLoop (fuel : Nat) :
    Reaches flow env event start h (h.transmitLoop env g fuel).2 := by
  induction fuel generalizing h with
  | zero => exact .refl h
  | succ fuel ih =>
      unfold transmitLoop
      split
      · exact .refl h
      · rename_i conn hfind
        dsimp only
        split
        · exact .refl h
        · split
          · exact .refl h
          · split
            · exact .refl h
            · rename_i hsome hcredit _
              have hsum : (h.nextBytes conn.toStream).toNat + litedtMaxHeader ≤
                  h.pacingCredit.toNat := by
                have hle := (nextBytes_le (h := h) conn.toStream).1
                have hmss := h.cfg.mss_le
                have hpredict : (h.nextBytes conn.toStream + BitVec.ofNat 32 litedtMaxHeader).toNat =
                    (h.nextBytes conn.toStream).toNat + litedtMaxHeader := by
                  rw [BitVec.toNat_add, BitVec.toNat_ofNat]
                  unfold litedtMaxHeader litedtMssMax at *
                  omega
                omega
              obtain ⟨hok, hfail⟩ := reaches_post flow env event start hfind
                (fun hzero => hsome (.inr hzero)) hsum rfl
              split
              · exact (hok ‹_›).trans ih
              · split <;> exact hfail ‹_›

/-- What `litedt_data_post` leaves alone. -/
def unposted (h : Host) (flow : U32) : Option (U32 × U32) × ActiveQueue :=
  ((h.findConnection flow).map (fun conn => (conn.writeSeq, conn.sendSeq)), h.activeQueue)

theorem unposted_modifyStream (h : Host) (flow : U32) {update : Stream → Stream}
    (hupdate : ∀ c, (update c).writeSeq = c.writeSeq ∧ (update c).sendSeq = c.sendSeq) :
    unposted (h.modifyStream flow update) flow = unposted h flow := by
  unfold unposted
  rw [Host.modifyStream, findConnection_modifyConn, if_pos rfl, Option.map_map]
  refine Prod.ext (congrArg (Option.map · _) (funext fun conn => ?_)) rfl
  simp [(hupdate conn.toStream).1, (hupdate conn.toStream).2]

theorem unposted_fecPushData (h : Host) (flow : U32) (post : DataPost) :
    unposted (h.fecPushData flow post) flow = unposted h flow := by
  have hpushed : unposted (h.modifyStream flow (fun c => c.setFec (c.fec.fecPushData post))) flow =
      unposted h flow :=
    unposted_modifyStream h flow fun _ => ⟨rfl, rfl⟩
  unfold Host.fecPushData
  dsimp only
  split
  · exact hpushed
  · split
    · unfold Host.fecPost
      split
      · exact hpushed
      · split
        · exact hpushed
        · dsimp only
          refine (unposted_modifyStream _ flow ?_).trans ?_
          · exact fun _ => ⟨rfl, rfl⟩
          · rw [unposted, find_emit]
            exact hpushed
    · exact hpushed

theorem unposted_dataPost (h : Host) (flow seq len fecSeq : U32) (fecIndex : U8) (fecPost : Bool) :
    unposted (h.litedtDataPost env flow seq len fecSeq fecIndex fecPost).2 flow = unposted h flow := by
  unfold litedtDataPost
  split
  · rfl
  · split
    · rfl
    · split
      · rfl
      · rename_i conn hfind
        split
        · rfl
        · have hentered : unposted (h.enterPost env flow conn seq len fecSeq fecIndex) flow =
              unposted h flow := by
            unfold enterPost
            split
            · rfl
            · unfold Host.createPacketEntry
              split
              · rfl
              · split
                · rfl
                · rw [unposted_modifyStream]
                  · rfl
                  · intro c
                    unfold Stream.addPacket
                    split <;> exact ⟨rfl, rfl⟩
          have hsent (flight : Flight) (size : Nat) (force : Bool) :
              unposted ((h.enterPost env flow conn seq len fecSeq fecIndex).socketSend flight size
                force).2 flow = unposted h flow := by
            unfold Host.socketSend
            split <;> exact hentered
          dsimp only
          split
          · rw [unposted_fecPushData]
            exact hsent _ _ _
          · exact hsent _ _ _

theorem view_deactivate : (h.deactivate g).view flow = h.view flow := by
  have hflags : (h.modifyConn g (fun c => { c with active := false })).view flow = h.view flow :=
    view_modifyConn_flags (fun _ => rfl)
  exact Eq.trans rfl hflags

theorem activeQueue_transmitLoop (g : U32) (fuel : Nat) :
    (h.transmitLoop env g fuel).2.activeQueue = h.activeQueue := by
  induction fuel generalizing h with
  | zero => rfl
  | succ fuel ih =>
      have hposted (seq len fecSeq : U32) (fecIndex : U8) :
          (h.litedtDataPost env g seq len fecSeq fecIndex true).2.activeQueue = h.activeQueue :=
        congrArg Prod.snd (unposted_dataPost h g seq len fecSeq fecIndex true)
      unfold transmitLoop
      split
      · rfl
      · dsimp only
        split
        · rfl
        · split
          · rfl
          · split
            · rfl
            · split
              · exact ih.trans (hposted _ _ _ _)
              · split <;> exact hposted _ _ _ _

/-- The loop of `check_transmit_queue`: `P` says what holds with the connections that are left, and
`Q` what holds in the end. -/
theorem transmitActive_preserves {P : List U32 → Host → Prop} {Q : Host → Prop}
    (hend : ∀ {flows : List U32} {h : Host}, P flows h → Q h)
    (hrotate : ∀ {rest : List U32} {h : Host} {g : U32}, P (g :: rest) h →
      Q { h with activeQueue := h.activeQueue.moveHead g })
    (hloop : ∀ {flows : List U32} {h : Host} (g : U32) (fuel : Nat), P flows h →
      P flows (h.transmitLoop env g fuel).2)
    (hskip : ∀ {rest : List U32} {h : Host} {g : U32}, P (g :: rest) h → P rest h)
    (hdeactivate : ∀ {rest : List U32} {h : Host} {g : U32} {conn : Conn},
      h.findConnection g = some conn →
      ConnState.finWait.code < conn.state.code ∨ isSndQueueEmpty conn.toStream = true →
      P (g :: rest) h → P rest (h.deactivate g))
    {flows : List U32} (limited : Bool) (nextTime : Time) (hP : P flows h) :
    Q (h.transmitActive env flows limited nextTime).1 := by
  induction flows generalizing h limited nextTime with
  | nil => exact hend hP
  | cons g rest ih =>
      unfold transmitActive
      split
      · exact hrotate hP
      · split
        · exact hend hP
        · rename_i conn hfind
          split
          · rename_i hclosing
            exact ih _ _ (hdeactivate hfind (.inl hclosing) hP)
          · have hsent := hloop g (conn.writeSeq - conn.sendSeq).toNat hP
            dsimp only
            generalize h.transmitLoop env g (conn.writeSeq - conn.sendSeq).toNat = looped at hsent ⊢
            cases hfound : looped.2.findConnection g with
            | none => split <;> exact ih _ _ (hskip hsent)
            | some conn' =>
                dsimp only
                by_cases hempty : isSndQueueEmpty conn'.toStream = true
                · rw [if_pos hempty]
                  split <;> exact ih _ _ (hdeactivate hfound (.inr hempty) hsent)
                · rw [if_neg hempty]
                  split <;> exact ih _ _ (hskip hsent)

theorem reaches_transmitActive (flows : List U32) (limited : Bool) (nextTime : Time) :
    Reaches flow env event start h (h.transmitActive env flows limited nextTime).1 :=
  transmitActive_preserves (P := fun _ => Reaches flow env event start h) id
    (fun hreach => hreach.trans (.of_view_eq rfl))
    (fun _ _ hreach => hreach.trans (reaches_transmitLoop _)) id
    (fun _ _ hreach => hreach.silent view_deactivate) limited nextTime (.refl h)

theorem reaches_checkTransmitQueue (nextTime : Time) :
    Reaches flow env event start h (h.checkTransmitQueue env nextTime).1 := by
  have hsent : Reaches flow env event start h
      (h.transmitActive env h.activeQueue.flows false nextTime).1 :=
    reaches_transmitActive h.activeQueue.flows false nextTime
  have hmarked (h : Host) (limited : Bool) : (h.markAppLimited limited).view flow = h.view flow := by
    unfold markAppLimited
    split <;> rfl
  have hcleared (h : Host) (limited : Bool) : (h.clearCredit limited).view flow = h.view flow := by
    unfold clearCredit
    split <;> rfl
  exact hsent.silent ((hcleared _ _).trans (hmarked _ _))

/-! ### Retransmissions -/

theorem view_foldl_pushReady_of_ne (hne : g ≠ flow) (packets : List PacketEntry) :
    (packets.foldl (pushReady g) h).view flow = h.view flow := by
  induction packets generalizing h with
  | nil => rfl
  | cons packet rest ih =>
      rw [List.foldl_cons, ih]
      have hentries : (fun seq => (h.retransQueue.timerlistPush packet.sendTime (g, packet.seq)
          ()).entries (flow, seq)) = (h.view flow).ready := by
        funext seq
        rw [Timerlist.entries_push, if_neg (fun heq => hne (Prod.mk.inj heq).1)]
        rfl
      unfold pushReady view
      simp only [hentries]
      rfl

theorem view_foldl_pushReady_self (packets : List PacketEntry) :
    (packets.foldl (pushReady flow) h).view flow =
      { h.view flow with ready := enqueue (h.view flow).ready packets } := by
  induction packets generalizing h with
  | nil => rfl
  | cons packet rest ih =>
      rw [List.foldl_cons, ih]
      have hentries : ((pushReady flow h packet).view flow).ready =
          enqueue (h.view flow).ready [packet] := by
        funext seq
        show (h.retransQueue.timerlistPush packet.sendTime (flow, packet.seq) ()).entries
          (flow, seq) = _
        rw [Timerlist.entries_push]
        simp [enqueue, view, Prod.mk.injEq, List.countP_cons]
      rw [hentries]
      have hcons : enqueue (enqueue (h.view flow).ready [packet]) rest =
          enqueue (h.view flow).ready (packet :: rest) := by
        funext seq
        simp only [enqueue, List.countP_cons, List.countP_nil]
        omega
      rw [hcons]
      rfl

theorem view_retransTimeEvent_self {conn : Conn} (hfind : h.findConnection flow = some conn)
    (hstate : ¬ ConnState.closeWait.code ≤ conn.state.code) {curTime : Time} {stream : Stream}
    {packets : List PacketEntry} {dangling : Bool}
    (hloop : conn.readyLoop curTime conn.waitingQueue = (stream, packets, dangling)) :
    (h.retransTimeEvent flow curTime).view flow =
      { h.view flow with
        stream := some stream
        ready := enqueue (h.view flow).ready packets
        log := if dangling then h.log ++ [.dangling flow] else h.log } := by
  have hqueued :
      (packets.foldl (pushReady flow) (h.modifyStream flow (fun _ => stream))).view flow =
        { h.view flow with
          stream := some stream
          ready := enqueue (h.view flow).ready packets } := by
    rw [view_foldl_pushReady_self, view_modifyStream_self hfind]
    rfl
  unfold retransTimeEvent
  rw [hfind]
  dsimp only
  rw [if_neg hstate, hloop]
  cases dangling
  · exact hqueued
  · rw [if_pos rfl, view_record, hqueued]
    rfl

theorem reaches_retransTimeEvent (curTime : Time) :
    Reaches flow env event start h (h.retransTimeEvent g curTime) := by
  cases hfind : h.findConnection g with
  | none => exact .of_view_eq (by rw [retransTimeEvent, hfind])
  | some conn =>
      by_cases hstate : ConnState.closeWait.code ≤ conn.state.code
      · refine .of_view_eq ?_
        rw [retransTimeEvent, hfind]
        dsimp only
        rw [if_pos hstate]
      · rcases hloop : conn.readyLoop curTime conn.waitingQueue with ⟨stream, packets, dangling⟩
        by_cases hne : g = flow
        · subst hne
          exact .sender (.ready curTime (view_stream_of_find hfind) hloop)
            (view_retransTimeEvent_self hfind hstate hloop)
        · have hqueued : Reaches flow env event start h
              (packets.foldl (pushReady g) (h.modifyStream g (fun _ => stream))) :=
            .of_view_eq ((view_foldl_pushReady_of_ne hne packets).trans
              (view_modifyStream_of_ne hne _))
          unfold retransTimeEvent
          rw [hfind]
          dsimp only
          rw [if_neg hstate, hloop]
          dsimp only
          split
          · exact hqueued.trans (.foreignNote (.dangling g) rfl hne (view_record _))
          · exact hqueued

theorem reaches_retransActive (curTime : Time) (flows : List U32) (nextTime : Time) :
    Reaches flow env event start h (retransActive curTime flows h nextTime).1 := by
  induction flows generalizing h nextTime with
  | nil => exact .refl h
  | cons g rest ih => exact (reaches_retransTimeEvent curTime).trans (ih _)

theorem retransQueue_socketSend (flight : Flight) (len : Nat) (force : Bool) :
    (h.socketSend flight len force).2.retransQueue = h.retransQueue := by
  unfold socketSend
  split <;> rfl

theorem retransQueue_dataPost (seq len fecSeq : U32) (fecIndex : U8) :
    (h.litedtDataPost env g seq len fecSeq fecIndex false).2.retransQueue = h.retransQueue := by
  unfold litedtDataPost
  split
  · rfl
  · split
    · rfl
    · split
      · rfl
      · rename_i conn hfind
        split
        · rfl
        · dsimp only
          rw [if_neg (by simp), retransQueue_socketSend]
          exact retransQueue_enterPost conn seq len fecSeq fecIndex

theorem retransQueue_queueRetrans (key : U32) (packet : PacketEntry) (time : Time) :
    (h.queueRetrans g key packet time).retransQueue = h.retransQueue := by
  unfold queueRetrans
  split <;> rfl

theorem retransQueue_handleRetrans (env : Env) (g key : U32) (conn : Conn) (packet : PacketEntry) :
    (h.handleRetrans env g key conn packet).2.retransQueue = h.retransQueue := by
  unfold handleRetrans
  split
  · exact retransQueue_queueRetrans key packet h.curTime
  · split
    · exact (retransQueue_queueRetrans key packet h.curTime).trans (retransQueue_dataPost _ _ _ _)
    · rfl

theorem view_queueRetrans_self (key : U32) (packet : PacketEntry) (time : Time) :
    (h.queueRetrans flow key packet time).view flow =
      (h.view flow).requeue flow key packet (h.getRetransTime time) := by
  unfold queueRetrans FlowState.requeue
  split
  · cases hfind : h.findConnection flow with
    | none =>
        rw [view_modifyStream_none hfind]
        simp [view, hfind]
    | some conn =>
        rw [view_modifyStream_self hfind]
        simp [view, hfind, FlowState.withStream]
  · exact view_record _

theorem reaches_queueRetrans_of_ne (hne : g ≠ flow) (key : U32) (packet : PacketEntry)
    (time : Time) : Reaches flow env event start h (h.queueRetrans g key packet time) := by
  unfold queueRetrans
  split
  · exact .of_view_eq (view_modifyStream_of_ne hne _)
  · exact .foreignNote (.assertFailed g .queueRetrans) rfl hne (view_record _)

section Top

variable {time : Time} {key : U32} (htop : h.retransQueue.timerlistTop = some (time, g, key))

include htop

theorem view_popUnready_self : (h.popUnready g key).view g = (h.view g).popUnready g key := by
  unfold popUnready FlowState.popUnready
  rw [findPacket_eq]
  cases (h.view g).stream.bind (fun c => c.packetList.treemapValue key) with
  | none => exact view_record _
  | some packet =>
      dsimp only
      split
      · rfl
      · have hready : (fun seq => h.retransQueue.timerlistPop.entries (g, seq)) =
            Function.update (h.view g).ready key ((h.view g).ready key - 1) := by
          funext seq
          have hpop := Timerlist.entries_pop htop (g, seq)
          rw [Function.update_apply]
          by_cases hseq : seq = key
          · subst hseq
            rw [if_pos rfl] at hpop ⊢
            have hview : (h.view g).ready seq = h.retransQueue.entries (g, seq) := rfl
            omega
          · rw [if_neg (fun heq => hseq (Prod.mk.inj heq).2.symm)] at hpop
            rw [if_neg hseq]
            exact hpop
        unfold view at hready ⊢
        simp only [hready]
        rfl

theorem reaches_popUnready_of_ne (hne : g ≠ flow) :
    Reaches flow env event start h (h.popUnready g key) := by
  unfold popUnready
  split
  · exact .foreignNote (.dangling g) rfl hne (view_record _)
  · split
    · exact .refl h
    · refine .of_view_eq ?_
      have hready : (fun seq => h.retransQueue.timerlistPop.entries (flow, seq)) =
          (h.view flow).ready := by
        funext seq
        have hpop := Timerlist.entries_pop htop (flow, seq)
        rw [if_neg (fun heq => hne (Prod.mk.inj heq).1)] at hpop
        exact hpop
      unfold view at hready ⊢
      simp only [hready]
      rfl

theorem reaches_handleRetrans_of_ne (hne : g ≠ flow) (conn : Conn) (packet : PacketEntry) :
    Reaches flow env event start h
      ((h.handleRetrans env g key conn packet).2.popUnready g key) := by
  rw [← retransQueue_handleRetrans env g key conn packet] at htop
  refine Reaches.trans ?_ (reaches_popUnready_of_ne htop hne)
  unfold handleRetrans
  split
  · exact reaches_queueRetrans_of_ne hne key packet h.curTime
  · split
    · exact (reaches_dataPost_of_ne hne _ _ _ _ _).trans (reaches_queueRetrans_of_ne hne _ _ _)
    · exact .refl h

variable {conn : Conn} {packet : PacketEntry} (hfind : h.findConnection g = some conn)
    (hpacket : conn.packetList.treemapValue key = some packet)

include hfind hpacket

theorem reaches_giveUp :
    Reaches g env event start h
      ((h.queueRetrans g key packet h.curTime).popUnready g key) := by
  refine .sender (.giveUp key (h.getRetransTime h.curTime) (view_stream_of_find hfind)
    (Timerlist.entries_top_pos htop) hpacket) ?_
  rw [view_popUnready_self (by rw [retransQueue_queueRetrans]; exact htop),
    view_queueRetrans_self]

theorem reaches_retransmit (hwindow : lessEqual conn.swinStart packet.seq = true)
    (hfits : conn.Fits h.cfg packet.seq packet.length)
    (honline : h.litedtOnlineStatus = true)
    (hcredit : packet.length.toNat + litedtMaxHeader ≤ h.pacingCredit.toNat) :
    Reaches g env event start h
      (((h.litedtDataPost env g packet.seq packet.length packet.fecSeq packet.fecIndex
        false).2.queueRetrans g key packet h.curTime).popUnready g key) := by
  obtain ⟨sent, hsent, hqueue, hpost⟩ := litedtDataPost_eq env hfind packet.seq
    packet.length packet.fecSeq packet.fecIndex false honline hfits hcredit
  rw [hpost, if_neg (by simp)]
  dsimp only
  refine .sender (.retransmit key (sent.getRetransTime h.curTime)
    (h.newPacket env conn.toStream packet.seq packet.length packet.fecSeq packet.fecIndex)
    (view_stream_of_find hfind) (Timerlist.entries_top_pos htop) hpacket hwindow hfits rfl) ?_
  rw [view_popUnready_self (by rw [retransQueue_queueRetrans, hqueue]; exact htop),
    view_queueRetrans_self, hsent]
  congr 2
  unfold FlowState.repost enterPost
  by_cases hlen : packet.length = 0
  · rw [if_pos hlen, if_pos hlen]
    rfl
  · rw [if_neg hlen, if_neg hlen, view_createPacketEntry_self (by rw [find_record, hfind]),
      view_record]
    rfl

theorem reaches_handleRetrans_self :
    Reaches g env event start h
      ((h.handleRetrans env g key conn packet).2.popUnready g key) := by
  unfold handleRetrans
  split
  · exact reaches_giveUp htop hfind hpacket
  · rename_i hwindow
    split
    · rename_i hcredit
      by_cases hpass : h.litedtOnlineStatus = true ∧ conn.Fits h.cfg packet.seq packet.length
      · exact reaches_retransmit htop hfind hpacket (by simpa using (not_or.mp hwindow).2) hpass.2
          hpass.1 hcredit
      · have hrefused : (h.litedtDataPost env g packet.seq packet.length packet.fecSeq
            packet.fecIndex false).2 = h := by
          unfold litedtDataPost
          rw [hfind]
          dsimp only
          split
          · rfl
          · split
            · rfl
            · rename_i honline hmss
              rw [if_pos (not_not.mp fun hfits => hpass ⟨by simpa using honline, by omega, hfits⟩)]
        dsimp only
        rw [hrefused]
        exact reaches_giveUp htop hfind hpacket
    · exact .sender (.hold key (view_stream_of_find hfind) (Timerlist.entries_top_pos htop) hpacket)
        (view_popUnready_self htop)

end Top

theorem reaches_retransTurn {time : Time} {key : U32} {conn : Conn} {packet : PacketEntry}
    (htop : h.retransQueue.timerlistTop = some (time, g, key))
    (hfind : h.findConnection g = some conn) (hpacket : h.findPacket g key = some packet) :
    Reaches flow env event start h
      ((h.handleRetrans env g key conn packet).2.popUnready g key) := by
  by_cases hne : g = flow
  · subst hne
    rw [findPacket, hfind, Option.bind_some] at hpacket
    exact reaches_handleRetrans_self htop hfind hpacket
  · exact reaches_handleRetrans_of_ne htop hne conn packet

theorem reaches_retransQueueLoop (fuel : Nat) :
    Reaches flow env event start h (h.retransQueueLoop env fuel) := by
  induction fuel generalizing h with
  | zero => exact .refl h
  | succ fuel ih =>
      unfold retransQueueLoop
      split
      · exact .refl h
      · rename_i time g key htop
        split
        · rename_i conn packet hfind hpacket
          dsimp only
          have hturn : Reaches flow env event start h
              ((h.handleRetrans env g key conn packet).2.popUnready g key) :=
            reaches_retransTurn htop hfind hpacket
          split
          · exact hturn
          · exact hturn.trans ih
        · rename_i hlost
          by_cases hne : g = flow
          · subst hne
            refine .sender (.lost key (Timerlist.entries_top_pos htop) ?_) (view_record _)
            rw [← findPacket_eq]
            cases hfind : h.findConnection g with
            | none => simp [findPacket, hfind]
            | some conn =>
                cases hpacket : h.findPacket g key with
                | none => rfl
                | some packet => exact absurd hpacket (hlost conn packet hfind)
          · exact .foreignNote (.dangling g) rfl hne (view_record _)

theorem reaches_checkRetransQueue (nextTime : Time) :
    Reaches flow env event start h (h.checkRetransQueue env nextTime).1 := by
  have hsent : Reaches flow env event start h
      ((retransActive h.curTime h.activeQueue.flows h nextTime).1.retransQueueSend env) :=
    (reaches_retransActive h.curTime h.activeQueue.flows nextTime).trans (reaches_retransQueueLoop _)
  unfold checkRetransQueue
  dsimp only
  split <;> exact hsent

/-! ### Connection timers -/

theorem reaches_probeWindow {conn : Conn} (hfind : h.findConnection g = some conn)
    (maxProbes : Nat) : Reaches flow env event start h (h.probeWindow env g conn maxProbes) := by
  unfold probeWindow
  dsimp only
  refine Reaches.silent ?_ (view_modifyConn_flags fun _ => rfl)
  split
  · exact (reaches_keepalive hfind).silent (view_modifyConn_flags fun _ => rfl)
  · exact .refl h

theorem reaches_checkAndSendProbes {conn : Conn} (hfind : h.findConnection g = some conn) :
    Reaches flow env event start h (h.checkAndSendProbes env g conn).2 := by
  unfold checkAndSendProbes
  repeat' split
  all_goals first | exact reaches_probeWindow hfind _ | exact .refl h

theorem find_postGroup {conn : Conn} (hfind : h.findConnection g = some conn) (full : Prop)
    [Decidable full] : ∃ conn', (if full then h.fecPost g else h).findConnection g = some conn' ∧
      conn'.state = conn.state ∧ conn'.writeSeq = conn.writeSeq := by
  split
  · unfold fecPost
    rw [hfind]
    dsimp only
    split
    · exact ⟨conn, hfind, rfl, rfl⟩
    · obtain ⟨conn', hfind', hstream⟩ := find_modifyStream
        (h := h.emit (conn.fecFlight g) (sizeofLitedtHeader + sizeofDataFec + conn.fec.fecLen.toNat))
        (by rw [find_emit, hfind]) (fun c => c.setFec (c.fec.resetGroup h.cfg))
      exact ⟨conn', hfind', by rw [hstream]; rfl, by rw [hstream]; rfl⟩
  · exact ⟨conn, hfind, rfl, rfl⟩

theorem reaches_synchronize {conn : Conn} (hfind : h.findConnection g = some conn) {sent : Host}
    (hsent : h.synchronize g conn = some sent) : Reaches flow env event start h sent := by
  have hgroup : Reaches flow env event start h
      (if conn.fecEnabled ∧ h.cfg.fecGroupSize ≠ 0 then h.fecPost g else h) := by
    split
    · exact reaches_fecPost
    · exact .refl h
  unfold synchronize at hsent
  dsimp only at hsent
  cases hstate : conn.state with
  | request =>
      rw [hstate] at hsent
      exact Option.some.inj hsent ▸ reaches_connReq conn.tunnelId
  | established =>
      rw [hstate] at hsent
      exact Option.some.inj hsent ▸ hgroup.trans (reaches_dataAck _)
  | finWait =>
      rw [hstate] at hsent
      obtain ⟨conn', hfind', hstate', hwrite⟩ :=
        find_postGroup hfind (conn.fecEnabled ∧ h.cfg.fecGroupSize ≠ 0)
      have hclose : Reaches flow env event start
          (if conn.fecEnabled ∧ h.cfg.fecGroupSize ≠ 0 then h.fecPost g else h) _ :=
        reaches_closeReq hfind' (hstate'.trans hstate)
      rw [hwrite] at hclose
      exact Option.some.inj hsent ▸ hgroup.trans hclose
  | closeWait =>
      rw [hstate] at hsent
      exact Option.some.inj hsent ▸ reaches_dataAck _
  | closed =>
      rw [hstate] at hsent
      dsimp only at hsent
      split at hsent
      · exact absurd hsent (by simp)
      · exact Option.some.inj hsent ▸ .refl h

theorem view_rearm : (h.rearm g).view flow = h.view flow := by
  unfold rearm
  refine view_modifyConn_flags fun conn => ?_
  split <;> rfl

theorem reaches_notifyUser : Reaches flow env event start h (h.notifyUser env g).2.2 := by
  unfold notifyUser
  have hreceived : Reaches flow env event start h (h.notifyReadable env g).2 := by
    unfold notifyReadable
    split
    · exact .refl h
    · split
      · dsimp only
        split
        · exact .refl h
        · exact reaches_notifyReceive _
      · exact .refl h
  generalize h.notifyReadable env g = result at hreceived ⊢
  obtain ⟨readable, received⟩ := result
  dsimp only at hreceived ⊢
  split
  · exact hreceived
  · split
    · dsimp only
      split
      · exact hreceived
      · exact hreceived.trans (reaches_notifySend _)
    · exact hreceived

theorem reaches_finishConnection (probeTime : Time) :
    Reaches flow env event start h (h.finishConnection env g probeTime) := by
  unfold finishConnection
  have hnotified : Reaches flow env event start h (h.notifyUser env g).2.2 := reaches_notifyUser
  generalize h.notifyUser env g = notified at hnotified ⊢
  obtain ⟨readable, writable, notified⟩ := notified
  dsimp only at hnotified ⊢
  split
  · exact hnotified
  · refine hnotified.silent ?_
    unfold view findConnection
    simp only [Timerlist.timerlistGet_reschedTop]

theorem reaches_checkConnection {conn : Conn} {fuel : Nat} (hevent : event = .time fuel)
    (hfind : h.findConnection g = some conn) :
    Reaches flow env event start h (h.checkConnection env g conn) := by
  unfold checkConnection
  split
  · rename_i hlate
    exact reaches_releaseFound hfind (.timeout hevent hlate)
  · have hprobed : Reaches flow env event start h (h.checkAndSendProbes env g conn).2 :=
      reaches_checkAndSendProbes hfind
    generalize h.checkAndSendProbes env g conn = result at hprobed ⊢
    obtain ⟨probeTime, probed⟩ := result
    dsimp only at hprobed ⊢
    split
    · exact hprobed
    · rename_i conn' hfind'
      split
      · split
        · rename_i hsync
          refine hprobed.trans (reaches_releaseFound hfind' ?_)
          unfold synchronize at hsync
          dsimp only at hsync
          cases hstate : conn'.state <;> rw [hstate] at hsync <;> dsimp only at hsync
          case closed =>
            split at hsync
            · exact .drained hstate ‹_›
            · exact absurd hsync (by simp)
          all_goals exact absurd hsync (by simp)
        · rename_i sent hsync
          exact ((hprobed.trans (reaches_synchronize hfind' hsync)).silent view_rearm).trans
            (reaches_finishConnection probeTime)
      · exact hprobed.trans (reaches_finishConnection probeTime)

theorem reaches_checkConnectionLoop {total : Nat} (hevent : event = .time total) (fuel : Nat) :
    Reaches flow env event start h (checkConnectionLoop env fuel h) := by
  induction fuel generalizing h with
  | zero => exact .refl h
  | succ fuel ih =>
      unfold checkConnectionLoop
      split
      · exact .refl h
      · split
        · exact .refl h
        · split
          · exact .refl h
          · rename_i conn hfind
            exact (reaches_checkConnection hevent hfind).trans ih

theorem reaches_checkConnectionState {fuel : Nat} (hevent : event = .time fuel) (nextTime : Time) :
    Reaches flow env event start h (checkConnectionState env fuel h nextTime).1 := by
  unfold checkConnectionState
  dsimp only
  split <;> exact reaches_checkConnectionLoop hevent fuel

/-! ### The event -/

theorem reaches_serve {fuel : Nat} (hevent : event = .time fuel) (nextTime : Time) :
    Reaches flow env event start h (h.serve env fuel nextTime) := by
  have hchecked : Reaches flow env event start h
      (checkConnectionState env fuel h.addCredit.ctrlTimeEvent nextTime).1 :=
    (Reaches.of_view_eq (view_of_core (core_ctrlTimeEvent.trans core_addCredit))).trans
      (reaches_checkConnectionState hevent nextTime)
  unfold serve
  generalize checkConnectionState env fuel h.addCredit.ctrlTimeEvent nextTime = checked
    at hchecked ⊢
  obtain ⟨checked, nextTime⟩ := checked
  dsimp only at hchecked ⊢
  have hsent := hchecked.trans (reaches_checkRetransQueue nextTime)
  generalize checked.checkRetransQueue env nextTime = sent at hsent ⊢
  obtain ⟨sent, nextTime⟩ := sent
  dsimp only at hsent ⊢
  exact (hsent.trans (reaches_checkTransmitQueue nextTime)).silent rfl

theorem reaches_goOffline : Reaches flow env event start h (h.goOffline env) := by
  have hstamped : Reaches flow env event start h
      { h with offlineTime := getOfflineTime h.cfg h.curTime } := .of_view_eq rfl
  exact (hstamped.trans (reaches_releaseAll fun _ _ _ _ => .offline)).trans
    (.single (.session .offline) rfl)

theorem reaches_sendPing : Reaches flow env event start h (h.sendPing env) := by
  unfold sendPing
  split
  · exact reaches_pingReq.silent rfl
  · exact .refl h

theorem reaches_timeEvent {fuel : Nat} (hevent : event = .time fuel) :
    Reaches flow env event start (h.updateTime env) (h.litedtTimeEvent env fuel) := by
  unfold litedtTimeEvent
  dsimp only
  split
  · exact .refl _
  · have hpinged : Reaches flow env event start (h.updateTime env)
        ((h.updateTime env).sendPing env) :=
      reaches_sendPing
    generalize (h.updateTime env).sendPing env = pinged at hpinged ⊢
    have hexpired (queue : HashQueue U32 Time) :
        Reaches flow env event start (h.updateTime env) { pinged with timewaitQueue := queue } :=
      hpinged.silent rfl
    split
    · exact (hexpired _).trans reaches_goOffline
    · split
      · exact (hexpired _).trans (reaches_serve hevent _)
      · exact hexpired _

/-- The host at the start of an event, when the clock has been read. -/
def began (env : Env) (h : Host) : HostEvent → Host
  | .io _ | .time _ => h.updateTime env
  | .call _ | .fini => h

theorem step_reaches (flow : U32) (env : Env) (h : Host) (event : HostEvent) :
    Reaches flow env event ((h.began env event).view flow) (h.began env event)
      (h.step env event) := by
  cases event with
  | call call => exact reaches_call call rfl
  | time fuel => exact reaches_timeEvent rfl
  | io packet => exact reaches_ioEvent packet rfl rfl
  | fini => exact reaches_fini rfl

/-! ### Invariants -/

theorem moves_preserves {P : FlowState → Prop} {v v' : FlowState}
    (hmove : ∀ v v', Move flow env event start v v' → P v → P v')
    (hmoves : Moves flow env event start v v') (hv : P v) : P v' := by
  unfold Moves at hmoves
  induction hmoves with
  | refl => exact hv
  | tail _ hlast ih => exact hmove _ _ hlast ih

theorem step_preserves {P : FlowState → Prop}
    (hmove : ∀ v v', Move flow env event ((h.began env event).view flow) v v' → P v → P v')
    (hview : P ((h.began env event).view flow)) : P ((h.step env event).view flow) :=
  moves_preserves hmove (step_reaches flow env h event) hview

theorem began_preserves {P : FlowState → Prop}
    (hclock : ∀ v now, P v → P { v with curTime := now }) (env : Env) (event : HostEvent)
    (hview : P (h.view flow)) : P ((h.began env event).view flow) := by
  cases event with
  | io packet => exact hclock _ _ hview
  | time fuel => exact hclock _ _ hview
  | call call => exact hview
  | fini => exact hview

/-- A property that the clock and every move keep holds after every run. -/
theorem run_preserves {P : FlowState → Prop} {events : List (Env × HostEvent)}
    (hclock : ∀ v now, P v → P { v with curTime := now })
    (hmove : ∀ e ∈ events, ∀ start v v', Move flow e.1 e.2 start v v' → P v → P v')
    (hview : P (h.view flow)) : P ((h.run events).view flow) := by
  induction events generalizing h with
  | nil => exact hview
  | cons e rest ih =>
      exact ih (fun e' he' => hmove e' (by simp [he']))
        (step_preserves (hmove e (by simp) _) (began_preserves hclock e.1 e.2 hview))

end Host

end Liteflow

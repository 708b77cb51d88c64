import Liteflow.Proof.Frames

/-!
# The life of a connection

The state of a connection only moves forward, and once the connection is closing its stream has its
final length. Ten functions write the state or the stream, but as moves there are four kinds: most
keep the connection or take it forward, one announces the end of the stream, one creates the
connection and one releases it.
-/

namespace Liteflow

/-- The state has not gone back, `CONN_FIN_WAIT` has been kept, and a stream that was closing has the
same length. -/
structure Stream.Forward (c c' : Stream) : Prop where
  state_le : c.state.code ≤ c'.state.code
  finWait : c.state = .finWait → c'.state = .finWait
  writeSeq_eq : ConnState.finWait.code ≤ c.state.code → c'.writeSeq = c.writeSeq

def closeSeqs (flow : U32) (out : List Flight) : List U32 :=
  out.filterMap (fun flight =>
    match flight.packet with
    | .closeReq g lastSeq => if g = flow then some lastSeq else none
    | _ => none)

def Event.isReleased (flow : U32) : Event → Bool
  | released g _ _ => g = flow
  | _ => false

namespace Stream.Forward

variable {c c' c'' : Stream}

theorem refl (c : Stream) : c.Forward c :=
  ⟨le_rfl, id, fun _ => rfl⟩

theorem trans (h : c.Forward c') (h' : c'.Forward c'') : c.Forward c'' where
  state_le := h.state_le.trans h'.state_le
  finWait hstate := h'.finWait (h.finWait hstate)
  writeSeq_eq hstate := (h'.writeSeq_eq (hstate.trans h.state_le)).trans (h.writeSeq_eq hstate)

theorem of_eq (hstate : c'.state = c.state) (hwrite : c'.writeSeq = c.writeSeq) : c.Forward c' :=
  ⟨by rw [hstate], fun h => hstate.trans h, fun _ => hwrite⟩

theorem of_relisted (hrelisted : Relisted c c') : c.Forward c' := by
  obtain ⟨list, queue, rfl⟩ := hrelisted
  exact of_eq rfl rfl

theorem of_later (hstate : c.state.code ≤ c'.state.code) (hfin : c.state ≠ .finWait)
    (hwrite : c'.writeSeq = c.writeSeq) : c.Forward c' :=
  ⟨hstate, fun h => absurd h hfin, fun _ => hwrite⟩

theorem establish (c : Stream) : c.Forward c.establish := by
  unfold Stream.establish
  split
  · rename_i hrequest
    exact of_later (by simp [hrequest, ConnState.code]) (by simp [hrequest]) rfl
  · exact refl c

theorem closeWait (hfin : c.state ≠ .finWait) (hclosed : c.state ≠ .closed) (lastSeq : U32) :
    c.Forward (c.closeWait lastSeq) := by
  have hcode : c.state.code ≤ ConnState.closeWait.code := by
    cases hstate : c.state <;> simp_all [ConnState.code]
  unfold Stream.closeWait
  split
  · exact of_later (hcode.trans (Nat.le_succ 3)) hfin rfl
  · exact of_later hcode hfin rfl

theorem reset (hfin : c.state ≠ .finWait) : c.Forward { c with state := .closed } := by
  refine of_later ?_ hfin rfl
  cases hstate : c.state <;> simp [ConnState.code]

theorem write (hstate : c.state.code < ConnState.finWait.code) (alloc : Alloc) (data : List Byte) :
    c.Forward (c.write alloc data) where
  state_le := le_rfl
  finWait h := by simp [h] at hstate
  writeSeq_eq h := absurd h (Nat.not_le.mpr hstate)

theorem posted (cfg : Config) (nodeAlloc : Bool) (c : Stream) (packet : PacketEntry) :
    c.Forward (c.posted cfg nodeAlloc packet) := by
  unfold Stream.posted
  obtain ⟨list, queue, heq⟩ := Stream.relisted_enter nodeAlloc c packet
  dsimp only
  rw [heq]
  split <;> exact of_eq rfl rfl

end Stream.Forward

section Moves

variable {flow : U32} {env : Env} {event : HostEvent} {start v v' : FlowState} {c c' : Stream}

inductive LifeStep (flow : U32) (v v' : FlowState) : Prop where
  | goes (hstream : Option.Rel Stream.Forward v.stream v'.stream)
      (hgrows : Grows (fun flight => closeSeqs flow [flight] = [])
        (fun e => e.isCreated flow = false ∧ e.isReleased flow = false) v v')
  | announces {c c' : Stream} (hstream : v.stream = some c) (hstream' : v'.stream = some c')
      (hforward : c.Forward c')
      (hfin : c'.state = .finWait) (hlog : v'.log = v.log)
      (hout : v'.out = v.out ++ [{ packet := .closeReq flow c'.writeSeq }])
  | begins {c' : Stream} (hstream : v.stream = none) (hstream' : v'.stream = some c')
      (hlog : v'.log = v.log ++ [.created flow]) (hout : v'.out = v.out)
  | ends {c : Stream} {cause : ReleaseCause} (hstream : v.stream = some c) (hstream' : v'.stream = none)
      (hlog : v'.log = v.log ++ [.released flow cause c]) (hout : v'.out = v.out)

theorem LifeStep.of_stream (hstream : v.stream = some c) (hstream' : v'.stream = some c')
    (hforward : c.Forward c')
    (hgrows : Grows (fun flight => closeSeqs flow [flight] = [])
      (fun e => e.isCreated flow = false ∧ e.isReleased flow = false) v v') : LifeStep flow v v' :=
  .goes (by rw [hstream, hstream']; exact .some hforward) hgrows

theorem rel_forward_of_eq (hstream : v'.stream = v.stream) :
    Option.Rel Stream.Forward v.stream v'.stream := by
  rw [hstream]
  cases v.stream with
  | none => exact .none
  | some c => exact .some (.refl c)

theorem Grows.of_sent {flights : Flight → Prop} {events : Event → Prop} {flight : Flight}
    (hflight : flights flight) (hout : v'.out = v.out ++ [flight]) (hlog : v'.log = v.log) :
    Grows flights events v v' :=
  ⟨⟨[flight], hout, by simpa using hflight⟩, ⟨[], by simp [hlog], by simp⟩⟩

theorem SenderFrame.grows_life (h : SenderFrame flow event v v') :
    Grows (fun flight => closeSeqs flow [flight] = [])
      (fun e => e.isCreated flow = false ∧ e.isReleased flow = false) v v' := by
  refine h.toGrows.mono (fun flight hflight => ?_) (fun e he => ?_)
  · cases hpacket : flight.packet <;>
      simp_all [Flight.CarriesData, Packet.CarriesData, closeSeqs]
  · cases e <;> simp_all [Event.OfSender, Event.isCreated, Event.isReleased]

theorem rel_forward_trans {o o' o'' : Option Stream} (h : Option.Rel Stream.Forward o o')
    (h' : Option.Rel Stream.Forward o' o'') : Option.Rel Stream.Forward o o'' := by
  cases h with
  | none => exact h'
  | some hfirst =>
      cases h' with
      | some hsecond => exact .some (hfirst.trans hsecond)

theorem forward_requeue (v : FlowState) (key : U32) (packet : PacketEntry) (time : Time) :
    Option.Rel Stream.Forward v.stream (v.requeue flow key packet time).stream := by
  unfold FlowState.requeue
  split
  · cases v.stream with
    | none => exact .none
    | some c => exact .some (.of_relisted (c.relisted_requeue key time))
  · exact rel_forward_of_eq rfl

theorem stream_popUnready (v : FlowState) (key : U32) :
    (v.popUnready flow key).stream = v.stream := by
  unfold FlowState.popUnready
  split
  · rfl
  · split <;> rfl

theorem forward_repost (hstream : v.stream = some c) (nodeAlloc : Bool)
    (packet entry : PacketEntry) :
    Option.Rel Stream.Forward v.stream (v.repost flow c nodeAlloc packet entry).stream := by
  unfold FlowState.repost
  split
  · exact rel_forward_of_eq rfl
  · rw [hstream]
    exact .some (.of_relisted (c.relisted_enter nodeAlloc entry))

theorem forward_postFull (hstream : v.stream = some c) :
    Option.Rel Stream.Forward v.stream (v.postFull flow c).stream := by
  unfold FlowState.postFull
  split
  · rw [hstream]
    exact .some (.of_eq rfl rfl)
  · exact rel_forward_of_eq rfl

theorem SenderMove.forward (hmove : SenderMove flow env v v') :
    Option.Rel Stream.Forward v.stream v'.stream := by
  cases hmove with
  | @write c data hstream hstate hfits hdata =>
      rw [hstream]
      exact .some (.write hstate env.alloc data.val)
  | @post c packet hstream hfirst =>
      refine rel_forward_trans ?_ (forward_postFull rfl)
      rw [hstream]
      exact .some (.posted v.cfg env.alloc.node c packet)
  | keepalive hstream => exact rel_forward_of_eq rfl
  | fecPost hstream hindex =>
      rw [hstream]
      exact .some (.of_eq rfl rfl)
  | @ready c c' packets dangling time hstream hready =>
      have hrelisted := Stream.relisted_readyLoop time c.waitingQueue c
      rw [hready] at hrelisted
      rw [hstream]
      exact .some (.of_relisted hrelisted)
  | @retransmit c packet key time entry hstream hready hpacket hwindow hfits hentry =>
      rw [stream_popUnready]
      exact rel_forward_trans (forward_repost hstream env.alloc.node packet entry)
        (forward_requeue _ key packet time)
  | @giveUp c packet key time hstream hready hpacket =>
      rw [stream_popUnready]
      exact forward_requeue v key packet time
  | hold key hstream hready hpacket => exact rel_forward_of_eq (stream_popUnready v key)
  | lost key hready hpacket => exact rel_forward_of_eq rfl

theorem AckMove.forward (hmove : AckMove flow env event v v') :
    Option.Rel Stream.Forward v.stream v'.stream := by
  cases hmove with
  | @range c ack range hstream hevent hrange =>
      rw [hstream]
      exact .some (.of_relisted (c.relisted_releaseRange range.1 range.2))
  | @window c moved ack hstream hevent hwindow hmoved =>
      have hmoved' : c.Forward moved := by
        obtain ⟨sendBuf, acked, rfl⟩ := Stream.moveSwin_eq hmoved
        exact .of_eq rfl rfl
      rw [hstream]
      exact .some (hmoved'.trans (.of_relisted (moved.relisted_checkpoint ack.winStart)))
  | failed hstream hevent hwindow hmoved => exact rel_forward_of_eq rfl

theorem ReceiverFrame.life (h : ReceiverFrame flow v v') : LifeStep flow v v' := by
  refine .goes ?_ (h.toGrows.mono (fun flight hflight => ?_) (fun e he => ?_))
  · have hstream := h.stream
    revert hstream
    generalize v.stream = o
    generalize v'.stream = o'
    intro hstream
    cases hstream with
    | none => exact .none
    | some hsame => exact .some (.of_eq hsame.state.state_eq hsame.send.writeSeq_eq)
  · cases hpacket : flight.packet <;> simp_all [Packet.IsAck, closeSeqs]
  · cases e <;> simp_all [Event.OfReceiver, Event.isCreated, Event.isReleased]

theorem ControlMove.life (hmove : ControlMove flow env event v v') : LifeStep flow v v' := by
  cases hmove with
  | @establish c hstream => exact .of_stream hstream rfl (.establish c) (.of_eq rfl rfl)
  | create tunnelId hstream hopens => exact .begins hstream rfl rfl rfl
  | release hstream hreleases => exact .ends hstream rfl rfl rfl
  | @close c hstream hcloses hstate =>
      refine .announces hstream rfl ⟨?_, fun _ => rfl, fun _ => rfl⟩ rfl rfl rfl
      exact hstate.trans (Nat.le_succ 1)
  | @confirm c lastSeq hstream hevent hfin hclosed hend =>
      exact .of_stream hstream rfl (.closeWait hfin hclosed lastSeq) (.of_sent rfl rfl rfl)
  | @closeWait c lastSeq hstream hevent hfin hclosed hend =>
      exact .of_stream hstream rfl (.closeWait hfin hclosed lastSeq) (.of_eq rfl rfl)
  | reset hstream hevent hfin =>
      exact .of_stream hstream rfl (.reset hfin) (.of_eq rfl rfl)
  | @closeReq c hstream hstate => exact .announces hstream hstream (.refl c) hstate rfl rfl
  | closeRsp hanswers => exact .goes (rel_forward_of_eq rfl) (.of_sent rfl rfl rfl)
  | connectReq tunnelId => exact .goes (rel_forward_of_eq rfl) (.of_sent rfl rfl rfl)
  | connectRsp status => exact .goes (rel_forward_of_eq rfl) (.of_sent rfl rfl rfl)
  | connectRst => exact .goes (rel_forward_of_eq rfl) (.of_sent rfl rfl rfl)

theorem SessionMove.life (hmove : SessionMove env event v v') : LifeStep flow v v' := by
  cases hmove with
  | pingReq => exact .goes (rel_forward_of_eq rfl) (.of_sent rfl rfl rfl)
  | pingRsp hevent htoken => exact .goes (rel_forward_of_eq rfl) (.of_sent rfl rfl rfl)
  | accept hevent hid htime hnode htoken =>
      exact .goes (rel_forward_of_eq rfl)
        ⟨⟨[], by simp [FlowState.note], by simp⟩,
          ⟨[.pingAccepted _], rfl, by simp [Event.isCreated, Event.isReleased]⟩⟩
  | offline => exact .goes (rel_forward_of_eq rfl) (.of_eq rfl rfl)
  | finalise hevent => exact .goes (rel_forward_of_eq rfl) (.of_eq rfl rfl)

theorem Move.life (hmove : Move flow env event start v v') : LifeStep flow v v' := by
  cases hmove with
  | sender hmove =>
      have hframe : SenderFrame flow event v v' := hmove.frame
      exact .goes hmove.forward hframe.grows_life
  | ack hmove => exact .goes hmove.forward hmove.frame.grows_life
  | receiver hmove => exact hmove.frame.life
  | control hmove => exact hmove.life
  | session hmove => exact hmove.life
  | foreignSend flight hflow hping =>
      refine .goes (rel_forward_of_eq rfl) (grows_send v ?_)
      cases hpacket : flight.packet <;> simp_all [closeSeqs, Packet.flow?, Packet.flow]
  | foreignNote note hflow hping =>
      refine .goes (rel_forward_of_eq rfl) (grows_note v ?_)
      cases note <;> simp_all [Event.flow?, Event.isCreated, Event.isReleased]

end Moves

/-! ### Runs -/

/-- The connection `c₀` has gone forward, until now or until its release. -/
def Onward (flow : U32) (c₀ : Stream) (new : List Event) (stream : Option Stream) : Prop :=
  ((∀ e ∈ new, e.isReleased flow = false) ∧ ∃ c, stream = some c ∧ c₀.Forward c) ∨
    ∃ before cause c after, new = before ++ .released flow cause c :: after ∧
      (∀ e ∈ before, e.isReleased flow = false) ∧ c₀.Forward c

/-- The `CLOSE_REQ` messages `sent` by at most one of the `lives` connections: none before there is
one, and all with one length. -/
structure OneEnd (lives : Nat) (sent : List U32) (stream : Option Stream) : Prop where
  none : lives = 0 → sent = [] ∧ stream = none
  live : lives ≤ 1 → ∀ c, stream = some c →
    ∀ seq ∈ sent, seq = c.writeSeq ∧ ConnState.finWait.code ≤ c.state.code
  gone : lives ≤ 1 → ∃ lastSeq, ∀ seq ∈ sent, seq = lastSeq

def OnwardSince (flow : U32) (c₀ : Stream) (base : List Event) (v : FlowState) : Prop :=
  ∃ new, v.log = base ++ new ∧ Onward flow c₀ new v.stream

/-- `OneEnd` for what has happened since `base` and `sent`; `alive` connections were there before. -/
def OneEndSince (flow : U32) (alive : Nat) (base : List Event) (sent : List Flight)
    (v : FlowState) : Prop :=
  ∃ new out, v.log = base ++ new ∧ v.out = sent ++ out ∧
    OneEnd (new.countP (Event.isCreated flow) + alive) (closeSeqs flow out) v.stream

section Runs

variable {flow : U32} {v v' : FlowState} {c₀ : Stream} {new : List Event}

theorem closeSeqs_append (flow : U32) (out new : List Flight) :
    closeSeqs flow (out ++ new) = closeSeqs flow out ++ closeSeqs flow new :=
  List.filterMap_append

theorem closeSeqs_eq_nil {out : List Flight} (hout : ∀ f ∈ out, closeSeqs flow [f] = []) :
    closeSeqs flow out = [] := by
  induction out with
  | nil => rfl
  | cons f out ih =>
      have hsplit := closeSeqs_append flow [f] out
      rw [List.singleton_append, hout f (by simp), ih fun g hg => hout g (by simp [hg])] at hsplit
      exact hsplit

theorem Onward.append (h : Onward flow c₀ new v.stream) {es : List Event} {o : Option Stream}
    (hreleased : ∀ e ∈ es, e.isReleased flow = false)
    (hstream : ∀ c, v.stream = some c → ∃ c', o = some c' ∧ c.Forward c') :
    Onward flow c₀ (new ++ es) o := by
  rcases h with ⟨hnew, c, hc, hforward⟩ | ⟨before, cause, c, after, rfl, hbefore, hforward⟩
  · obtain ⟨c', ho, hforward'⟩ := hstream c hc
    exact .inl ⟨List.forall_mem_append.mpr ⟨hnew, hreleased⟩, c', ho, hforward.trans hforward'⟩
  · exact .inr ⟨before, cause, c, after ++ es, by simp, hbefore, hforward⟩

theorem LifeStep.onward (hlife : LifeStep flow v v') {base : List Event}
    (h : OnwardSince flow c₀ base v) : OnwardSince flow c₀ base v' := by
  obtain ⟨new, hlog, honward⟩ := h
  cases hlife with
  | goes hstream hgrows =>
      obtain ⟨-, es, hes, hevents⟩ := hgrows
      refine ⟨new ++ es, by rw [hes, hlog, List.append_assoc], honward.append
        (fun e he => (hevents e he).2) fun c hc => ?_⟩
      rw [hc] at hstream
      revert hstream
      generalize v'.stream = o
      intro hstream
      cases hstream with
      | some hforward => exact ⟨_, rfl, hforward⟩
  | @announces c c' hstream hstream' hforward hfin hlog' hout =>
      refine ⟨new ++ [], by rw [hlog', hlog, List.append_nil], honward.append (by simp) ?_⟩
      intro d hd
      rw [hstream] at hd
      cases hd
      exact ⟨c', hstream', hforward⟩
  | begins hstream hstream' hlog' hout =>
      refine ⟨new ++ [.created flow], by rw [hlog', hlog, List.append_assoc],
        honward.append (by simp [Event.isReleased]) ?_⟩
      intro d hd
      rw [hstream] at hd
      cases hd
  | @ends c cause hstream hstream' hlog' hout =>
      refine ⟨new ++ [.released flow cause c], by rw [hlog', hlog, List.append_assoc], ?_⟩
      rcases honward with ⟨hnew, d, hd, hforward⟩ | ⟨before, cause', d, after, rfl, hbefore, hforward⟩
      · rw [hstream] at hd
        cases hd
        exact .inr ⟨new, cause, c, [], rfl, hnew, hforward⟩
      · exact .inr ⟨before, cause', d, after ++ [.released flow cause c], by simp, hbefore, hforward⟩

theorem LifeStep.oneEnd (hlife : LifeStep flow v v') {alive : Nat} {base : List Event}
    {sent : List Flight} (h : OneEndSince flow alive base sent v) :
    OneEndSince flow alive base sent v' := by
  obtain ⟨new, out, hlog, hsent, hend⟩ := h
  cases hlife with
  | goes hstream hgrows =>
      obtain ⟨⟨fs, hfs, hflights⟩, es, hes, hevents⟩ := hgrows
      refine ⟨new ++ es, out ++ fs, by rw [hes, hlog, List.append_assoc],
        by rw [hfs, hsent, List.append_assoc], ?_⟩
      have hcount : es.countP (Event.isCreated flow) = 0 :=
        List.countP_eq_zero.mpr fun e he => by simp [(hevents e he).1]
      rw [List.countP_append, hcount, Nat.add_zero, closeSeqs_append, closeSeqs_eq_nil hflights,
        List.append_nil]
      revert hend hstream
      generalize v.stream = o
      generalize v'.stream = o'
      intro hend hstream
      cases hstream with
      | none => exact hend
      | @some c c' hforward =>
          refine ⟨fun hzero => absurd (hend.none hzero).2 (by simp), fun hone d hd seq hseq => ?_,
            hend.gone⟩
          obtain ⟨hwrite, hstate⟩ := hend.live hone c rfl seq hseq
          cases hd
          exact ⟨hwrite.trans (hforward.writeSeq_eq hstate).symm, hstate.trans hforward.state_le⟩
  | @announces c c' hstream hstream' hforward hfin hlog' hout =>
      refine ⟨new, out ++ [{ packet := .closeReq flow c'.writeSeq }], by rw [hlog', hlog],
        by rw [hout, hsent, List.append_assoc], ?_⟩
      have hseqs : closeSeqs flow [{ packet := .closeReq flow c'.writeSeq }] = [c'.writeSeq] := by
        simp [closeSeqs]
      have hall : ∀ lives ≤ 1, OneEnd lives (closeSeqs flow out) v.stream →
          ∀ seq ∈ closeSeqs flow out ++ [c'.writeSeq], seq = c'.writeSeq := by
        intro lives hone hend seq hseq
        rcases List.mem_append.mp hseq with hseq | hseq
        · obtain ⟨hwrite, hstate⟩ := hend.live hone c hstream seq hseq
          exact hwrite.trans (hforward.writeSeq_eq hstate).symm
        · exact List.mem_singleton.mp hseq
      rw [closeSeqs_append, hseqs, hstream']
      refine ⟨fun hzero => absurd (hend.none hzero).2 (by simp [hstream]),
        fun hone d hd seq hseq => ?_, fun hone => ⟨c'.writeSeq, hall _ hone hend⟩⟩
      cases hd
      exact ⟨hall _ hone hend seq hseq, by rw [hfin]⟩
  | @begins c' hstream hstream' hlog' hout =>
      refine ⟨new ++ [.created flow], out, by rw [hlog', hlog, List.append_assoc],
        by rw [hout, hsent], ?_⟩
      have hcount : (new ++ [Event.created flow]).countP (Event.isCreated flow) + alive =
          new.countP (Event.isCreated flow) + alive + 1 := by
        rw [List.countP_append]
        simp [Event.isCreated]
        omega
      rw [hcount]
      -- It is the first connection, or one too many.
      refine ⟨fun hzero => absurd hzero (by omega), fun hone d hd seq hseq => ?_, fun hone => ?_⟩
      · rw [(hend.none (by omega)).1] at hseq
        cases hseq
      · exact ⟨0, by rw [(hend.none (by omega)).1]; simp⟩
  | @ends c cause hstream hstream' hlog' hout =>
      refine ⟨new ++ [.released flow cause c], out, by rw [hlog', hlog, List.append_assoc],
        by rw [hout, hsent], ?_⟩
      have hcount : (new ++ [Event.released flow cause c]).countP (Event.isCreated flow) =
          new.countP (Event.isCreated flow) := by
        rw [List.countP_append]
        simp [Event.isCreated]
      rw [hcount, hstream']
      exact ⟨fun hzero => ⟨(hend.none hzero).1, rfl⟩, fun _ d hd => absurd hd (by simp),
        hend.gone⟩

end Runs

namespace Host

def logSince (h : Host) (events : List (Env × HostEvent)) : List Event :=
  (h.run events).log.drop h.log.length

def outSince (h : Host) (events : List (Env × HostEvent)) : List Flight :=
  (h.run events).out.drop h.out.length

def lives (h : Host) (flow : U32) (events : List (Env × HostEvent)) : Nat :=
  (h.logSince events).countP (Event.isCreated flow) +
    if (h.findConnection flow).isSome then 1 else 0

/-- The connections of a flow go forward until they are released, and all `CLOSE_REQ` messages of one
connection have the same last sequence number. -/
theorem connection_forward (h : Host) (flow : U32) (events : List (Env × HostEvent)) :
    (∀ conn, h.findConnection flow = some conn →
      Onward flow conn.toStream (h.logSince events)
        (((h.run events).findConnection flow).map Conn.toStream)) ∧
    (h.lives flow events ≤ 1 →
      ∃ lastSeq, ∀ seq ∈ closeSeqs flow (h.outSince events), seq = lastSeq) := by
  constructor
  · intro conn hfind
    have hstart : OnwardSince flow conn.toStream h.log (h.view flow) :=
      ⟨[], by simp [view], .inl ⟨by simp, conn.toStream, view_stream_of_find hfind, .refl _⟩⟩
    obtain ⟨new, hlog, honward⟩ : OnwardSince flow conn.toStream h.log ((h.run events).view flow) :=
      run_preserves (fun _ _ hv => hv) (fun _ _ _ _ _ hmove hv => hmove.life.onward hv) hstart
    have hnew : h.logSince events = new := by
      rw [logSince, show (h.run events).log = h.log ++ new from hlog, List.drop_left]
    rw [hnew]
    exact honward
  · intro hlives
    set alive := if (h.findConnection flow).isSome then 1 else 0 with halive
    have hstart : OneEndSince flow alive h.log h.out (h.view flow) := by
      refine ⟨[], [], by simp [view], by simp [view], fun hzero => ⟨rfl, ?_⟩,
        fun _ _ _ seq hseq => ?_, fun _ => ⟨0, by simp [closeSeqs]⟩⟩
      · rw [view_stream_eq_none]
        by_contra hsome
        rw [halive, if_pos (Option.isSome_iff_ne_none.mpr hsome)] at hzero
        simp at hzero
      · simp [closeSeqs] at hseq
    obtain ⟨new, out, hlog, hout, hend⟩ :
        OneEndSince flow alive h.log h.out ((h.run events).view flow) :=
      run_preserves (fun _ _ hv => hv) (fun _ _ _ _ _ hmove hv => hmove.life.oneEnd hv) hstart
    have hnew : h.logSince events = new := by
      rw [logSince, show (h.run events).log = h.log ++ new from hlog, List.drop_left]
    have hsent : h.outSince events = out := by
      rw [outSince, show (h.run events).out = h.out ++ out from hout, List.drop_left]
    rw [lives, hnew, ← halive] at hlives
    rw [hsent]
    exact hend.gone hlives

/-- A host with flow 7 whose peer has answered a ping. -/
def answered : Host :=
  (litedtInit (.globalConfigInit Config.plainToken) 1 0).run
    [(.plain 0, .io (.connectReq 7 0)), (.plain 0, .time 0), (.plain 0, .io (.pingRsp .plain))]

def closing : List (Env × HostEvent) :=
  [(.plain 0, .call (.send 7 .three)), (.plain 1000000, .call (.close 7)), (.plain 1500000, .time 5),
    (.plain 2500000, .time 5)]

/-- The flow is closed behind three bytes, and asks for it three times. -/
theorem connection_forward_closing :
    closeSeqs 7 (answered.outSince closing) = [3, 3, 3] ∧
      (∃ conn, answered.findConnection 7 = some conn ∧
        Onward 7 conn.toStream (answered.logSince closing)
          (((answered.run closing).findConnection 7).map Conn.toStream)) ∧
      ∃ lastSeq, ∀ seq ∈ closeSeqs 7 (answered.outSince closing), seq = lastSeq := by
  have hopen : (answered.findConnection 7).isSome := by decide +kernel
  obtain ⟨conn, hfind⟩ := Option.isSome_iff_exists.mp hopen
  obtain ⟨honward, hend⟩ := connection_forward answered 7 closing
  exact ⟨by decide +kernel, ⟨conn, hfind, honward conn hfind⟩, hend (by decide +kernel)⟩

end Host

end Liteflow

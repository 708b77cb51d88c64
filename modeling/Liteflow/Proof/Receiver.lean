import Liteflow.Proof.Frames

/-!
# The receiving half of a connection

What a host does with the receiving half of a connection is to store packets, to release what the
application has read and to acknowledge; every other move leaves it alone. A property of streams
that these three keep, and that a new connection has, holds of every connection a host has or has
had, after every run.
-/

namespace Liteflow

structure SameRecord (c c' : Stream) : Prop extends RecvFrame c c' where
  sackMap_eq : c'.sackMap = c.sackMap

inductive ReceiverStep (alloc : Alloc) (ackSize : U32) (c : Stream) : Stream → Prop where
  | same {c' : Stream} (hsame : SameRecord c c') : ReceiverStep alloc ackSize c c'
  | store (post : DataPost) (hsized : post.Sized) (hlen : post.len ≠ 0) :
      ReceiverStep alloc ackSize c (c.storeData alloc post).2
  | read {c' : Stream} (size : U32) (hsize : size ≠ 0)
      (hreleased : c.releaseRecv alloc.node size = some c') : ReceiverStep alloc ackSize c c'
  | ack (acks : List (U32 × U32)) (sackMap : Treemap U32 SackInfo)
      (hacks : (acks, sackMap) = c.takeAcks ackSize ∨ (acks, sackMap) = ([], c.sackMap)) :
      ReceiverStep alloc ackSize c (c.acknowledged acks sackMap)

def ReceiverSteps (alloc : Alloc) (ackSize : U32) : Stream → Stream → Prop :=
  Relation.ReflTransGen (ReceiverStep alloc ackSize)

/-- A connection that the host has, or had when it released it. -/
def FlowState.Incarnation (v : FlowState) (flow : U32) (c : Stream) : Prop :=
  v.stream = some c ∨ ∃ cause, Event.released flow cause c ∈ v.log

def Host.Incarnation (h : Host) (flow : U32) (c : Stream) : Prop :=
  (∃ conn, h.findConnection flow = some conn ∧ conn.toStream = c) ∨
    ∃ cause, Event.released flow cause c ∈ h.log

theorem Host.incarnation_iff_view {h : Host} {flow : U32} {c : Stream} :
    h.Incarnation flow c ↔ (h.view flow).Incarnation flow c := by
  simp only [Host.Incarnation, FlowState.Incarnation, Host.view, Option.map_eq_some_iff]

def Event.ReleasedHas (flow : U32) (P : Stream → Prop) : Event → Prop
  | released g _ c => g = flow → P c
  | _ => True

instance Event.decidableReleasedHas (flow : U32) (P : Stream → Prop) [DecidablePred P] :
    DecidablePred (Event.ReleasedHas flow P)
  | .released g _ c => inferInstanceAs (Decidable (g = flow → P c))
  | .wrote .. | .read .. | .created .. | .bufferRead .. | .fecRecovered .. | .fecIndices ..
  | .assertFailed .. | .dangling .. | .pingAccepted .. => isTrue trivial

theorem Host.forall_incarnation {h : Host} {flow : U32} {P : Stream → Prop} :
    (∀ c, h.Incarnation flow c → P c) ↔ (∀ conn ∈ h.findConnection flow, P conn.toStream) ∧
      ∀ event ∈ h.log, event.ReleasedHas flow P := by
  constructor
  · intro hall
    refine ⟨fun conn hconn => hall _ (Or.inl ⟨conn, hconn, rfl⟩), fun event hevent => ?_⟩
    cases event with
    | released g cause c =>
        rintro rfl
        exact hall c (Or.inr ⟨cause, hevent⟩)
    | _ => trivial
  · rintro ⟨hlive, hlog⟩ c (⟨conn, hconn, rfl⟩ | ⟨cause, hevent⟩)
    · exact hlive conn hconn
    · exact hlog _ hevent rfl

instance Host.decidableForallIncarnation (h : Host) (flow : U32) (P : Stream → Prop)
    [DecidablePred P] : Decidable (∀ c, h.Incarnation flow c → P c) :=
  decidable_of_iff' _ Host.forall_incarnation

/-! ### Steps -/

section Steps

variable {alloc : Alloc} {ackSize : U32} {c c' : Stream}

theorem recvFrame_pushSackMap (nodeAlloc : Bool) (c : Stream) (seq : U32) :
    RecvFrame c (c.pushSackMap nodeAlloc seq) := by
  unfold Stream.pushSackMap
  split
  · constructor <;> rfl
  · dsimp only
    split <;> constructor <;> rfl

theorem acks_storeData (post : DataPost) : (c.storeData alloc post).2.acks = c.acks :=
  (Stream.receiveFrame_storeData alloc c post).acks_eq

theorem ReceiverStep.acks_subset (hstep : ReceiverStep alloc ackSize c c') :
    c.acks ⊆ c'.acks := by
  cases hstep with
  | same hsame => rw [hsame.acks_eq]; exact fun _ h => h
  | store post hsized hlen => rw [acks_storeData]; exact fun _ h => h
  | read size hsize hreleased =>
      obtain ⟨-, recvBuf, rwinStart, rwinSize, rfl⟩ := Stream.releaseRecv_eq hreleased
      exact fun _ h => h
  | ack acks sackMap hacks => exact List.subset_append_left _ _

theorem ReceiverSteps.acks_subset (hsteps : ReceiverSteps alloc ackSize c c') :
    c.acks ⊆ c'.acks := by
  unfold ReceiverSteps at hsteps
  induction hsteps with
  | refl => exact fun _ h => h
  | tail _ hlast ih => exact List.Subset.trans ih hlast.acks_subset

theorem ReceiverSteps.preserves {P : Stream → Prop}
    (hstep : ∀ {c c' : Stream}, ReceiverStep alloc ackSize c c' → P c → P c')
    (hsteps : ReceiverSteps alloc ackSize c c') (hc : P c) : P c' := by
  unfold ReceiverSteps at hsteps
  induction hsteps with
  | refl => exact hc
  | tail _ hlast ih => exact hstep hlast ih

theorem receiverSteps_same (hsame : SameRecord c c') : ReceiverSteps alloc ackSize c c' :=
  .single (.same hsame)

end Steps

/-! ### What is stored -/

theorem Host.sized_of_checkLength {sent data : DataPost} (hcheck : Host.checkLength sent = some data) :
    data.Sized := by
  unfold Host.checkLength at hcheck
  split at hcheck
  · cases hcheck
  · rename_i hlen
    obtain rfl := Option.some.inj hcheck
    simp only [DataPost.Sized, List.length_take]
    omega

theorem Brings.sized {flow : U32} {event : HostEvent} {data : DataPost}
    (hevent : Brings flow event data) : data.Sized := by
  obtain ⟨sent, hcheck, -⟩ := hevent
  exact Host.sized_of_checkLength hcheck

namespace FecMod

theorem sized_of_recover {fm : FecMod} {fseq : U32} {group : FecGroup} {used : List U8}
    {post : DataPost} (hrecovered : (fm.recover fseq group used).recovered = some post) :
    post.Sized := by
  unfold recover at hrecovered
  dsimp only at hrecovered
  split at hrecovered
  · split at hrecovered
    · cases hrecovered
    · split at hrecovered
      · cases hrecovered
      · obtain rfl := Option.some.inj hrecovered
        simp [DataPost.Sized, DataPost.ofBytes]
  · cases hrecovered

theorem sized_of_fecInsert {nodeAlloc : Bool} {fm : FecMod} {fseq : U32} {fidx fmems : U8}
    {buf : List Byte} {fin : U32} {post : DataPost}
    (hrecovered : (fm.fecInsert nodeAlloc fseq fidx fmems buf fin).recovered = some post) : post.Sized := by
  rcases fecInsert_cases _ fm fseq fidx fmems buf fin with heq | ⟨used, heq⟩ | ⟨group, used, heq, -⟩
  · rw [heq] at hrecovered
    cases hrecovered
  · rw [heq] at hrecovered
    cases hrecovered
  · rw [heq] at hrecovered
    exact sized_of_recover hrecovered

end FecMod

theorem Insertion.sized {flow : U32} {event : HostEvent} {fec : FecMod}
    {inserted : FecMod.Inserted} (hinserted : Insertion flow event fec inserted) {post : DataPost}
    (hrecovered : inserted.recovered = some post) : post.Sized := by
  cases hinserted with
  | data hevent => exact FecMod.sized_of_fecInsert hrecovered
  | sum hevent => exact FecMod.sized_of_fecInsert hrecovered

/-! ### Moves -/

def Flight.Silent (flow : U32) (flight : Flight) : Prop :=
  ∀ ack, flight.packet ≠ .dataAck flow ack

def Event.Unreleased (flow : U32) (event : Event) : Prop :=
  ∀ cause c, event ≠ .released flow cause c

structure Lived (flow : U32) (env : Env) (v v' : FlowState) : Prop where
  cfg_eq : v'.cfg = v.cfg
  stream : ∀ c', v'.stream = some c' →
    (∃ c, v.stream = some c ∧ ReceiverSteps env.alloc v.cfg.ackSize c c') ∨
      ∃ tunnelId state, c' = (Host.newConn v.cfg env.now tunnelId state).toStream
  kept : ∀ c, v.stream = some c →
    (∃ c', v'.stream = some c' ∧ ReceiverSteps env.alloc v.cfg.ackSize c c') ∨
      ∃ cause, Event.released flow cause c ∈ v'.log
  log_subset : v.log ⊆ v'.log
  released : ∀ cause c, Event.released flow cause c ∈ v'.log →
    Event.released flow cause c ∈ v.log ∨ v.stream = some c
  sent : ∀ flight ∈ v'.out, ∀ ack, flight.packet = .dataAck flow ack → flight ∈ v.out ∨
    ∃ c', v'.stream = some c' ∧ ∃ sent ∈ c'.acks, sent.pos = flight.pos ∧ sent.ack = ack

section Moves

variable {flow : U32} {env : Env} {event : HostEvent} {start v v' : FlowState} {c c' : Stream}

theorem Grows.released (hgrows : Grows (Flight.Silent flow) (Event.Unreleased flow) v v')
    {cause : ReleaseCause} (hmem : Event.released flow cause c ∈ v'.log) :
    Event.released flow cause c ∈ v.log := by
  obtain ⟨-, es, hlog, hes⟩ := hgrows
  rw [hlog] at hmem
  rcases List.mem_append.mp hmem with hmem | hmem
  · exact hmem
  · exact absurd rfl (hes _ hmem cause c)

theorem Grows.sent (hgrows : Grows (Flight.Silent flow) (Event.Unreleased flow) v v')
    {flight : Flight} (hmem : flight ∈ v'.out) {ack : DataAck}
    (hack : flight.packet = .dataAck flow ack) : flight ∈ v.out := by
  obtain ⟨⟨fs, hout, hfs⟩, -⟩ := hgrows
  rw [hout] at hmem
  rcases List.mem_append.mp hmem with hmem | hmem
  · exact hmem
  · exact absurd hack (hfs _ hmem ack)

theorem Grows.log_subset {flights : Flight → Prop} {events : Event → Prop}
    (hgrows : Grows flights events v v') : v.log ⊆ v'.log := by
  obtain ⟨-, es, hlog, -⟩ := hgrows
  rw [hlog]
  exact List.subset_append_left _ _

theorem grows_withStream {flights : Flight → Prop} {events : Event → Prop} (v : FlowState)
    (c : Stream) : Grows flights events v (v.withStream c) :=
  .of_eq rfl rfl

theorem Lived.of_stream (hgrows : Grows (Flight.Silent flow) (Event.Unreleased flow) v v')
    (hcfg : v'.cfg = v.cfg) (hstream : v.stream = some c) (hstream' : v'.stream = some c')
    (hsteps : ReceiverSteps env.alloc v.cfg.ackSize c c') : Lived flow env v v' where
  cfg_eq := hcfg
  stream := fun d' hd' => by
    obtain rfl := Option.some.inj (hstream'.symm.trans hd')
    exact Or.inl ⟨c, hstream, hsteps⟩
  kept := fun d hd => by
    obtain rfl := Option.some.inj (hstream.symm.trans hd)
    exact Or.inl ⟨c', hstream', hsteps⟩
  log_subset := hgrows.log_subset
  released := fun _ _ hd => Or.inl (hgrows.released hd)
  sent := fun _ hflight _ hack => Or.inl (hgrows.sent hflight hack)

theorem Lived.of_eq (hgrows : Grows (Flight.Silent flow) (Event.Unreleased flow) v v')
    (hcfg : v'.cfg = v.cfg) (hstream : v'.stream = v.stream) : Lived flow env v v' where
  cfg_eq := hcfg
  stream := fun c' hc' => Or.inl ⟨c', hstream.symm.trans hc', .refl⟩
  kept := fun c hc => Or.inl ⟨c, hstream.trans hc, .refl⟩
  log_subset := hgrows.log_subset
  released := fun _ _ hc => Or.inl (hgrows.released hc)
  sent := fun _ hflight _ hack => Or.inl (hgrows.sent hflight hack)

theorem lived_send {flight : Flight} (hflight : flight.Silent flow) : Lived flow env v (v.send flight) :=
  .of_eq (grows_send v hflight) rfl rfl

theorem lived_note {note : Event} (hnote : note.Unreleased flow) : Lived flow env v (v.note note) :=
  .of_eq (grows_note v hnote) rfl rfl

theorem lived_withStream (hstream : v.stream = some c) (hsame : SameRecord c c') :
    Lived flow env v (v.withStream c') :=
  .of_stream (.of_eq rfl rfl) rfl hstream rfl (receiverSteps_same hsame)

theorem SenderFrame.lived (hframe : SenderFrame flow event v v') : Lived flow env v v' := by
  have hgrows : Grows (Flight.Silent flow) (Event.Unreleased flow) v v' := by
    refine hframe.toGrows.mono (fun flight hflight ack hack => ?_) (fun e he cause c hc => ?_)
    · rw [Flight.CarriesData, hack] at hflight
      exact hflight
    · rw [hc] at he
      exact he
  cases hstream : v.stream with
  | none =>
      refine .of_eq hgrows hframe.cfg_eq ?_
      have hrel := hframe.stream
      rw [hstream] at hrel
      cases hstream' : v'.stream with
      | none => exact hstream.symm
      | some c' =>
          rw [hstream'] at hrel
          cases hrel
  | some c =>
      have hrel := hframe.stream
      rw [hstream] at hrel
      cases hstream' : v'.stream with
      | none =>
          rw [hstream'] at hrel
          cases hrel
      | some c' =>
          rw [hstream'] at hrel
          cases hrel with
          | some hsame =>
              exact .of_stream hgrows hframe.cfg_eq hstream hstream'
                (receiverSteps_same ⟨hsame.recv, hsame.sackMap_eq⟩)

theorem receiverSteps_insertFec {inserted : FecMod.Inserted}
    (hinserted : Insertion flow event c.fec inserted) (alloc : Alloc) (ackSize : U32) :
    ReceiverSteps alloc ackSize c (c.insertFec alloc inserted) := by
  have hestablish : SameRecord c (c.setFec inserted.fec).establish := by
    unfold Stream.establish
    split <;> exact ⟨by constructor <;> rfl, rfl⟩
  unfold Stream.insertFec
  split
  · exact receiverSteps_same ⟨by constructor <;> rfl, rfl⟩
  · rename_i post hrecovered
    split
    · exact receiverSteps_same hestablish
    · rename_i hlen
      exact .tail (receiverSteps_same hestablish) (.store post (hinserted.sized hrecovered) hlen)

theorem lived_receiverMove (hmove : ReceiverMove flow env event start v v') :
    Lived flow env v v' := by
  cases hmove with
  | @store c data hstream hevent hlen huntouched =>
      exact .of_stream (.of_eq rfl rfl) rfl hstream rfl (.single (.store data hevent.sized hlen))
  | @insert c inserted hstream hinserted huntouched hstate hdecode =>
      refine .of_stream ⟨⟨[], by simp [FlowState.withStream], by simp⟩, ?_⟩ rfl hstream rfl
        (receiverSteps_insertFec hinserted env.alloc v.cfg.ackSize)
      refine ⟨_, List.append_assoc _ _ _, fun e he cause d hd => ?_⟩
      rw [hd] at he
      cases hrecovered : inserted.recovered <;> simp [hrecovered] at he
  | @checkpoint c hstream => exact lived_withStream hstream ⟨by constructor <;> rfl, rfl⟩
  | @read c c' size hstream hsize hreleased =>
      have hnote : (Event.read flow (c.front size.toNat)).Unreleased flow := by
        simp [Event.Unreleased]
      exact .of_stream ((grows_withStream v c').trans (grows_note _ hnote)) rfl hstream rfl
        (.single (.read size hsize hreleased))
  | failed hstream hreleased => exact lived_note (by simp [Event.Unreleased])
  | @ack c acks sackMap hstream hacks =>
      have hstep : ReceiverStep env.alloc v.cfg.ackSize c (c.acknowledged acks sackMap) :=
        .ack acks sackMap hacks
      refine ⟨rfl, fun c' hc' => ?_, fun d hd => ?_, fun e he => he, fun cause d hd => Or.inl hd,
        fun flight hflight ack hack => ?_⟩
      · obtain rfl := Option.some.inj hc'
        exact Or.inl ⟨c, hstream, .single hstep⟩
      · obtain rfl := Option.some.inj (hstream.symm.trans hd)
        exact Or.inl ⟨_, rfl, .single hstep⟩
      · rcases List.mem_append.mp hflight with hflight | hflight
        · exact Or.inl hflight
        · obtain rfl := List.mem_singleton.mp hflight
          cases hack
          exact Or.inr ⟨_, rfl, _, List.mem_append_right _ (List.mem_singleton_self _), rfl, rfl⟩

theorem lived_controlMove (hmove : ControlMove flow env event v v') : Lived flow env v v' := by
  have hgrows : ∀ {v' : FlowState}, (∃ fs, v'.out = v.out ++ fs ∧ ∀ f ∈ fs, f.packet.IsControl) →
      v'.log = v.log → Grows (Flight.Silent flow) (Event.Unreleased flow) v v' := by
    rintro v' ⟨fs, hout, hfs⟩ hlog
    refine ⟨⟨fs, hout, fun f hf ack hack => ?_⟩, [], by simp [hlog], by simp⟩
    simpa [hack, Packet.IsControl] using hfs f hf
  cases hmove.shape with
  | @create state tunnelId hstream =>
      refine ⟨rfl, fun c' hc' => ?_, fun d hd => ?_, List.subset_append_left _ _,
        fun cause d hd => ?_, fun flight hflight ack hack => Or.inl hflight⟩
      · obtain rfl := Option.some.inj hc'
        exact Or.inr ⟨tunnelId, state, rfl⟩
      · rw [hstream] at hd
        cases hd
      · rcases List.mem_append.mp hd with hd | hd
        · exact Or.inl hd
        · cases List.mem_singleton.mp hd
  | @release c cause hstream hreleases =>
      refine ⟨rfl, fun c' hc' => ?_, fun d hd => ?_, List.subset_append_left _ _,
        fun cause' d hd => ?_, fun flight hflight ack hack => Or.inl hflight⟩
      · cases hc'
      · obtain rfl := Option.some.inj (hstream.symm.trans hd)
        exact Or.inr ⟨cause, List.mem_append_right _ (List.mem_singleton_self _)⟩
      · rcases List.mem_append.mp hd with hd | hd
        · exact Or.inl hd
        · cases List.mem_singleton.mp hd
          exact Or.inr hstream
  | turn state confirmed hstream hout =>
      exact .of_stream (hgrows hout rfl) rfl hstream rfl
        (receiverSteps_same ⟨by constructor <;> rfl, rfl⟩)
  | send hout => exact .of_eq (hgrows hout rfl) rfl rfl

theorem lived_sessionMove (hmove : SessionMove env event v v') : Lived flow env v v' := by
  cases hmove with
  | pingReq =>
      refine .of_eq ⟨⟨[_], rfl, ?_⟩, [], ?_, ?_⟩ rfl rfl
      · simp [Flight.Silent]
      · simp [FlowState.send]
      · simp
  | pingRsp hevent htoken => exact lived_send (by simp [Flight.Silent])
  | @accept rsp hevent hid htime hnode htoken =>
      have hnote : Grows (Flight.Silent flow) (Event.Unreleased flow) v
          (v.note (.pingAccepted rsp)) := grows_note v (by simp [Event.Unreleased])
      exact .of_eq ⟨hnote.out, hnote.log⟩ rfl rfl
  | offline => exact .of_eq (.of_eq rfl rfl) rfl rfl
  | finalise hevent => exact .of_eq (.of_eq rfl rfl) rfl rfl

theorem Move.lived (hmove : Move flow env event start v v') : Lived flow env v v' := by
  cases hmove with
  | sender hmove =>
      have hframe : SenderFrame flow event v v' := hmove.frame
      exact hframe.lived
  | ack hmove => exact hmove.frame.lived
  | receiver hmove => exact lived_receiverMove hmove
  | control hmove => exact lived_controlMove hmove
  | session hmove => exact lived_sessionMove hmove
  | foreignSend flight hflow hping =>
      refine lived_send fun ack hack => hflow ?_
      rw [hack]
      rfl
  | foreignNote note hflow hping =>
      refine lived_note fun cause c hc => hflow ?_
      rw [hc]
      rfl

end Moves

/-! ### Whole runs -/

structure Recorded (flow : U32) (cfg : Config) (P : Stream → Prop) (v : FlowState) : Prop where
  cfg_eq : v.cfg = cfg
  incarnation : ∀ c, v.Incarnation flow c → P c
  sent : ∀ flight ∈ v.out, ∀ ack, flight.packet = .dataAck flow ack →
    ∃ c, v.Incarnation flow c ∧ ∃ sent ∈ c.acks, sent.pos = flight.pos ∧ sent.ack = ack

section Runs

variable {flow : U32} {cfg : Config} {P : Stream → Prop}

theorem Recorded.of_lived {env : Env} {v v' : FlowState} (hrecorded : Recorded flow cfg P v)
    (hnew : ∀ now tunnelId state, P (Host.newConn cfg now tunnelId state).toStream)
    (hstep : ∀ {c c' : Stream}, ReceiverStep env.alloc cfg.ackSize c c' → P c → P c')
    (hlived : Lived flow env v v') : Recorded flow cfg P v' := by
  obtain rfl := hrecorded.cfg_eq
  refine ⟨hlived.cfg_eq, fun c hc => ?_, fun flight hflight ack hack => ?_⟩
  · rcases hc with hc | ⟨cause, hc⟩
    · rcases hlived.stream c hc with ⟨d, hd, hsteps⟩ | ⟨tunnelId, state, rfl⟩
      · exact hsteps.preserves hstep (hrecorded.incarnation d (Or.inl hd))
      · exact hnew env.now tunnelId state
    · rcases hlived.released cause c hc with hc | hc
      · exact hrecorded.incarnation c (Or.inr ⟨cause, hc⟩)
      · exact hrecorded.incarnation c (Or.inl hc)
  · rcases hlived.sent flight hflight ack hack with hflight | ⟨c', hc', sent, hsent, hpos⟩
    · obtain ⟨c, hc, sent, hsent, hpos⟩ := hrecorded.sent flight hflight ack hack
      rcases hc with hc | ⟨cause, hc⟩
      · rcases hlived.kept c hc with ⟨c', hc', hsteps⟩ | ⟨cause, hreleased⟩
        · exact ⟨c', Or.inl hc', sent, hsteps.acks_subset hsent, hpos⟩
        · exact ⟨c, Or.inr ⟨cause, hreleased⟩, sent, hsent, hpos⟩
      · exact ⟨c, Or.inr ⟨cause, hlived.log_subset hc⟩, sent, hsent, hpos⟩
    · exact ⟨c', Or.inl hc', sent, hsent, hpos⟩

theorem recorded_run {events : List (Env × HostEvent)} (nodeId : U16) (now : Time)
    (hnew : ∀ now tunnelId state, P (Host.newConn cfg now tunnelId state).toStream)
    (hstep : ∀ e ∈ events, ∀ {c c' : Stream}, ReceiverStep e.1.alloc cfg.ackSize c c' → P c → P c') :
    Recorded flow cfg P (((Host.litedtInit cfg nodeId now).run events).view flow) := by
  refine Host.run_preserves (fun _ _ hrecorded => ⟨hrecorded.cfg_eq, hrecorded.incarnation,
    hrecorded.sent⟩) (fun e he _ _ _ hmove hrecorded => hrecorded.of_lived hnew (hstep e he)
    hmove.lived) ⟨rfl, ?_, ?_⟩
  · rintro c (hc | ⟨cause, hc⟩)
    · cases hc
    · exact absurd hc (by simp [Host.view, Host.litedtInit])
  · intro flight hflight
    exact absurd hflight (by simp [Host.view, Host.litedtInit])

end Runs

theorem Host.cfg_run (h : Host) (events : List (Env × HostEvent)) : (h.run events).cfg = h.cfg := by
  have hview : ((h.run events).view 0).cfg = h.cfg :=
    run_preserves (P := fun v => v.cfg = h.cfg) (fun _ _ hcfg => hcfg)
      (fun _ _ _ _ _ hmove hcfg => hmove.lived.cfg_eq.trans hcfg) rfl
  exact hview

end Liteflow

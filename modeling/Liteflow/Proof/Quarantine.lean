import Liteflow.Proof.RefineTables

/-!
# Flow ids are unique and quarantined

A flow has a connection, or it waits, or it is free. Connections are created in three places and
released in nine, but a flow becomes free in one: `litedt_time_event` takes it from the front of
`timewait_queue`, `TIME_WAIT_EXPIRE` after it was put there. The clock does not go back, so the queue
is ordered, and a flow that is not in it any more has waited long enough.
-/

namespace Liteflow

/-- The second event creates no connection for a flow that the first released less than
`TIME_WAIT_EXPIRE` ago. -/
def Spaced (a b : Time × Event) : Prop :=
  ∀ flow cause stream, a.2 = .released flow cause stream → b.2 = .created flow →
    a.1 + timeWaitExpire ≤ b.1

namespace Host

def history (h : Host) : List (Env × HostEvent) → List (Time × Event)
  | [] => []
  | e :: rest =>
      ((h.step e.1 e.2).log.drop h.log.length).map (fun event => (e.1.now, event)) ++
        (h.step e.1 e.2).history rest

/-! ### The waiting flows -/

section Expire

variable {now : Time} {queue : HashQueue U32 Time}

theorem expireTimeWait_suffix : (expireTimeWait now queue).1 <:+ queue := by
  induction queue with
  | nil => exact List.suffix_refl _
  | cons entry rest ih =>
      obtain ⟨flow, closeTime⟩ := entry
      unfold expireTimeWait
      split
      · exact List.suffix_refl _
      · exact ih.trans (List.suffix_cons _ _)

theorem mem_expireTimeWait (now : Time) {entry : U32 × Time} (hmem : entry ∈ queue) :
    entry ∈ (expireTimeWait now queue).1 ∨ entry.2 + timeWaitExpire ≤ now := by
  induction queue with
  | nil => cases hmem
  | cons first rest ih =>
      obtain ⟨flow, closeTime⟩ := first
      unfold expireTimeWait
      split
      · exact .inl hmem
      · rename_i hlate
        rcases List.mem_cons.mp hmem with rfl | hmem
        · exact .inr (not_lt.mp hlate)
        · exact ih hmem

end Expire

end Host

/-- The flows are distinct, those that wait do so in the order of their release, and every flow that
has been released waits or has waited. -/
structure Quarantine (now : Time) (history : List (Time × Event)) (t : Tables) : Prop where
  card_iff : ∀ flow, t.card flow ≠ none ↔ flow ∈ t.flows
  nodup : (t.flows ++ t.timewait.map Prod.fst).Nodup
  sorted : (t.timewait.map Prod.snd).Pairwise (· ≤ ·)
  past : ∀ entry ∈ t.timewait, entry.2 ≤ now
  held : ∀ time flow cause stream, (time, Event.released flow cause stream) ∈ history →
    time + timeWaitExpire ≤ now ∨ ∃ closeTime, (flow, closeTime) ∈ t.timewait ∧ time ≤ closeTime
  spaced : history.Pairwise Spaced

section Moves

variable {now : Time} {may : Packet → Prop} {history : List (Time × Event)} {t t' : Tables}

theorem Quarantine.of_eq (hq : Quarantine now history t)
    (hcard : ∀ flow, t'.card flow ≠ none ↔ t.card flow ≠ none) (hflows : t'.flows = t.flows)
    (htimewait : t'.timewait = t.timewait) : Quarantine now history t' where
  card_iff flow := by rw [hcard, hflows, hq.card_iff]
  nodup := by
    rw [hflows, htimewait]
    exact hq.nodup
  sorted := by
    rw [htimewait]
    exact hq.sorted
  past := by
    rw [htimewait]
    exact hq.past
  held := by
    rw [htimewait]
    exact hq.held
  spaced := hq.spaced

theorem Quarantine.note (hq : Quarantine now history t) {event : Event}
    (hevent : event.isTurn = false) : Quarantine now (history ++ [(now, event)]) t where
  card_iff := hq.card_iff
  nodup := hq.nodup
  sorted := hq.sorted
  past := hq.past
  held := by
    intro time flow cause stream hmem
    rcases List.mem_append.mp hmem with hmem | hmem
    · exact hq.held time flow cause stream hmem
    · obtain ⟨-, rfl⟩ := Prod.mk.inj (List.mem_singleton.mp hmem)
      cases hevent
  spaced := by
    refine List.pairwise_append.mpr ⟨hq.spaced, List.pairwise_singleton _ _, ?_⟩
    rintro a - b hb flow cause stream - hcreated
    rw [List.mem_singleton.mp hb] at hcreated
    subst hcreated
    cases hevent

theorem card_update {card : U32 → Option Card} {flow : U32} {old new : Card}
    (hcard : card flow = some old) (g : U32) :
    Function.update card flow (some new) g ≠ none ↔ card g ≠ none := by
  rw [Function.update_apply]
  split
  · subst_vars
    simp [hcard]
  · rfl

theorem Quarantine.create (hq : Quarantine now history t) {flow : U32} (hnew : t.card flow = none)
    (hfree : t.timewait.queueGet flow = none) (card : Card) :
    Quarantine now (history ++ [(now, .created flow)])
      { t with
        flows := t.flows ++ [flow]
        card := Function.update t.card flow (some card)
        log := t.log ++ [.created flow] } where
  card_iff g := by
    dsimp only
    rw [Function.update_apply, List.mem_append, List.mem_singleton, ← hq.card_iff]
    by_cases heq : g = flow <;> simp [heq]
  nodup := by
    have hflow : flow ∉ t.flows := fun hmem => (hq.card_iff flow).mpr hmem hnew
    have hwaits : flow ∉ t.timewait.map Prod.fst := by
      intro hmem
      obtain ⟨entry, hentry, heq⟩ := List.mem_map.mp hmem
      exact HashQueue.queueGet_eq_none_iff.mp hfree entry hentry heq
    have hcons : (flow :: (t.flows ++ t.timewait.map Prod.fst)).Nodup :=
      List.nodup_cons.mpr ⟨by simp [hflow, hwaits], hq.nodup⟩
    dsimp only
    rw [List.append_assoc, List.singleton_append]
    exact List.perm_middle.nodup_iff.mpr hcons
  sorted := hq.sorted
  past := hq.past
  held := by
    intro time g cause stream hmem
    rcases List.mem_append.mp hmem with hmem | hmem
    · exact hq.held time g cause stream hmem
    · cases (Prod.mk.inj (List.mem_singleton.mp hmem)).2
  spaced := by
    refine List.pairwise_append.mpr ⟨hq.spaced, List.pairwise_singleton _ _, ?_⟩
    rintro ⟨time, event⟩ ha b hb g cause stream rfl hcreated
    rw [List.mem_singleton.mp hb] at hcreated ⊢
    cases hcreated
    -- The flow does not wait, so its last release is long ago.
    rcases hq.held time flow cause stream ha with hpast | ⟨closeTime, hwaits, -⟩
    · exact hpast
    · exact absurd rfl (HashQueue.queueGet_eq_none_iff.mp hfree _ hwaits)

theorem Quarantine.release (hq : Quarantine now history t) {flow : U32} {card : Card}
    (hcard : t.card flow = some card) (cause : ReleaseCause) (stream : Stream)
    (active : ActiveQueue) :
    Quarantine now (history ++ [(now, .released flow cause stream)])
      { t with
        flows := t.flows.filter (fun g => g ≠ flow)
        card := Function.update t.card flow none
        timewait := t.timewait.queueAppend flow now
        active := active
        log := t.log ++ [.released flow cause stream] } where
  card_iff g := by
    dsimp only
    rw [Function.update_apply, List.mem_filter, ← hq.card_iff]
    by_cases heq : g = flow <;> simp [heq]
  nodup := by
    have hmem : flow ∈ t.flows := (hq.card_iff flow).mp (by simp [hcard])
    obtain ⟨hflows, hwaits, hdisjoint⟩ := List.nodup_append.mp hq.nodup
    rw [HashQueue.queueAppend, List.map_append, ← List.append_assoc]
    refine List.nodup_append.mpr ⟨?_, List.nodup_singleton _, ?_⟩
    · exact List.nodup_append.mpr ⟨hflows.filter _, hwaits, fun a ha =>
        hdisjoint a (List.mem_filter.mp ha).1⟩
    · intro a ha b hb heq
      obtain rfl : b = flow := List.mem_singleton.mp hb
      rcases List.mem_append.mp ha with ha | ha
      · exact absurd heq (by simpa using (List.mem_filter.mp ha).2)
      · exact hdisjoint b hmem a ha heq.symm
  sorted := by
    rw [HashQueue.queueAppend, List.map_append]
    refine List.pairwise_append.mpr ⟨hq.sorted, List.pairwise_singleton _ _, ?_⟩
    intro a ha b hb
    obtain ⟨entry, hentry, rfl⟩ := List.mem_map.mp ha
    rw [List.mem_singleton.mp hb]
    exact hq.past entry hentry
  past := by
    intro entry hentry
    rcases List.mem_append.mp hentry with hentry | hentry
    · exact hq.past entry hentry
    · rw [List.mem_singleton.mp hentry]
  held := by
    intro time g cause' stream' hmem
    rcases List.mem_append.mp hmem with hmem | hmem
    · rcases hq.held time g cause' stream' hmem with hpast | ⟨closeTime, hwaits, hle⟩
      · exact .inl hpast
      · exact .inr ⟨closeTime, List.mem_append_left _ hwaits, hle⟩
    · obtain ⟨rfl, hevent⟩ := Prod.mk.inj (List.mem_singleton.mp hmem)
      cases hevent
      exact .inr ⟨time, List.mem_append_right _ (List.mem_singleton_self _), le_rfl⟩
  spaced := by
    refine List.pairwise_append.mpr ⟨hq.spaced, List.pairwise_singleton _ _, ?_⟩
    rintro a - b hb g cause' stream' - hcreated
    rw [List.mem_singleton.mp hb] at hcreated
    cases hcreated

theorem Quarantine.expire (hq : Quarantine now history t) :
    Quarantine now history { t with timewait := (Host.expireTimeWait now t.timewait).1 } where
  card_iff := hq.card_iff
  nodup :=
    hq.nodup.sublist ((List.Sublist.refl _).append (Host.expireTimeWait_suffix.sublist.map _))
  sorted := hq.sorted.sublist (Host.expireTimeWait_suffix.sublist.map _)
  past entry hentry := hq.past entry (Host.expireTimeWait_suffix.subset hentry)
  held := by
    intro time flow cause stream hmem
    rcases hq.held time flow cause stream hmem with hpast | ⟨closeTime, hwaits, hle⟩
    · exact .inl hpast
    · rcases Host.mem_expireTimeWait now hwaits with hwaits | hlate
      · exact .inr ⟨closeTime, hwaits, hle⟩
      · exact .inl ((Int.add_le_add_right hle _).trans hlate)
  spaced := hq.spaced

theorem Quarantine.later (hq : Quarantine now history t) {later : Time} (hle : now ≤ later) :
    Quarantine later history t where
  card_iff := hq.card_iff
  nodup := hq.nodup
  sorted := hq.sorted
  past entry hentry := (hq.past entry hentry).trans hle
  held time flow cause stream hmem :=
    (hq.held time flow cause stream hmem).imp_left fun hpast => hpast.trans hle
  spaced := hq.spaced

theorem TableMove.quarantine (hmove : TableMove now may t t') (hq : Quarantine now history t) :
    ∃ new, t'.log = t.log ++ new ∧
      Quarantine now (history ++ new.map (fun event => (now, event))) t' := by
  -- The moves that record nothing.
  have hsilent (hlog : t'.log = t.log) (hq' : Quarantine now history t') :
      ∃ new, t'.log = t.log ++ new ∧
        Quarantine now (history ++ new.map (fun event => (now, event))) t' :=
    ⟨[], by simp [hlog], by simpa using hq'⟩
  cases hmove with
  | send flight hmay => exact hsilent rfl (hq.of_eq (fun _ => Iff.rfl) rfl rfl)
  | wake time => exact hsilent rfl (hq.of_eq (fun _ => Iff.rfl) rfl rfl)
  | update flow owes hcard howes => exact hsilent rfl (hq.of_eq (card_update hcard) rfl rfl)
  | write flow owes hcard => exact hsilent rfl (hq.of_eq (card_update hcard) rfl rfl)
  | rest flow hmember hcard howes => exact hsilent rfl (hq.of_eq (card_update hcard) rfl rfl)
  | rotate flow hmember => exact hsilent rfl (hq.of_eq (fun _ => Iff.rfl) rfl rfl)
  | expire => exact hsilent rfl hq.expire
  | note event hevent =>
      exact ⟨[event], rfl, (hq.note hevent).of_eq (fun _ => Iff.rfl) rfl rfl⟩
  | create flow hnew hfree => exact ⟨[.created flow], rfl, hq.create hnew hfree _⟩
  | release flow cause stream hcard =>
      exact ⟨[.released flow cause stream], rfl, hq.release hcard cause stream _⟩

end Moves

/-! ### Runs -/

namespace Host

variable {h : Host} {now : Time} {history : List (Time × Event)}

theorem quarantine_step {env : Env} (hq : Quarantine env.now history h.tables) (event : HostEvent) :
    Quarantine env.now
      (history ++ ((h.step env event).log.drop h.log.length).map (fun event => (env.now, event)))
      (h.step env event).tables := by
  obtain ⟨new, hlog, hq'⟩ := tables_step (h := h)
    (P := fun t => ∃ new, t.log = h.log ++ new ∧
      Quarantine env.now (history ++ new.map (fun event => (env.now, event))) t)
    (by
      rintro t t' hmove ⟨new, hlog, hq⟩
      obtain ⟨more, hlog', hq'⟩ := hmove.quarantine hq
      refine ⟨new ++ more, by rw [hlog', hlog, List.append_assoc], ?_⟩
      rwa [List.map_append, ← List.append_assoc])
    (fun t next ⟨new, hlog, hq⟩ => ⟨new, hlog, hq.of_eq (fun _ => Iff.rfl) rfl rfl⟩) event
    ⟨[], by simp [tables], by simpa using hq⟩
  rw [show (h.step env event).log = h.log ++ new from hlog, List.drop_left]
  exact hq'

theorem quarantine_run {events : List (Env × HostEvent)}
    (hclock : (now :: events.map (fun e => e.1.now)).Pairwise (· ≤ ·))
    (hq : Quarantine now history h.tables) :
    ∃ later, Quarantine later (history ++ h.history events) (h.run events).tables := by
  induction events generalizing h now history with
  | nil => exact ⟨now, by simpa [Host.history, run] using hq⟩
  | cons e rest ih =>
      rw [List.map_cons, List.pairwise_cons] at hclock
      have hstep := quarantine_step (hq.later (hclock.1 e.1.now (by simp))) e.2
      obtain ⟨later, hlater⟩ := ih hclock.2 hstep
      refine ⟨later, ?_⟩
      rw [Host.history, ← List.append_assoc]
      exact hlater

theorem quarantine_init (cfg : Config) (nodeId : U16) (now start : Time) :
    Quarantine start [] (litedtInit cfg nodeId now).tables where
  card_iff flow := by simp [tables, litedtInit, findConnection, flows, Timerlist.timerlistGet,
    Timerlist.timerlistInit]
  nodup := by simp [tables, litedtInit, flows, Timerlist.timerlistInit]
  sorted := List.Pairwise.nil
  past entry hentry := absurd hentry List.not_mem_nil
  held time flow cause stream hmem := absurd hmem List.not_mem_nil
  spaced := List.Pairwise.nil

/-- A flow is at most once in `conn_queue` and `timewait_queue`, `timewait_queue` is in the order of
`close_time`, and between the release of a flow and its next creation there is `TIME_WAIT_EXPIRE`. -/
theorem flows_quarantined (cfg : Config) (nodeId : U16) (now : Time)
    {events : List (Env × HostEvent)}
    (hclock : (events.map (fun e => e.1.now)).Pairwise (· ≤ ·)) :
    (((litedtInit cfg nodeId now).run events).flows ++
        ((litedtInit cfg nodeId now).run events).timewaitQueue.map Prod.fst).Nodup ∧
      (((litedtInit cfg nodeId now).run events).timewaitQueue.map Prod.snd).Pairwise (· ≤ ·) ∧
      ((litedtInit cfg nodeId now).history events).Pairwise Spaced := by
  obtain ⟨start, hstart⟩ : ∃ start : Time, ∀ e ∈ events, start ≤ e.1.now := by
    cases events with
    | nil => exact ⟨now, by simp⟩
    | cons e rest =>
        rw [List.map_cons, List.pairwise_cons] at hclock
        refine ⟨e.1.now, fun e' he' => ?_⟩
        rcases List.mem_cons.mp he' with rfl | he'
        · exact le_rfl
        · exact hclock.1 e'.1.now (List.mem_map_of_mem he')
  have hclock' : (start :: events.map (fun e => e.1.now)).Pairwise (· ≤ ·) := by
    refine List.pairwise_cons.mpr ⟨fun time htime => ?_, hclock⟩
    obtain ⟨e, he, rfl⟩ := List.mem_map.mp htime
    exact hstart e he
  obtain ⟨later, hq⟩ := quarantine_run hclock' (quarantine_init cfg nodeId now start)
  exact ⟨hq.nodup, hq.sorted, hq.spaced⟩

/-- Flow 7 is closed after two seconds. The request after three seconds is refused, and the one after
126 seconds is accepted. -/
def reused : List (Env × HostEvent) :=
  [(.plain 1000000, .io (.connectReq 7 0)), (.plain 2000000, .call (.close 7)),
    (.plain 2000000, .io (.closeRsp 7)), (.plain 3000000, .io (.connectReq 7 0)),
    (.plain 125000000, .time 0), (.plain 126000000, .io (.connectReq 7 0))]

theorem flows_quarantined_reused :
    (((litedtInit (.globalConfigInit Config.plainToken) 1 0).history reused).filter
        (fun e => e.2.isTurn)).map Prod.fst = [1000000, 2000000, 126000000] ∧
      ((litedtInit (.globalConfigInit Config.plainToken) 1 0).history reused).Pairwise Spaced :=
  ⟨by decide +kernel, (flows_quarantined _ 1 0 (by decide)).2.2⟩

end Host

end Liteflow

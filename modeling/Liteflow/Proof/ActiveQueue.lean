import Liteflow.Lib.Ring
import Liteflow.Proof.RefineTables
import Mathlib.Data.List.TakeWhile

/-!
# The queue of active connections

A connection that owes the peer data is scheduled: it is in `active_queue`. The model has the members
in their order, and the pointers that the calls of `list.h` have made. The two agree in every state
that a host reaches: no call follows a null pointer, and the pointers are those of the circle of the
head and the members.
-/

namespace Liteflow

open Ring

/-! ### The pointers -/

def queueLinks (flows : List U32) : Links (Option U32) :=
  Links.ofCycle (none :: flows.map some)

def Tables.isActive (t : Tables) (flow : U32) : Bool :=
  (t.card flow).any Card.active

section Pointers

variable {flows : List U32} {flow : U32}

theorem nodup_nodes (hnodup : flows.Nodup) : (none :: flows.map some).Nodup :=
  List.nodup_cons.mpr ⟨by simp, hnodup.map (Option.some_injective _)⟩

theorem queueLinks_nil :
    queueLinks [] = Links.init ⟨fun _ => none, fun _ => none⟩ none :=
  (Links.init_eq _ (fun _ _ => rfl) fun _ _ => rfl).symm

theorem run_addTail (hnodup : flows.Nodup) (hnew : flow ∉ flows) :
    (ListCall.addTail flow).run (queueLinks flows) = some (queueLinks (flows ++ [flow])) := by
  have hnodes : (some flow :: none :: flows.map some).Nodup :=
    List.nodup_cons.mpr ⟨by simpa using hnew, nodup_nodes hnodup⟩
  unfold queueLinks
  rw [List.map_append]
  exact Links.addTail_members hnodes

theorem run_del (hnodup : flows.Nodup) (hmem : flow ∈ flows) :
    (ListCall.del flow).run (queueLinks flows) = some (queueLinks (flows.erase flow)) := by
  obtain ⟨front, back, -, rfl, herase⟩ := List.exists_erase_eq hmem
  have hnodes := nodup_nodes hnodup
  rw [herase]
  simp only [queueLinks, List.map_append, List.map_cons] at hnodes ⊢
  exact Links.del_members hnodes

theorem rotateTo_append {front back : List U32} (hfront : flow ∉ front) :
    ActiveQueue.rotateTo flow (front ++ flow :: back) = flow :: back ++ front := by
  have hne : ∀ g ∈ front, decide (g ≠ flow) = true := fun g hg => by
    simpa using ne_of_mem_of_not_mem hg hfront
  rw [ActiveQueue.rotateTo, List.dropWhile_append_of_pos hne, List.takeWhile_append_of_pos hne]
  simp

theorem rotateTo_isRotated (flow : U32) (flows : List U32) : ActiveQueue.rotateTo flow flows ~r flows := by
  have hrotated : ActiveQueue.rotateTo flow flows ~r
      (flows.takeWhile (· ≠ flow) ++ flows.dropWhile (· ≠ flow)) := List.isRotated_append
  rwa [List.takeWhile_append_dropWhile] at hrotated

theorem run_moveHead (hnodup : flows.Nodup) (hmem : flow ∈ flows) :
    (ListCall.moveHead flow).run (queueLinks flows) =
      some (queueLinks (ActiveQueue.rotateTo flow flows)) := by
  obtain ⟨front, back, rfl⟩ := List.append_of_mem hmem
  have hfront : flow ∉ front := fun h =>
    (List.nodup_append.mp hnodup).2.2 flow h flow List.mem_cons_self rfl
  have hnodes := nodup_nodes hnodup
  rw [rotateTo_append hfront]
  simp only [queueLinks, List.map_append, List.map_cons] at hnodes ⊢
  rw [ListCall.run, Links.prev_members hnodes]
  dsimp only
  by_cases hempty : front = []
  · -- The head is right before the connection.
    subst hempty
    simp
  · have hne : front.map some ≠ [] := by simpa using hempty
    have hlast : (none :: front.map some).getLast (List.cons_ne_nil _ _) =
        (front.map some).getLast hne := List.getLast_cons hne
    rw [hlast, if_neg (by simp [List.getLast_map]), Links.move_head hnodes hne]

end Pointers

/-! ### The members -/

/-- The members of `active_queue` are the active connections, every connection that owes data is one
of them, and the pointers are those of the members. -/
structure Enlisted (t : Tables) : Prop where
  nodup : t.active.flows.Nodup
  mem_iff : ∀ flow, flow ∈ t.active.flows ↔ t.isActive flow = true
  active_of_owes : ∀ flow card, t.card flow = some card → card.owes = true → card.active = true
  links : t.active.links = some (queueLinks t.active.flows)

namespace Enlisted

variable {now : Time} {may : Packet → Prop} {t t' : Tables} {flow : U32} {card : Card}

theorem isActive_eq (hcard : t.card flow = some card) : t.isActive flow = card.active := by
  simp [Tables.isActive, hcard]

theorem of_eq (hs : Enlisted t) (hactive : t'.active = t.active) (hcard : t'.card = t.card) :
    Enlisted t' := by
  have hsame : t'.isActive = t.isActive := by
    unfold Tables.isActive
    rw [hcard]
  refine ⟨hactive ▸ hs.nodup, ?_, hcard ▸ hs.active_of_owes, hactive ▸ hs.links⟩
  rw [hactive, hsame]
  exact hs.mem_iff

section Card

/-! One connection has a new card, or is released. -/

variable {new : Option Card}

theorem isActive_update (hcard : t'.card = Function.update t.card flow new) :
    t'.isActive = Function.update t.isActive flow (new.any Card.active) := by
  funext g
  rw [Tables.isActive, hcard]
  by_cases heq : g = flow
  · subst heq
    simp
  · simp [Tables.isActive, heq]

theorem active_of_owes_update (hs : Enlisted t)
    (hcard : t'.card = Function.update t.card flow new)
    (hnew : ∀ card, new = some card → card.owes = true → card.active = true) :
    ∀ g card, t'.card g = some card → card.owes = true → card.active = true := by
  intro g card hg
  rw [hcard, Function.update_apply] at hg
  split at hg
  · exact hnew card hg
  · exact hs.active_of_owes g card hg

theorem keep (hs : Enlisted t) (hcard : t'.card = Function.update t.card flow new)
    (hnew : ∀ card, new = some card → card.owes = true → card.active = true)
    (hsame : new.any Card.active = t.isActive flow) (hactive : t'.active = t.active) :
    Enlisted t' := by
  have hcards : t'.isActive = t.isActive := by
    rw [isActive_update hcard, hsame, Function.update_eq_self]
  refine ⟨hactive ▸ hs.nodup, fun g => ?_, hs.active_of_owes_update hcard hnew, hactive ▸ hs.links⟩
  rw [hactive, hcards, hs.mem_iff]

theorem join (hs : Enlisted t) (hcard : t'.card = Function.update t.card flow new)
    (hnew : ∀ card, new = some card → card.owes = true → card.active = true)
    (hidle : t.isActive flow = false) (hjoined : new.any Card.active = true)
    (hactive : t'.active = t.active.addTail flow) : Enlisted t' := by
  have hcards := isActive_update hcard
  rw [hjoined] at hcards
  have habsent : flow ∉ t.active.flows := by
    rw [hs.mem_iff, hidle]
    exact Bool.false_ne_true
  refine ⟨?_, fun g => ?_, hs.active_of_owes_update hcard hnew, ?_⟩
  · rw [hactive]
    refine List.nodup_append.mpr ⟨hs.nodup, List.nodup_singleton _, ?_⟩
    rintro a ha b hb rfl
    exact habsent (List.mem_singleton.mp hb ▸ ha)
  · rw [hactive, hcards, ActiveQueue.addTail, List.mem_append, List.mem_singleton,
      Function.update_apply, hs.mem_iff]
    by_cases heq : g = flow <;> simp [heq]
  · rw [hactive, ActiveQueue.addTail, hs.links]
    exact run_addTail hs.nodup habsent

theorem leave (hs : Enlisted t) (hcard : t'.card = Function.update t.card flow new)
    (hnew : ∀ card, new = some card → card.owes = true → card.active = true)
    (hmember : flow ∈ t.active.flows) (hleft : new.any Card.active = false)
    (hactive : t'.active = t.active.del flow) : Enlisted t' := by
  have hcards := isActive_update hcard
  rw [hleft] at hcards
  refine ⟨?_, fun g => ?_, hs.active_of_owes_update hcard hnew, ?_⟩
  · rw [hactive]
    exact hs.nodup.erase flow
  · rw [hactive, hcards, ActiveQueue.del, hs.nodup.mem_erase_iff, Function.update_apply, hs.mem_iff]
    by_cases heq : g = flow <;> simp [heq]
  · rw [hactive, ActiveQueue.del, hs.links]
    exact run_del hs.nodup hmember

end Card

theorem turn (hs : Enlisted t) (hmember : flow ∈ t.active.flows) (hcard : t'.card = t.card)
    (hactive : t'.active = t.active.moveHead flow) : Enlisted t' := by
  have hcards : t'.isActive = t.isActive := by
    unfold Tables.isActive
    rw [hcard]
  have hrotated : t'.active.flows ~r t.active.flows := by
    rw [hactive]
    exact rotateTo_isRotated flow t.active.flows
  refine ⟨hrotated.nodup_iff.mpr hs.nodup, fun g => ?_, hcard ▸ hs.active_of_owes, ?_⟩
  · rw [hrotated.mem_iff, hcards, hs.mem_iff]
  · rw [hactive, ActiveQueue.moveHead, hs.links]
    exact run_moveHead hs.nodup hmember

theorem of_move (hs : Enlisted t) (hmove : TableMove now may t t') : Enlisted t' := by
  cases hmove with
  | send flight hmay => exact hs.of_eq rfl rfl
  | note event hevent => exact hs.of_eq rfl rfl
  | wake time => exact hs.of_eq rfl rfl
  | expire => exact hs.of_eq rfl rfl
  | rotate flow hmember => exact hs.turn hmember rfl rfl
  | update flow owes hcard howes =>
      rename_i card
      refine hs.keep rfl ?_ (isActive_eq hcard).symm rfl
      rintro _ ⟨⟩ how
      exact (howes how).elim (hs.active_of_owes flow card hcard) id
  | write flow owes hcard =>
      rename_i card
      cases hwas : card.active with
      | true => exact hs.keep rfl (by rintro _ ⟨⟩ -; rfl) ((isActive_eq hcard).trans hwas).symm rfl
      | false => exact hs.join rfl (by rintro _ ⟨⟩ -; rfl) ((isActive_eq hcard).trans hwas) rfl rfl
  | rest flow hmember hcard howes => exact hs.leave rfl (by rintro _ ⟨⟩ ⟨⟩) hmember rfl rfl
  | create flow hnew hfree =>
      refine hs.keep rfl (by rintro _ ⟨⟩ ⟨⟩) ?_ rfl
      simp [Tables.isActive, hnew]
  | release flow cause stream hcard =>
      rename_i card
      have hactive := isActive_eq hcard
      cases hwas : card.active with
      | true =>
          exact hs.leave rfl (by rintro _ ⟨⟩) ((hs.mem_iff flow).mpr (hactive.trans hwas)) rfl rfl
      | false => exact hs.keep rfl (by rintro _ ⟨⟩) (hactive.trans hwas).symm rfl

end Enlisted

/-! ### Runs -/

namespace Host

variable {h : Host}

theorem enlisted_step (env : Env) (hs : Enlisted h.tables) (event : HostEvent) :
    Enlisted (h.step env event).tables :=
  tables_step (fun _ _ hmove hs => hs.of_move hmove) (fun _ _ hs => hs.of_eq rfl rfl) event hs

theorem enlisted_init (cfg : Config) (nodeId : U16) (now : Time) :
    Enlisted (litedtInit cfg nodeId now).tables where
  nodup := List.nodup_nil
  mem_iff flow := by simp [tables, litedtInit, ActiveQueue.init, Tables.isActive, findConnection,
    Timerlist.timerlistGet, Timerlist.timerlistInit]
  active_of_owes flow card hcard := by simp [tables, litedtInit, findConnection,
    Timerlist.timerlistGet, Timerlist.timerlistInit] at hcard
  links := congrArg some queueLinks_nil.symm

theorem enlisted_run (cfg : Config) (nodeId : U16) (now : Time) (events : List (Env × HostEvent)) :
    Enlisted ((litedtInit cfg nodeId now).run events).tables := by
  induction events using List.reverseRecOn with
  | nil => exact enlisted_init cfg nodeId now
  | append_singleton front last ih =>
      rw [run, List.foldl_append]
      exact enlisted_step last.1 ih last.2

/-! ### The head of the queue -/

/-- `check_transmit_queue` takes connections off the queue, and changes the order of the others
cyclically at most. -/
theorem isRotated_checkTransmitQueue (h : Host) (env : Env) (nextTime : Time) :
    ∃ kept : List U32, kept.Sublist h.activeQueue.flows ∧
      (h.checkTransmitQueue env nextTime).1.activeQueue.flows ~r kept := by
  have hqueue (sent : Host) (limited : Bool) :
      ((sent.markAppLimited limited).clearCredit limited).activeQueue = sent.activeQueue := by
    unfold clearCredit markAppLimited
    split_ifs <;> rfl
  unfold checkTransmitQueue
  dsimp only
  rw [hqueue]
  refine transmitActive_preserves
    (P := fun _ h' => h'.activeQueue.flows.Sublist h.activeQueue.flows)
    (Q := fun h' => ∃ kept : List U32, kept.Sublist h.activeQueue.flows ∧ h'.activeQueue.flows ~r kept)
    (fun hsub => ⟨_, hsub, .refl _⟩) (fun hsub => ⟨_, hsub, rotateTo_isRotated _ _⟩)
    (fun g fuel hsub => ?_) id (fun _ _ hsub => List.erase_sublist.trans hsub) false nextTime (.refl _)
  rw [activeQueue_transmitLoop]
  exact hsub

def queueNodes (h : Host) : List (Option U32) :=
  none :: h.activeQueue.flows.map some

/-- `active_queue` is a circular list of the active connections, each once, and all that owe data are
in it. -/
structure QueueWellFormed (h : Host) (links : Links (Option U32)) : Prop where
  nodup : h.activeQueue.flows.Nodup
  circular : ∀ i node after, h.queueNodes[i]? = some node →
    h.queueNodes[(i + 1) % h.queueNodes.length]? = some after →
    links.next node = some after ∧ links.prev after = some node
  unlinked : ∀ flow, flow ∉ h.activeQueue.flows →
    links.next (some flow) = none ∧ links.prev (some flow) = none
  mem_iff : ∀ flow, flow ∈ h.activeQueue.flows ↔
    ∃ conn, h.findConnection flow = some conn ∧ conn.active = true
  mem_of_pending : ∀ flow conn, h.findConnection flow = some conn →
    conn.state.code ≤ ConnState.finWait.code →
    conn.writeSeq ≠ conn.sendSeq ∨ conn.packetList.treemapSize ≠ 0 → flow ∈ h.activeQueue.flows

theorem wellFormed_of_enlisted (hs : Enlisted h.tables) :
    h.QueueWellFormed (queueLinks h.activeQueue.flows) := by
  have hmem (flow : U32) : flow ∈ h.activeQueue.flows ↔
      ∃ conn, h.findConnection flow = some conn ∧ conn.active = true := by
    refine (hs.mem_iff flow).trans ?_
    simp [Tables.isActive, tables, Conn.card, Option.any_eq_true]
  refine ⟨hs.nodup, ?_, ?_, hmem, ?_⟩
  · intro i node after hnode hafter
    exact Links.ofCycle_getElem (nodup_nodes hs.nodup) hnode hafter
  · intro flow hflow
    have hnode : some flow ∉ none :: h.activeQueue.flows.map some := by simpa using hflow
    exact ⟨Links.next_ofCycle_of_notMem hnode, Links.prev_ofCycle_of_notMem hnode⟩
  · intro flow conn hfind hstate hpending
    have howes : conn.toStream.owes = true := by
      rw [Stream.owes_eq_true]
      refine ⟨hstate, ?_⟩
      simp only [isSndQueueEmpty, decide_eq_false_iff_not, not_and_or]
      exact hpending
    exact (hmem flow).mpr ⟨conn, hfind,
      hs.active_of_owes flow conn.card (tables_card_of_find hfind) howes⟩

/-- In every state that a host reaches, the pointers that the calls of `list.h` have made are those of
a well-formed `active_queue`. Moving the head to a member turns the queue, and nothing else that
`check_transmit_queue` does changes the order of the members that stay. -/
theorem activeQueue_wellFormed (cfg : Config) (nodeId : U16) (now : Time)
    (events : List (Env × HostEvent)) :
    let h := (litedtInit cfg nodeId now).run events
    (∃ links, h.activeQueue.links = some links ∧ h.QueueWellFormed links) ∧
    (∀ flow ∈ h.activeQueue.flows, (h.activeQueue.moveHead flow).flows ~r h.activeQueue.flows ∧
      ∃ links, (h.activeQueue.moveHead flow).links = some links ∧
        { h with activeQueue := h.activeQueue.moveHead flow }.QueueWellFormed links) ∧
    ∀ (h' : Host) (env : Env) (nextTime : Time), ∃ kept : List U32,
      kept.Sublist h'.activeQueue.flows ∧
      (h'.checkTransmitQueue env nextTime).1.activeQueue.flows ~r kept := by
  intro h
  have hs : Enlisted h.tables := enlisted_run cfg nodeId now events
  refine ⟨⟨_, hs.links, wellFormed_of_enlisted hs⟩, fun flow hmember => ?_,
    isRotated_checkTransmitQueue⟩
  have hturned : Enlisted { h with activeQueue := h.activeQueue.moveHead flow }.tables :=
    hs.turn hmember rfl rfl
  exact ⟨rotateTo_isRotated flow _, _, hturned.links, wellFormed_of_enlisted hturned⟩

end Host

end Liteflow

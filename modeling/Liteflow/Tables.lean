import Liteflow.System
import Mathlib.Logic.Relation

/-!
# The tables of a host as a transition system

`Host.tables h` is what a host keeps about all of its flows together: which of them have a connection,
which have to stay unused for a while, which are scheduled for sending, and when the timer of the host
is due. A `TableMove` is one thing the code does to them.

The moves say nothing about the streams of the connections, only whether a connection still owes the
peer data.
-/

namespace Liteflow

/-- `state <= CONN_FIN_WAIT`, and there is data that has not been sent or not been acknowledged. -/
def Stream.owes (c : Stream) : Bool :=
  c.state.code ≤ ConnState.finWait.code ∧ Host.isSndQueueEmpty c = false

structure Card where
  active : Bool
  owes : Bool
deriving DecidableEq, Repr

def Conn.card (conn : Conn) : Card where
  active := conn.active
  owes := conn.owes

structure Tables where
  flows : List U32
  card : U32 → Option Card
  timewait : HashQueue U32 Time
  active : ActiveQueue
  nextEvent : Time
  wakes : List (Time × Bool)
  out : List Flight
  log : List Event

def Host.flows (h : Host) : List U32 :=
  h.connQueue.nodes.map TimerNode.key

def Host.tables (h : Host) : Tables where
  flows := h.flows
  card := fun flow => (h.findConnection flow).map Conn.card
  timewait := h.timewaitQueue
  active := h.activeQueue
  nextEvent := h.nextEventTime
  wakes := h.wakes
  out := h.out
  log := h.log

/-- A rank of the message types. What a host sends in answer to a datagram has a smaller rank. -/
def Packet.rank : Packet → Nat
  | connectRst _ | closeRsp _ | pingRsp _ => 0
  | dataAck _ _ | closeReq _ _ | pingReq _ => 1
  | connectRsp _ _ | dataPost _ _ | dataFec _ _ => 2
  | connectReq _ _ | connectData _ _ _ => 3

/-- `send_cb` may call `litedt_close`. -/
def Env.Closes (env : Env) : Prop :=
  ∃ sendCb h flow writable, env.sendCb = some sendCb ∧ SendCall.close ∈ sendCb h flow writable

def Event.isTurn : Event → Bool
  | created _ | released _ _ _ => true
  | _ => false

/-- One thing the code does to the tables at the time `now`; `may` says which datagrams it sends. -/
inductive TableMove (now : Time) (may : Packet → Prop) : Tables → Tables → Prop where
  | send {t : Tables} (flight : Flight) (hmay : may flight.packet) :
      TableMove now may t { t with out := t.out ++ [flight] }
  | note {t : Tables} (event : Event) (hevent : event.isTurn = false) :
      TableMove now may t { t with log := t.log ++ [event] }
  /-- `litedt_mod_evtime`. -/
  | wake {t : Tables} (time : Time) :
      TableMove now may t
        { t with
          nextEvent := if time < t.nextEvent then time else t.nextEvent
          wakes := t.wakes ++ [(time, decide (time < t.nextEvent))] }
  /-- A connection that owes nothing does not begin to, unless it is scheduled. -/
  | update {t : Tables} {card : Card} (flow : U32) (owes : Bool) (hcard : t.card flow = some card)
      (howes : owes = true → card.owes = true ∨ card.active = true) :
      TableMove now may t
        { t with card := Function.update t.card flow (some { card with owes := owes }) }
  /-- `litedt_send`. -/
  | write {t : Tables} {card : Card} (flow : U32) (owes : Bool) (hcard : t.card flow = some card) :
      TableMove now may t
        { t with
          card := Function.update t.card flow (some { active := true, owes := owes })
          active := if card.active then t.active else t.active.addTail flow }
  /-- A connection that owes nothing is taken off the schedule. -/
  | rest {t : Tables} {card : Card} (flow : U32) (hmember : flow ∈ t.active.flows)
      (hcard : t.card flow = some card) (howes : card.owes = false) :
      TableMove now may t
        { t with
          card := Function.update t.card flow (some { active := false, owes := false })
          active := t.active.del flow }
  | rotate {t : Tables} (flow : U32) (hmember : flow ∈ t.active.flows) :
      TableMove now may t { t with active := t.active.moveHead flow }
  | create {t : Tables} (flow : U32) (hnew : t.card flow = none)
      (hfree : t.timewait.queueGet flow = none) :
      TableMove now may t
        { t with
          flows := t.flows ++ [flow]
          card := Function.update t.card flow (some { active := false, owes := false })
          log := t.log ++ [.created flow] }
  | release {t : Tables} {card : Card} (flow : U32) (cause : ReleaseCause) (stream : Stream)
      (hcard : t.card flow = some card) :
      TableMove now may t
        { t with
          flows := t.flows.filter (fun g => g ≠ flow)
          card := Function.update t.card flow none
          timewait := t.timewait.queueAppend flow now
          active := if card.active then t.active.del flow else t.active
          log := t.log ++ [.released flow cause stream] }
  | expire {t : Tables} :
      TableMove now may t { t with timewait := (Host.expireTimeWait now t.timewait).1 }

/-- What a part of an event does to the tables. -/
def TableMoves (now : Time) (may : Packet → Prop) : Tables → Tables → Prop :=
  Relation.ReflTransGen (TableMove now may)

end Liteflow

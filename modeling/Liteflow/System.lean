import Liteflow.TimeEvent

/-!
# Two hosts and the network between them

A run is a list of actions. Each one is an event at one of the hosts: a call of its application, a
time event, or the arrival of a datagram that the other host has sent at some time before. The same
datagram may arrive any number of times, in any order, or never.
-/

namespace Liteflow

inductive Call where
  | connect (flow : U32) (tunnelId : U16)
  | close (flow : U32)
  | send (flow : U32) (data : Payload)
  | recv (flow : U32) (len : U32)
  | skip (flow : U32) (len : U32)
  | setNotifyRecv (flow : U32) (notify : Bool)
  | setNotifyRecvnew (flow : U32) (notify : Bool)
  | setNotifySend (flow : U32) (notify : Bool)

inductive HostEvent where
  | call (call : Call)
  | time (fuel : Nat)
  | io (packet : Packet)
  | fini

def HostEvent.isTime : HostEvent → Bool
  | time _ => true
  | _ => false

def Event.isCreated (flow : U32) : Event → Bool
  | created g => g = flow
  | _ => false

namespace Host

def call (env : Env) (h : Host) : Call → Host
  | .connect flow tunnelId => (h.litedtConnect env flow tunnelId).2
  | .close flow => (h.litedtClose env flow).2
  | .send flow data => (h.litedtSend env flow data).2
  | .recv flow len => (h.litedtRecv env flow len).2
  | .skip flow len => h.litedtRecvSkip env flow len
  | .setNotifyRecv flow notify => h.litedtSetNotifyRecv flow notify
  | .setNotifyRecvnew flow notify => h.litedtSetNotifyRecvnew flow notify
  | .setNotifySend flow notify => h.litedtSetNotifySend flow notify

def step (env : Env) (h : Host) : HostEvent → Host
  | .call call => h.call env call
  | .time fuel => h.litedtTimeEvent env fuel
  | .io packet => h.litedtIoEvent env packet
  | .fini => h.litedtFini env

def run (h : Host) (events : List (Env × HostEvent)) : Host :=
  events.foldl (fun h e => h.step e.1 e.2) h

def incarnations (h : Host) (flow : U32) : Nat :=
  h.log.countP (Event.isCreated flow)

end Host

inductive Side where
  | a
  | b
deriving DecidableEq, Repr

def Side.other : Side → Side
  | a => b
  | b => a

/-- An action at a host; `deliver i` is the arrival of the `i`-th datagram of the other one. -/
inductive Action where
  | call (call : Call)
  | time (fuel : Nat)
  | deliver (index : Nat)
  | fini

structure Sys where
  a : Host
  b : Host

namespace Sys

def host (s : Sys) : Side → Host
  | .a => s.a
  | .b => s.b

def setHost (s : Sys) : Side → Host → Sys
  | .a, h => { s with a := h }
  | .b, h => { s with b := h }

/-- The datagram that an action delivers. -/
def arriving (s : Sys) (side : Side) : Action → Option Flight
  | .deliver index => (s.host side.other).out[index]?
  | _ => none

/-- The event at the host, if there is one: a datagram that was never sent does not arrive. -/
def eventOf (s : Sys) (side : Side) : Action → Option HostEvent
  | .call call => some (.call call)
  | .time fuel => some (.time fuel)
  | .deliver index => (s.arriving side (.deliver index)).map (fun flight => .io flight.packet)
  | .fini => some .fini

def step (s : Sys) (side : Side) (env : Env) (action : Action) : Sys :=
  match s.eventOf side action with
  | none => s
  | some event => s.setHost side ((s.host side).step env event)

/-- The system at the start: two hosts with their settings, node ids and clocks. -/
def init (cfgA cfgB : Config) (nodeA nodeB : U16) (nowA nowB : Time) : Sys where
  a := Host.litedtInit cfgA nodeA nowA
  b := Host.litedtInit cfgB nodeB nowB

def run (s : Sys) (actions : List (Side × Env × Action)) : Sys :=
  actions.foldl (fun s act => s.step act.1 act.2.1 act.2.2) s

def events (side : Side) : List (Side × Env × Action) → Sys → List (Env × HostEvent)
  | [], _ => []
  | (actor, env, action) :: rest, s =>
      (if actor = side then (s.eventOf side action).toList.map (fun event => (env, event)) else []) ++
        events side rest (s.step actor env action)

end Sys

end Liteflow

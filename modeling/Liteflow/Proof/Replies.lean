import Liteflow.Proof.RefineTables
import Mathlib.Logic.Hydra
import Mathlib.Tactic.Abel

/-!
# Replies

What a host sends in answer to a datagram has a smaller rank than the datagram. Between two hosts
every exchange therefore ends, unless a timer or an application starts a new one: with each delivery
one datagram is replaced by finitely many of smaller rank.
-/

namespace Liteflow

structure Exchange where
  left : Host
  right : Host
  toLeft : Multiset Packet
  toRight : Multiset Packet

namespace Host

def replies (h : Host) (env : Env) (packet : Packet) : List Packet :=
  ((h.litedtIoEvent env packet).out.drop h.out.length).map Flight.packet

end Host

inductive Delivers : Exchange → Exchange → Prop where
  | left {x : Exchange} (env : Env) (hcloses : ¬env.Closes) (packet : Packet)
      (rest : Multiset Packet) (hpacket : x.toLeft = packet ::ₘ rest) :
      Delivers x
        { x with
          left := x.left.litedtIoEvent env packet
          toLeft := rest
          toRight := x.toRight + x.left.replies env packet }
  | right {x : Exchange} (env : Env) (hcloses : ¬env.Closes) (packet : Packet)
      (rest : Multiset Packet) (hpacket : x.toRight = packet ::ₘ rest) :
      Delivers x
        { x with
          right := x.right.litedtIoEvent env packet
          toRight := rest
          toLeft := x.toLeft + x.right.replies env packet }
  | leftLost {x : Exchange} (packet : Packet) (rest : Multiset Packet)
      (hpacket : x.toLeft = packet ::ₘ rest) : Delivers x { x with toLeft := rest }
  | rightLost {x : Exchange} (packet : Packet) (rest : Multiset Packet)
      (hpacket : x.toRight = packet ::ₘ rest) : Delivers x { x with toRight := rest }

def Exchange.sent (x : Exchange) : Nat :=
  x.left.out.length + x.right.out.length

/-! ### One delivery -/

namespace Host

variable {h : Host} {env : Env} {packet : Packet}

theorem out_ioEvent (h : Host) (packet : Packet) (hcloses : ¬env.Closes) :
    ∃ new, (h.litedtIoEvent env packet).out = h.out ++ new ∧
      ∀ flight ∈ new, flight.packet.rank < packet.rank := by
  have hsteps : Steps env.now (fun p => p.rank < packet.rank) h (h.litedtIoEvent env packet) :=
    Steps.of_acts ((Acts.refl h).ioEvent (fun _ hrank => hrank) fun hc => absurd hc hcloses)
  refine hsteps.preserves (P := fun t => ∃ new, t.out = h.out ++ new ∧
    ∀ flight ∈ new, flight.packet.rank < packet.rank) ?_ ⟨[], by simp [tables], by simp⟩
  rintro t t' hmove ⟨new, hout, hnew⟩
  cases hmove with
  | send flight hmay =>
      refine ⟨new ++ [flight], by simp [hout], fun other hother => ?_⟩
      rcases List.mem_append.mp hother with hother | hother
      · exact hnew other hother
      · rwa [List.mem_singleton.mp hother]
  | _ => exact ⟨new, hout, hnew⟩

theorem rank_lt_of_mem_replies (h : Host) (packet : Packet) (hcloses : ¬env.Closes) :
    ∀ reply ∈ h.replies env packet, reply.rank < packet.rank := by
  obtain ⟨new, hout, hnew⟩ := out_ioEvent h packet hcloses
  rw [replies, hout, List.drop_left]
  intro reply hreply
  obtain ⟨flight, hflight, rfl⟩ := List.mem_map.mp hreply
  exact hnew flight hflight

end Host

namespace Delivers

variable {x y : Exchange}

def ranks (x : Exchange) : Multiset Nat :=
  (x.toLeft + x.toRight).map Packet.rank

theorem cutExpand_ranks (packet : Packet) (new : Multiset Packet)
    (hnew : ∀ p ∈ new, p.rank < packet.rank)
    (hflights : y.toLeft + y.toRight + {packet} = x.toLeft + x.toRight + new) :
    Relation.CutExpand (· < ·) (ranks y) (ranks x) := by
  refine ⟨new.map Packet.rank, packet.rank, ?_, ?_⟩
  · intro rank hrank
    obtain ⟨p, hp, rfl⟩ := Multiset.mem_map.mp hrank
    exact hnew p hp
  · rw [ranks, ranks, ← Multiset.map_singleton, ← Multiset.map_add, hflights, Multiset.map_add]

theorem ranks_lt (hdelivers : Delivers x y) :
    Relation.CutExpand (· < ·) (ranks y) (ranks x) := by
  cases hdelivers with
  | left env hcloses packet rest hpacket =>
      refine cutExpand_ranks packet (x.left.replies env packet)
        (x.left.rank_lt_of_mem_replies packet hcloses) ?_
      dsimp only
      rw [hpacket, ← Multiset.singleton_add]
      abel
  | right env hcloses packet rest hpacket =>
      refine cutExpand_ranks packet (x.right.replies env packet)
        (x.right.rank_lt_of_mem_replies packet hcloses) ?_
      dsimp only
      rw [hpacket, ← Multiset.singleton_add]
      abel
  | leftLost packet rest hpacket =>
      refine cutExpand_ranks packet 0 (by simp) ?_
      rw [hpacket, ← Multiset.singleton_add]
      abel
  | rightLost packet rest hpacket =>
      refine cutExpand_ranks packet 0 (by simp) ?_
      rw [hpacket, ← Multiset.singleton_add]
      abel

theorem wellFounded : WellFounded fun y x => Delivers x y :=
  Subrelation.wf ranks_lt (InvImage.wf ranks (wellFounded_lt.cutExpand))

theorem sent_le (hdelivers : Delivers x y) : x.sent ≤ y.sent := by
  have hmono (h : Host) {env : Env} (hcloses : ¬env.Closes) (packet : Packet) :
      h.out.length ≤ (h.litedtIoEvent env packet).out.length := by
    obtain ⟨new, hout, -⟩ := Host.out_ioEvent h packet hcloses
    rw [hout, List.length_append]
    exact Nat.le_add_right _ _
  cases hdelivers with
  | left env hcloses packet rest hpacket => exact Nat.add_le_add_right (hmono _ hcloses packet) _
  | right env hcloses packet rest hpacket => exact Nat.add_le_add_left (hmono _ hcloses packet) _
  | leftLost packet rest hpacket => exact le_rfl
  | rightLost packet rest hpacket => exact le_rfl

end Delivers

/-! ### Every order of deliveries -/

theorem Exchange.eventually_constant {x : ℕ → Exchange}
    (hsteps : ∀ n, Delivers (x n) (x (n + 1)) ∨ x (n + 1) = x n) :
    ∃ last, ∀ n, last ≤ n → x n = x last := by
  obtain ⟨_, ⟨last, rfl⟩, hmin⟩ := Delivers.wellFounded.has_min (Set.range x) (Set.range_nonempty x)
  refine ⟨last, fun n hn => ?_⟩
  induction n, hn using Nat.le_induction with
  | base => rfl
  | succ n hn ih =>
      rcases hsteps n with hdelivers | hpause
      · rw [ih] at hdelivers
        exact absurd hdelivers (hmin _ (Set.mem_range_self _))
      · rw [hpause, ih]

/-- The rank of the message types falls with every reply, and two hosts that only react to the
datagrams between them send finitely many, in whatever order these arrive. -/
theorem replies_terminate :
    (∀ (h : Host) (env : Env) (packet : Packet), ¬env.Closes →
      ∀ reply ∈ h.replies env packet, reply.rank < packet.rank) ∧
    ∀ x : ℕ → Exchange, (∀ n, Delivers (x n) (x (n + 1)) ∨ x (n + 1) = x n) →
      ∃ bound, ∀ n, (x n).sent ≤ bound := by
  refine ⟨fun h _ packet hcloses => h.rank_lt_of_mem_replies packet hcloses, ?_⟩
  intro x hsteps
  obtain ⟨last, hlast⟩ := Exchange.eventually_constant hsteps
  have hmono : Monotone fun n => (x n).sent := by
    refine monotone_nat_of_le_succ fun n => ?_
    rcases hsteps n with hdelivers | hpause
    · exact hdelivers.sent_le
    · exact le_of_eq (congrArg Exchange.sent hpause.symm)
  refine ⟨(x last).sent, fun n => ?_⟩
  rcases le_total n last with hle | hle
  · exact hmono hle
  · exact le_of_eq (congrArg Exchange.sent (hlast n hle))

def validPing : PingReq :=
  ⟨2, 1, 0, Config.plainToken 2 (Host.tokenData 1 0)⟩

/-- A `PING_REQ` is on its way. -/
def Exchange.pinging : Exchange :=
  ⟨.litedtInit (.globalConfigInit Config.plainToken) 1 0,
    .litedtInit (.globalConfigInit Config.plainToken) 2 0, {.pingReq validPing}, 0⟩

def Exchange.pinged : ℕ → Exchange
  | 0 => pinging
  | _ + 1 =>
      { pinging with
        left := pinging.left.litedtIoEvent (.plain 0) (.pingReq validPing)
        toLeft := 0
        toRight := pinging.toRight + pinging.left.replies (.plain 0) (.pingReq validPing) }

theorem replies_terminate_pinged :
    (Exchange.pinging.left.replies (.plain 0) (.pingReq validPing)).length = 1 ∧
      (∀ reply ∈ Exchange.pinging.left.replies (.plain 0) (.pingReq validPing),
        reply.rank < (Packet.pingReq validPing).rank) ∧
      ∃ bound, ∀ n, (Exchange.pinged n).sent ≤ bound := by
  have hcloses : ¬(Env.plain 0).Closes := by
    rintro ⟨sendCb, h, flow, writable, hsome, -⟩
    cases hsome
  obtain ⟨hrank, hbound⟩ := replies_terminate
  refine ⟨by decide +kernel, hrank _ _ _ hcloses, hbound Exchange.pinged fun n => ?_⟩
  cases n with
  | zero => exact .inl (.left (.plain 0) hcloses (.pingReq validPing) 0 rfl)
  | succ n => exact .inr rfl

end Liteflow

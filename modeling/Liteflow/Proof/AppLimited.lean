import Liteflow.Proof.RefineGauges
import Mathlib.Tactic.Abel

/-!
# The mark of the application limit

`app_limited` is a position in the count of packets: those delivered and in flight when the
application last had nothing more to send. A delivery moves a packet from one count to the other, so
the mark keeps its distance from the sum; `packet_abandon` lowers the sum and the mark together. Zero
means that there is no mark, and `packet_abandon` does not look whether there is one.
-/

namespace Liteflow

namespace Gauges

variable {g g' : Gauges} {act : GaugeAct} {acts : List GaugeAct}

/-- There is no mark, or it is not ahead of the packets delivered and in flight. -/
def Marked (g : Gauges) : Prop :=
  g.appLimited = 0 ∨ lessEqual g.appLimited (g.delivered + g.inflight) = true

/-- The packets in flight, and those delivered since the mark, are fewer than half of the range. -/
def Near (g : Gauges) : Prop :=
  g.inflight.toNat < 2 ^ 30 ∧ (g.appLimited = 0 ∨ (g.delivered - g.appLimited).toNat < 2 ^ 30 ∨
    2 ^ 31 ≤ (g.delivered - g.appLimited).toNat)

instance (g : Gauges) : Decidable g.Near :=
  inferInstanceAs (Decidable (_ ∧ _))

/-- An act finds the counters as it needs them. -/
def Careful (g : Gauges) : GaugeAct → Prop
  | .post => g.Near
  | .deliver => g.Near
  | .release n => n = 0 ∨ g.appLimited ≠ 0
  | .limit => g.delivered + g.inflight ≠ 0
  | _ => True

instance (g : Gauges) : (act : GaugeAct) → Decidable (g.Careful act)
  | .post => inferInstanceAs (Decidable g.Near)
  | .deliver => inferInstanceAs (Decidable g.Near)
  | .release n => inferInstanceAs (Decidable (n = 0 ∨ _))
  | .limit => inferInstanceAs (Decidable (_ ≠ _))
  | .sample _ => inferInstanceAs (Decidable True)
  | .probe => inferInstanceAs (Decidable True)
  | .pace _ => inferInstanceAs (Decidable True)

def CarefulRun : Gauges → List GaugeAct → Prop
  | _, [] => True
  | g, act :: rest => g.Careful act ∧ CarefulRun (g.apply act) rest

instance decidableCarefulRun : (g : Gauges) → (acts : List GaugeAct) → Decidable (g.CarefulRun acts)
  | _, [] => inferInstanceAs (Decidable True)
  | g, act :: rest =>
      have := decidableCarefulRun (g.apply act) rest
      inferInstanceAs (Decidable (g.Careful act ∧ CarefulRun (g.apply act) rest))

/-! ### The mark -/

theorem marked_iff :
    g.Marked ↔ g.appLimited = 0 ∨ (g.delivered + g.inflight - g.appLimited).toNat < 2 ^ 31 := by
  unfold Marked lessEqual Serial.le
  rw [decide_eq_true_iff]

theorem Marked.lt_of_near (hmarked : g.Marked) (hnear : g.Near) (hset : g.appLimited ≠ 0) :
    (g.delivered + g.inflight - g.appLimited).toNat + 1 < 2 ^ 31 := by
  have hlt := (marked_iff.mp hmarked).resolve_left hset
  have hsum : g.delivered + g.inflight - g.appLimited =
      (g.delivered - g.appLimited) + g.inflight := by abel
  rw [hsum, BitVec.toNat_add] at hlt ⊢
  have hinflight := hnear.1
  have hmark := hnear.2.resolve_left hset
  have hrange := (g.delivered - g.appLimited).isLt
  omega

theorem marked_of_grown (hmarked : g.Marked) (hnear : g.Near) (hmark : g'.appLimited = g.appLimited)
    (hsum : g'.delivered + g'.inflight = g.delivered + g.inflight ∨
      g'.delivered + g'.inflight = g.delivered + g.inflight + 1) : g'.Marked := by
  rw [marked_iff, hmark]
  by_cases hset : g.appLimited = 0
  · exact .inl hset
  · right
    have hlt := hmarked.lt_of_near hnear hset
    rcases hsum with hsum | hsum
    · rw [hsum]
      omega
    · have hnext : g.delivered + g.inflight + 1 - g.appLimited =
          g.delivered + g.inflight - g.appLimited + 1 := by abel
      rw [hsum, hnext, BitVec.toNat_add]
      exact Nat.lt_of_le_of_lt (Nat.mod_le _ _) hlt

theorem Marked.deliver (hmarked : g.Marked) (hnear : g.Near) : g.packetDelivered.Marked := by
  refine marked_of_grown hmarked hnear rfl ?_
  change advance g.delivered + (g.inflight - 1) = _ ∨ advance g.delivered + (g.inflight - 1) = _
  unfold advance orElse
  split
  · rename_i hwrapped
    right
    have hdelivered : g.delivered = -1 := eq_neg_of_add_eq_zero_left hwrapped
    rw [hdelivered]
    abel
  · left
    abel

theorem Marked.abandoned (hmarked : g.Marked) {k : Nat} (hk : k = 0 ∨ g.appLimited ≠ 0) :
    (packetAbandon^[k] g).Marked := by
  rcases hk with rfl | hset
  · exact hmarked
  · have hlt := (marked_iff.mp hmarked).resolve_left hset
    rw [packetAbandon_iterate, marked_iff]
    right
    dsimp only
    have hkept : g.delivered + (g.inflight - BitVec.ofNat 32 k) - (g.appLimited - BitVec.ofNat 32 k) =
        g.delivered + g.inflight - g.appLimited := by abel
    rwa [hkept]

theorem Marked.generateBandwidth (hmarked : g.Marked) (newlyDelivered : U32) :
    (g.generateBandwidth newlyDelivered).Marked := by
  have hcleared : g.clearAppLimited.Marked := by
    unfold clearAppLimited
    split
    · exact .inl rfl
    · exact hmarked
  unfold Gauges.generateBandwidth
  split
  · exact hcleared
  · unfold countRound
    split
    · exact hcleared
    · exact hcleared

theorem Marked.apply (hmarked : g.Marked) (hcareful : g.Careful act) : (g.apply act).Marked := by
  have hcounted : { g with counts := g.counts ++ [act] }.Marked := hmarked
  cases act with
  | post => exact marked_of_grown hmarked hcareful rfl (.inr (BitVec.add_assoc ..).symm)
  | deliver => exact hmarked.deliver hcareful
  | sample newlyDelivered => exact hcounted.generateBandwidth newlyDelivered
  | release n => exact hcounted.abandoned hcareful
  | limit =>
      have hset : g.limitedUntil = g.delivered + g.inflight := if_neg hcareful
      rw [marked_iff]
      right
      change (g.delivered + g.inflight - g.limitedUntil).toNat < 2 ^ 31
      rw [hset, BitVec.sub_self]
      decide
  | probe => exact hmarked
  | pace rate => exact hmarked

theorem Marked.run (hmarked : g.Marked) (hcareful : g.CarefulRun acts) : (g.run acts).Marked := by
  induction acts generalizing g with
  | nil => exact hmarked
  | cons act rest ih => exact ih (hmarked.apply hcareful.1) hcareful.2

theorem CarefulRun.of_append {before after : List GaugeAct}
    (hcareful : g.CarefulRun (before ++ after)) :
    g.CarefulRun before ∧ (g.run before).CarefulRun after := by
  induction before generalizing g with
  | nil => exact ⟨trivial, hcareful⟩
  | cons first rest ih => exact ⟨⟨hcareful.1, (ih hcareful.2).1⟩, (ih hcareful.2).2⟩

end Gauges

open Gauges in
/-- The counters of a host are the run of what it has done to them, one act after the other. If each
act found them as it needs them, then `app_limited` is no mark or one that the packets have reached:
in the state of the host, before each act, and between two packets that a release abandons. A release
leaves no mark where there was none. -/
theorem appLimited_marked (cfg : Config) (nodeId : U16) (now : Time)
    (events : List (Env × HostEvent)) :
    let start := (Host.litedtInit cfg nodeId now).gauges
    let h := (Host.litedtInit cfg nodeId now).run events
    h.gauges = start.run h.counts ∧
    (start.CarefulRun h.counts →
      h.gauges.Marked ∧
      ∀ before act after, h.counts = before ++ act :: after →
        (start.run before).Marked ∧
        ∀ n, act = .release n →
          (∀ k ≤ n, (packetAbandon^[k] (start.run before)).Marked) ∧
          ((start.run before).appLimited = 0 →
            (start.run (before ++ [.release n])).appLimited = 0)) := by
  intro start h
  have hrun : h.gauges = start.run h.counts := Host.gauges_run _ events rfl
  have hstart : start.Marked := .inr (show lessEqual 0xFFFFFFFF (1 + 0) = true by decide)
  refine ⟨hrun, fun hcareful => ⟨hrun ▸ hstart.run hcareful, ?_⟩⟩
  intro before act after hcounts
  rw [hcounts] at hcareful
  obtain ⟨hbefore, hact, -⟩ := hcareful.of_append
  refine ⟨hstart.run hbefore, ?_⟩
  rintro n rfl
  refine ⟨fun k hk => (hstart.run hbefore).abandoned (hact.imp (fun hn => by omega) id), fun hzero => ?_⟩
  rcases hact with rfl | hset
  · rw [Gauges.run, List.foldl_append]
    exact hzero
  · exact absurd hzero hset

/-- Three of six bytes have been sent for the credit at hand, so there is no new mark, and the
acknowledgement of the first one clears the old mark. -/
def Host.threeSent : List (Env × HostEvent) :=
  [(.plain 0, .time 1),
    (.plain 1, .io (.pingRsp .plain)),
    (.plain 2, .call (.connect 7 0)),
    (.plain 2, .call (.send 7 Payload.three)),
    (.plain 2, .call (.send 7 Payload.three)),
    (.plain 1001, .time 9),
    (.plain 1500, .io (.dataAck 7 { winStart := 1, winSize := 1000, acks := [] }))]

def Host.unmarked : Host :=
  (litedtInit .singleByte 1 0).run threeSent

/-- The transmit pass that sends the rest sets a mark, and then the connection is released. -/
def Host.allSent : List (Env × HostEvent) :=
  threeSent ++ [(.plain 20000, .time 9), (.plain 30000, .fini)]

theorem appLimited_marked_allSent :
    [.limit, .release 5] <:+ ((Host.litedtInit .singleByte 1 0).run Host.allSent).counts ∧
      ((Host.litedtInit .singleByte 1 0).run Host.allSent).gauges.Marked :=
  ⟨by decide +kernel, ((appLimited_marked .singleByte 1 0 Host.allSent).2 (by decide +kernel)).1⟩

/-- Two packets are in flight and there is no mark; their release makes one. -/
theorem appLimited_unmarked_released :
    Host.unmarked.appLimited = 0 ∧ Host.unmarked.inflight = 2 ∧
      (Host.unmarked.step (.plain 1600) .fini).appLimited = 0xFFFFFFFE := by
  decide +kernel

end Liteflow

import Liteflow.Proof.View

/-!
# Pacing rate and congestion window without overflow

`ctrl_time_event` computes its products in 64 bits and stores them in 32-bit fields before it clamps
them. `exactRate` and `exactCwnd` are what it would compute over the integers. The two agree as long as
these fit in 32 bits; beyond that only by luck.
-/

namespace Liteflow

/-! ### Exact values -/

namespace BbrMode

def pacingGain (round : U32) : BbrMode → Nat
  | startup => bbrHighGain
  | drain => bbrDrainGain
  | probeBw => bbrPacingGain round
  | probeRtt => bbrUnit

def cwndGain : BbrMode → Nat
  | startup => bbrHighGain
  | drain => bbrHighGain
  | probeBw => bbrCwndGain
  | probeRtt => bbrProbeRttGain

def aggregates : BbrMode → Bool
  | startup | probeBw => true
  | drain | probeRtt => false

end BbrMode

def clampRate (cfg : Config) (rate : Nat) : Nat :=
  min (max rate cfg.transmitRateMin.toNat) cfg.transmitRateMax.toNat

def withFec (cfg : Config) (rate : Nat) : Nat :=
  rate + if cfg.fecGroupSize = 0 then 0 else rate / cfg.fecGroupSize.toNat

structure PaceInput where
  cfg : Config
  mode : BbrMode
  round : U32
  bw : Nat
  rttMin : Nat

namespace PaceInput

variable (p : PaceInput)

def scaledRate : Nat :=
  p.bw * p.cfg.mtu.toNat * p.mode.pacingGain p.round / bbrUnit

def exactRate : Nat :=
  withFec p.cfg p.scaledRate

def bdp : Nat :=
  p.bw * p.rttMin / usecPerSec

def aggregation : Nat :=
  if p.mode.aggregates then p.bw * aggregationTime / usecPerSec else 0

def cwndOf (bdp : Nat) : Nat :=
  (max bdp bbrCwndMinTarget.toNat + p.aggregation) * p.mode.cwndGain / bbrUnit

def exactCwnd : Nat :=
  p.cwndOf p.bdp

/-- The rate fits in 32 bits, or there is but one rate, or what is left of it is still too high. -/
def RateFits : Prop :=
  p.exactRate < 2 ^ 32 ∨ p.cfg.transmitRateMin = p.cfg.transmitRateMax ∨
    p.cfg.transmitRateMax.toNat ≤ withFec p.cfg (p.scaledRate % 2 ^ 32) % 2 ^ 32

/-- The window and its first summand fit in 32 bits, or what is left of it is the largest value. -/
def CwndFits : Prop :=
  (p.bdp < 2 ^ 32 ∧ p.exactCwnd < 2 ^ 32) ∨ p.cwndOf (p.bdp % 2 ^ 32) % 2 ^ 32 = 2 ^ 32 - 1

end PaceInput

namespace Host

variable (h : Host)

/-- The mode after `check_drain`. -/
def modeInForce : BbrMode :=
  match h.enterDrain.ctrl.bbrMode with
  | .drain => if h.inflight ≤ h.enterDrain.ctrl.fullBdp then .probeBw else .drain
  | mode => mode

def paceBw : U32 :=
  umax h.getBw (h.cfg.transmitRateMin / h.cfg.mtu)

def paceRtt : U32 :=
  umax (orElse h.rttMin.filterGet h.cfg.maxRtt) bbrBdpMinRtt

def paceInput : PaceInput where
  cfg := h.cfg
  mode := h.modeInForce
  round := h.rttRound
  bw := h.paceBw.toNat
  rttMin := h.paceRtt.toNat

/-- `pacing_rate` and `snd_cwnd` are the exact values, clamped and capped. -/
structure Saturates (h h' : Host) : Prop where
  pacingRate : h'.pacingRate.toNat = clampRate h.cfg h.paceInput.exactRate
  sndCwnd : h'.sndCwnd.toNat = min h.paceInput.exactCwnd (2 ^ 32 - 1)
  two_le : 2 ≤ h'.sndCwnd.toNat

end Host

namespace PaceInput

variable {p : PaceInput}

theorem cwndGain_ge (mode : BbrMode) : 128 ≤ mode.cwndGain := by
  cases mode <;> decide

theorem withFec_mono (cfg : Config) {rate rate' : Nat} (hle : rate ≤ rate') :
    withFec cfg rate ≤ withFec cfg rate' := by
  unfold withFec
  split
  · exact Nat.add_le_add_right hle 0
  · exact Nat.add_le_add hle (Nat.div_le_div_right hle)

theorem le_withFec (cfg : Config) (rate : Nat) : rate ≤ withFec cfg rate :=
  Nat.le_add_right _ _

theorem cwndOf_mono (p : PaceInput) {bdp bdp' : Nat} (hle : bdp ≤ bdp') :
    p.cwndOf bdp ≤ p.cwndOf bdp' := by
  unfold cwndOf
  apply Nat.div_le_div_right
  apply Nat.mul_le_mul_right
  omega

theorem exactCwnd_mono {bw : Nat} (hle : p.bw ≤ bw) :
    p.exactCwnd ≤ { p with bw := bw }.exactCwnd := by
  have hbdp : p.bdp ≤ { p with bw := bw }.bdp :=
    Nat.div_le_div_right (Nat.mul_le_mul_right _ hle)
  have haggregation : p.aggregation ≤ { p with bw := bw }.aggregation := by
    unfold aggregation
    split
    · exact Nat.div_le_div_right (Nat.mul_le_mul_right _ hle)
    · exact le_rfl
  unfold exactCwnd cwndOf
  apply Nat.div_le_div_right
  apply Nat.mul_le_mul_right
  omega

theorem cwndOf_lt (p : PaceInput) {bdp bdp' : Nat} (hmin : 4 ≤ bdp) (hlt : bdp + 2 ≤ bdp') :
    p.cwndOf bdp < p.cwndOf bdp' := by
  have hgain := cwndGain_ge p.mode
  unfold cwndOf bbrUnit bbrCwndMinTarget
  generalize p.mode.cwndGain = gain at hgain ⊢
  have hstep : (max bdp (4 : U32).toNat + p.aggregation) * gain + 256 ≤
      (max bdp' (4 : U32).toNat + p.aggregation) * gain := by
    calc (max bdp (4 : U32).toNat + p.aggregation) * gain + 256
        ≤ (max bdp (4 : U32).toNat + p.aggregation) * gain + 2 * gain := by omega
      _ = (max bdp (4 : U32).toNat + p.aggregation + 2) * gain := (Nat.add_mul _ 2 gain).symm
      _ ≤ (max bdp' (4 : U32).toNat + p.aggregation) * gain := by
          apply Nat.mul_le_mul_right
          have : (4 : U32).toNat = 4 := rfl
          omega
  omega

theorem two_le_exactCwnd (p : PaceInput) : 2 ≤ p.exactCwnd := by
  have hgain := cwndGain_ge p.mode
  have hmin : (4 : Nat) * 128 ≤ (max p.bdp bbrCwndMinTarget.toNat + p.aggregation) *
      p.mode.cwndGain := by
    apply Nat.mul_le_mul _ hgain
    have : bbrCwndMinTarget.toNat = 4 := rfl
    omega
  unfold exactCwnd cwndOf bbrUnit
  omega

/-! ### What is left of the exact values in 32 bits -/

theorem clampRate_low_iff (hle : p.cfg.transmitRateMin.toNat ≤ p.cfg.transmitRateMax.toNat) :
    clampRate p.cfg (withFec p.cfg (p.scaledRate % 2 ^ 32) % 2 ^ 32) =
      clampRate p.cfg p.exactRate ↔ p.RateFits := by
  have hmax := p.cfg.transmitRateMax.isLt
  have hexact : p.exactRate < 2 ^ 32 →
      withFec p.cfg (p.scaledRate % 2 ^ 32) % 2 ^ 32 = p.exactRate := by
    intro hlt
    have hscaled : p.scaledRate < 2 ^ 32 := lt_of_le_of_lt (le_withFec _ _) hlt
    rw [Nat.mod_eq_of_lt hscaled]
    exact Nat.mod_eq_of_lt hlt
  have hminmax : p.cfg.transmitRateMin = p.cfg.transmitRateMax ↔
      p.cfg.transmitRateMin.toNat = p.cfg.transmitRateMax.toNat :=
    BitVec.toNat_inj.symm
  unfold RateFits clampRate
  rw [hminmax]
  generalize withFec p.cfg (p.scaledRate % 2 ^ 32) % 2 ^ 32 = low at hexact ⊢
  omega

theorem cwndOf_low_iff :
    (p.cwndOf (p.bdp % 2 ^ 32) % 2 ^ 32 = min p.exactCwnd (2 ^ 32 - 1) ∧
      2 ≤ p.cwndOf (p.bdp % 2 ^ 32) % 2 ^ 32) ↔ p.CwndFits := by
  have hlow : p.cwndOf (p.bdp % 2 ^ 32) ≤ p.exactCwnd := p.cwndOf_mono (Nat.mod_le _ _)
  have hmod : p.cwndOf (p.bdp % 2 ^ 32) % 2 ^ 32 ≤ p.cwndOf (p.bdp % 2 ^ 32) := Nat.mod_le _ _
  have htwo := p.two_le_exactCwnd
  have hfits : p.bdp < 2 ^ 32 → p.cwndOf (p.bdp % 2 ^ 32) = p.exactCwnd := fun hlt => by
    rw [Nat.mod_eq_of_lt hlt, exactCwnd]
  -- a first summand that has lost bits gives a window that is too small
  have hlost : 2 ^ 32 ≤ p.bdp → p.cwndOf (p.bdp % 2 ^ 32) < p.exactCwnd := by
    intro hge
    have hsmall : p.bdp % 2 ^ 32 + 2 ^ 32 ≤ p.bdp := by omega
    calc p.cwndOf (p.bdp % 2 ^ 32) ≤ p.cwndOf (max (p.bdp % 2 ^ 32) 4) :=
          p.cwndOf_mono (Nat.le_max_left _ _)
      _ < p.exactCwnd := p.cwndOf_lt (Nat.le_max_right _ _) (by omega)
  unfold CwndFits
  generalize p.cwndOf (p.bdp % 2 ^ 32) = low at *
  omega

end PaceInput

namespace Host

variable (h : Host)

def updateInput : PaceInput where
  cfg := h.cfg
  mode := h.ctrl.bbrMode
  round := h.rttRound
  bw := h.paceBw.toNat
  rttMin := h.paceRtt.toNat

theorem toNat_getBdp (bw : U32) :
    (h.getBdp bw).toNat = bw.toNat * h.paceRtt.toNat / usecPerSec % 2 ^ 32 := by
  have hrtt : (if orElse h.rttMin.filterGet h.cfg.maxRtt < bbrBdpMinRtt then bbrBdpMinRtt
      else orElse h.rttMin.filterGet h.cfg.maxRtt).toNat = h.paceRtt.toNat := by
    rw [paceRtt, umax_toNat]
    split <;> rename_i hlt <;> rw [BitVec.lt_def] at hlt <;> omega
  unfold getBdp
  dsimp only
  rw [BitVec.toNat_ofNat, hrtt]

theorem toNat_getAckAggregationCwnd (bw : U32) :
    (getAckAggregationCwnd bw).toNat = bw.toNat * aggregationTime / usecPerSec := by
  have hlt : bw.toNat * aggregationTime / usecPerSec < 2 ^ 32 := by
    have := bw.isLt
    unfold aggregationTime usecPerSec
    omega
  rw [getAckAggregationCwnd, BitVec.toNat_ofNat, Nat.mod_eq_of_lt hlt]

theorem toNat_scaled (value gain : Nat) :
    (scaled value gain).toNat = value * gain / bbrUnit % 2 ^ 32 := by
  rw [scaled, BitVec.toNat_ofNat, Nat.shiftRight_eq_div_pow]
  rfl

theorem toNat_addPacingRateFec :
    h.addPacingRateFec.pacingRate.toNat = withFec h.cfg h.pacingRate.toNat % 2 ^ 32 := by
  simp only [addPacingRateFec, getPacingRateFec, BitVec.toNat_add, withFec]
  split <;> simp

theorem updatePacingRate_eq :
    h.updatePacingRate =
      { h with
        pacingRate := scaled (h.paceBw.toNat * h.cfg.mtu.toNat) (h.ctrl.bbrMode.pacingGain h.rttRound)
        sndCwnd := scaled (max (h.getBdp h.paceBw).toNat bbrCwndMinTarget.toNat +
            if h.ctrl.bbrMode.aggregates then (getAckAggregationCwnd h.paceBw).toNat else 0)
          h.ctrl.bbrMode.cwndGain }.addPacingRateFec := by
  unfold updatePacingRate
  dsimp only
  cases hmode : h.ctrl.bbrMode <;> rfl

theorem updatePacingRate_spec :
    h.updatePacingRate.pacingRate.toNat =
        withFec h.cfg (h.updateInput.scaledRate % 2 ^ 32) % 2 ^ 32 ∧
      h.updatePacingRate.sndCwnd.toNat =
        h.updateInput.cwndOf (h.updateInput.bdp % 2 ^ 32) % 2 ^ 32 := by
  rw [updatePacingRate_eq]
  refine ⟨?_, ?_⟩
  · rw [toNat_addPacingRateFec, toNat_scaled]
    rfl
  · dsimp only [addPacingRateFec]
    rw [toNat_scaled, toNat_getBdp, toNat_getAckAggregationCwnd]
    rfl

theorem updateInput_checkDrain :
    h.checkDrain.updateInput = { h.updateInput with mode := h.checkDrain.ctrl.bbrMode } := by
  have henter : h.enterDrain.updateInput =
      { h.updateInput with mode := h.enterDrain.ctrl.bbrMode } := by
    unfold enterDrain
    split <;> rfl
  have hdrain : ∀ h' : Host, h'.drain.updateInput =
      { h'.updateInput with mode := h'.drain.ctrl.bbrMode } := by
    intro h'
    unfold drain
    split
    · dsimp only
      split <;> rfl
    · rfl
  rw [checkDrain, hdrain, henter]

theorem bbrMode_checkDrain : h.checkDrain.ctrl.bbrMode = h.modeInForce := by
  have hinflight : h.enterDrain.inflight = h.inflight := by
    unfold enterDrain
    split <;> rfl
  unfold checkDrain drain modeInForce
  rw [hinflight]
  cases hmode : h.enterDrain.ctrl.bbrMode <;> simp [hmode]
  split <;> simp_all [leaveDrain, limit, count]

theorem modeInForce_roundStart :
    { h with ctrl := { h.ctrl with roundStart := true } }.modeInForce = h.modeInForce := by
  have henter : { h with ctrl := { h.ctrl with roundStart := true } }.enterDrain.ctrl =
      { h.enterDrain.ctrl with roundStart := true } := by
    unfold enterDrain
    dsimp only
    split <;> rfl
  unfold modeInForce
  rw [henter]

theorem ctrlTimeEvent_spec (hround : h.rttRound ≠ h.ctrl.priorRttRound) :
    h.ctrlTimeEvent.pacingRate.toNat =
        clampRate h.cfg (withFec h.cfg (h.paceInput.scaledRate % 2 ^ 32) % 2 ^ 32) ∧
      h.ctrlTimeEvent.sndCwnd.toNat = h.paceInput.cwndOf (h.paceInput.bdp % 2 ^ 32) % 2 ^ 32 := by
  set started : Host := { h with ctrl := { h.ctrl with roundStart := true } } with hstarted
  have hinput : started.checkDrain.updateInput = h.paceInput := by
    rw [updateInput_checkDrain, bbrMode_checkDrain, hstarted, modeInForce_roundStart]
    rfl
  obtain ⟨hrate, hcwnd⟩ := started.checkDrain.updatePacingRate_spec
  have hcfg : started.checkDrain.cfg = h.cfg := congrArg PaceInput.cfg hinput
  have hcfg' : started.checkDrain.updatePacingRate.cfg = h.cfg := by
    rw [updatePacingRate_eq]
    exact hcfg
  rw [hinput, hcfg] at hrate
  rw [hinput] at hcwnd
  rw [ctrlTimeEvent, if_neg hround]
  dsimp only
  rw [← hstarted]
  refine ⟨?_, hcwnd⟩
  rw [pacingRatePostcheck, umin_toNat, umax_toNat, hrate, hcfg', clampRate]

theorem saturates_iff_fits {h : Host}
    (hmax : h.cfg.transmitRateMin.toNat ≤ h.cfg.transmitRateMax.toNat)
    (hround : h.rttRound ≠ h.ctrl.priorRttRound) :
    Saturates h h.ctrlTimeEvent ↔ h.paceInput.RateFits ∧ h.paceInput.CwndFits := by
  obtain ⟨hrate, hcwnd⟩ := h.ctrlTimeEvent_spec hround
  rw [← PaceInput.clampRate_low_iff hmax, ← PaceInput.cwndOf_low_iff]
  constructor
  · intro hsat
    exact ⟨hrate.symm.trans hsat.pacingRate, hcwnd ▸ hsat.sndCwnd, hcwnd ▸ hsat.two_le⟩
  · intro hfits
    exact ⟨hrate.trans hfits.1, hcwnd.trans hfits.2.1, hcwnd ▸ hfits.2.2⟩

/-- The rate and the window at the start of a round are the exact ones, clamped and capped, if and
only if the exact ones fit in 32 bits or the loss of bits does not show. Both then grow with the
bandwidth. -/
theorem saturates_iff {h : Host}
    (hmax : h.cfg.transmitRateMin.toNat ≤ h.cfg.transmitRateMax.toNat)
    (hround : h.rttRound ≠ h.ctrl.priorRttRound) :
    (Saturates h h.ctrlTimeEvent ↔ h.paceInput.RateFits ∧ h.paceInput.CwndFits) ∧
      ∀ h' : Host, h'.rttRound ≠ h'.ctrl.priorRttRound →
        h'.paceInput = { h.paceInput with bw := h'.paceBw.toNat } → h.paceBw ≤ h'.paceBw →
        h.paceInput.RateFits ∧ h.paceInput.CwndFits → h'.paceInput.RateFits ∧ h'.paceInput.CwndFits →
        h.ctrlTimeEvent.pacingRate ≤ h'.ctrlTimeEvent.pacingRate ∧
          h.ctrlTimeEvent.sndCwnd ≤ h'.ctrlTimeEvent.sndCwnd := by
  refine ⟨saturates_iff_fits hmax hround, fun h' hround' hinput hbw hfits hfits' => ?_⟩
  have hcfg : h'.cfg = h.cfg := congrArg PaceInput.cfg hinput
  have hsat := (saturates_iff_fits hmax hround).mpr hfits
  have hsat' := (saturates_iff_fits (by rw [hcfg]; exact hmax) hround').mpr hfits'
  have hle : h.paceInput.bw ≤ h'.paceBw.toNat := hbw
  have hrate : h.paceInput.exactRate ≤ h'.paceInput.exactRate := by
    rw [hinput]
    apply PaceInput.withFec_mono
    apply Nat.div_le_div_right
    apply Nat.mul_le_mul_right
    exact Nat.mul_le_mul_right _ hle
  have hcwnd : h.paceInput.exactCwnd ≤ h'.paceInput.exactCwnd := by
    rw [hinput]
    exact PaceInput.exactCwnd_mono hle
  refine ⟨BitVec.le_def.mpr ?_, BitVec.le_def.mpr ?_⟩
  · rw [hsat.pacingRate, hsat'.pacingRate, hcfg]
    unfold clampRate
    omega
  · rw [hsat.sndCwnd, hsat'.sndCwnd]
    omega

def estimating (bw : U32) : Host :=
  { litedtInit (.globalConfigInit Config.plainToken) 1 0 with
    bw := (WindowedFilter.filterInit 10).filterReset 0 bw }

theorem saturates_thousand :
    Saturates (estimating 1000) (estimating 1000).ctrlTimeEvent ∧
      (estimating 1000).ctrlTimeEvent.pacingRate ≤ (estimating 2000).ctrlTimeEvent.pacingRate := by
  have hiff := saturates_iff (h := estimating 1000) (by decide) (by decide)
  have hfits : ∀ bw : U32, bw = 1000 ∨ bw = 2000 →
      (estimating bw).paceInput.RateFits ∧ (estimating bw).paceInput.CwndFits := by
    rintro bw (rfl | rfl) <;>
      exact ⟨.inl (by decide +kernel), .inl ⟨by decide +kernel, by decide +kernel⟩⟩
  exact ⟨hiff.1.mpr (hfits 1000 (.inl rfl)), (hiff.2 (estimating 2000) (by decide) rfl (by decide)
    (hfits 1000 (.inl rfl)) (hfits 2000 (.inr rfl))).1⟩

/-- At 1041904 packets a second the rate is a little more than `2 ^ 32`, and what is left of it below
`transmit_rate_min`. -/
theorem not_saturates_fast :
    (estimating 1041904).paceInput.exactRate = 4294972484 ∧
      clampRate (estimating 1041904).cfg 4294972484 = 104857600 ∧
      (estimating 1041904).ctrlTimeEvent.pacingRate = 10240 ∧
      ¬ Saturates (estimating 1041904) (estimating 1041904).ctrlTimeEvent := by
  have hexact : (estimating 1041904).paceInput.exactRate = 4294972484 := by decide +kernel
  have hclamp : clampRate (estimating 1041904).cfg 4294972484 = 104857600 := by decide +kernel
  have hrate : (estimating 1041904).ctrlTimeEvent.pacingRate = 10240 := by decide +kernel
  refine ⟨hexact, hclamp, hrate, fun hsat => ?_⟩
  have hpacing := hsat.pacingRate
  rw [hexact, hclamp, hrate] at hpacing
  exact absurd hpacing (by decide)

end Host

end Liteflow

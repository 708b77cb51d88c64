import Liteflow.Host

/-!
# Congestion control

`ctrl.c`. It reads the bandwidth and round-trip filters of the host and sets `pacing_rate` and
`snd_cwnd`. Products that the source computes in 64 bits do not overflow and are taken in `Nat`.
-/

namespace Liteflow

def bbrScale : Nat := 8
def bbrUnit : Nat := 256
def aggregationTime : Nat := 20000
def bbrHighGain : Nat := 739
def bbrDrainGain : Nat := 88
def bbrProbeRttGain : Nat := 128
def bbrCwndGain : Nat := 512
def bbrFullBwThresh : Nat := 320
def bbrCwndMinTarget : U32 := 4
def bbrFullBwCnt : Nat := 3
def bbrProbeRttModeUs : Time := 200000
def bbrMinRttWinSec : Time := 10
def bbrBdpMinRtt : U32 := 1500

/-- `bbr_pacing_gain[round & 0x7]`. -/
def bbrPacingGain (round : U32) : Nat :=
  match round.toNat % 8 with
  | 0 => 320
  | 1 => 192
  | _ => 256

/-- `a ? : b`. -/
def orElse (a b : U32) : U32 :=
  if a = 0 then b else a

namespace CtrlMod

def init (curTime : Time) : CtrlMod where
  bbrMode := .startup
  priorRttRound := BitVec.allOnes 32
  fullBw := 0
  fullBdp := 0
  minRttUs := 0
  minRttStamp := curTime.tdiv usecPerSec - bbrMinRttWinSec - 1
  probeRttDoneStamp := 0
  probeRttCwndTarget := 0
  probeRttRoundDone := false
  priorBw := 0
  fullBwReached := false
  fullBwCnt := 0
  roundStart := false

end CtrlMod

namespace Host

def getBw (h : Host) : U32 :=
  orElse h.bw.filterGet (h.cfg.transmitRateInit / h.cfg.mtu)

def getBdp (h : Host) (bw : U32) : U32 :=
  let rttMin := orElse h.rttMin.filterGet h.cfg.maxRtt
  let rttMin := if rttMin < bbrBdpMinRtt then bbrBdpMinRtt else rttMin
  BitVec.ofNat 32 (bw.toNat * rttMin.toNat / usecPerSec)

def getAckAggregationCwnd (bw : U32) : U32 :=
  BitVec.ofNat 32 (bw.toNat * aggregationTime / usecPerSec)

def getPacingRateFec (h : Host) (pacingRate : U32) : U32 :=
  if h.cfg.fecGroupSize = 0 then 0 else pacingRate / h.cfg.fecGroupSize

/-- `host->pacing_rate += get_pacing_rate_fec(ctrl, host->pacing_rate)`. -/
def addPacingRateFec (h : Host) : Host :=
  { h with pacingRate := h.pacingRate + h.getPacingRateFec h.pacingRate }

/-- `(host->delivered + host->inflight) ? : 1`. -/
def limitedUntil (h : Host) : U32 :=
  orElse (h.delivered + h.inflight) 1

def limit (h : Host) : Host :=
  { h.count .limit with appLimited := h.limitedUntil }

/-- `value * gain >> BBR_SCALE`. -/
def scaled (value gain : Nat) : U32 :=
  BitVec.ofNat 32 ((value * gain) >>> bbrScale)

def updatePacingRate (h : Host) : Host :=
  let bw := umax h.getBw (h.cfg.transmitRateMin / h.cfg.mtu)
  let cwnd := max (h.getBdp bw).toNat bbrCwndMinTarget.toNat
  let bwBytes := bw.toNat * h.cfg.mtu.toNat
  let aggregated := cwnd + (getAckAggregationCwnd bw).toNat
  let paced :=
    match h.ctrl.bbrMode with
    | .startup =>
        { h with pacingRate := scaled bwBytes bbrHighGain, sndCwnd := scaled aggregated bbrHighGain }
    | .drain =>
        { h with pacingRate := scaled bwBytes bbrDrainGain, sndCwnd := scaled cwnd bbrHighGain }
    | .probeBw =>
        { h with
          pacingRate := scaled bwBytes (bbrPacingGain h.rttRound)
          sndCwnd := scaled aggregated bbrCwndGain }
    | .probeRtt =>
        { h with pacingRate := scaled bwBytes bbrUnit, sndCwnd := scaled cwnd bbrProbeRttGain }
  paced.addPacingRateFec

def pacingRatePostcheck (h : Host) : Host :=
  { h.count (.pace h.pacingRate) with
    pacingRate := umin (umax h.pacingRate h.cfg.transmitRateMin) h.cfg.transmitRateMax }

def checkProbeRttDone (h : Host) : Host :=
  if h.ctrl.probeRttDoneStamp ≠ 0 ∧ h.ctrl.probeRttDoneStamp < h.curTime then
    let cwnd := max (h.getBdp h.ctrl.priorBw).toNat bbrCwndMinTarget.toNat +
      (getAckAggregationCwnd h.ctrl.priorBw).toNat
    let paced := { h with pacingRate := h.ctrl.priorBw * h.cfg.mtu }.addPacingRateFec
    { paced with
      sndCwnd := scaled cwnd bbrCwndGain
      ctrl := { h.ctrl with
        minRttStamp := h.curTime.tdiv usecPerSec
        bbrMode := .probeBw } }.pacingRatePostcheck
  else
    h

/-- The samples of `update_min_rtt`. -/
def sampleMinRtt (h : Host) (rs : RateSample) : Host :=
  let curTimeS := h.curTime.tdiv usecPerSec
  let t := BitVec.ofInt 32 curTimeS
  let filtered :=
    if rs.rttUs = 0 then h.rttMin
    else if h.rttMin.filterGet ≠ 0 then h.rttMin.filterUpdateMin t rs.rttUs
    else h.rttMin.filterReset t rs.rttUs
  let expired := h.ctrl.minRttStamp + bbrMinRttWinSec < curTimeS
  let sampled :=
    if rs.rttUs ≠ 0 ∧ (rs.rttUs < h.ctrl.minRttUs ∨ expired) then
      { h.ctrl with minRttUs := rs.rttUs, minRttStamp := curTimeS }
    else
      h.ctrl
  { h with rttMin := filtered, ctrl := sampled }

/-- Entering the mode that probes for the minimum. -/
def enterProbeRtt (h : Host) (expired : Bool) : Host :=
  if expired ∧ h.ctrl.bbrMode = .probeBw then
    let bw := h.bw.filterGet
    let cwnd := max (h.getBdp bw).toNat bbrCwndMinTarget.toNat
    { h with
      ctrl := { h.ctrl with
        bbrMode := .probeRtt
        priorBw := bw
        probeRttCwndTarget := scaled cwnd bbrProbeRttGain
        probeRttDoneStamp := 0 } }
  else
    h

/-- One turn in that mode: at least 200 ms and a round with few packets in flight. -/
def probeRtt (h : Host) : Host :=
  if h.ctrl.bbrMode = .probeRtt then
    let limited := h.limit
    if h.ctrl.probeRttDoneStamp = 0 ∧ h.inflight ≤ h.ctrl.probeRttCwndTarget then
      { limited.count .probe with
        nextRttDelivered := h.delivered
        ctrl := { h.ctrl with
          probeRttDoneStamp := h.curTime + bbrProbeRttModeUs
          probeRttRoundDone := false } }
    else if h.ctrl.probeRttDoneStamp ≠ 0 then
      let roundDone := h.ctrl.roundStart || h.ctrl.probeRttRoundDone
      let counted := { limited with ctrl := { h.ctrl with probeRttRoundDone := roundDone } }
      if roundDone then counted.checkProbeRttDone else counted
    else
      limited
  else
    h

def updateMinRtt (h : Host) (rs : RateSample) : Host :=
  let expired : Bool := h.ctrl.minRttStamp + bbrMinRttWinSec < h.curTime.tdiv usecPerSec
  ((h.sampleMinRtt rs).enterProbeRtt expired).probeRtt

def checkFullBwReached (h : Host) (rs : RateSample) : Host :=
  if h.ctrl.fullBwReached ∨ h.ctrl.roundStart = false ∨ rs.isAppLimited then
    h
  else if scaled h.ctrl.fullBw.toNat bbrFullBwThresh ≤ h.bw.filterGet then
    { h with ctrl := { h.ctrl with fullBw := h.bw.filterGet, fullBwCnt := 0 } }
  else
    let cnt := h.ctrl.fullBwCnt + 1
    { h with
      ctrl := { h.ctrl with fullBwCnt := cnt, fullBwReached := bbrFullBwCnt ≤ cnt.toNat } }

def enterDrain (h : Host) : Host :=
  if h.ctrl.bbrMode = .startup ∧ h.ctrl.fullBwReached then
    { h with ctrl := { h.ctrl with bbrMode := .drain, fullBdp := h.getBdp h.ctrl.fullBw } }
  else
    h

/-- "recover full bw and cwnd". -/
def leaveDrain (h : Host) : Host :=
  let cwnd := umax h.ctrl.fullBdp bbrCwndMinTarget + getAckAggregationCwnd h.ctrl.fullBw
  let paced := { h with pacingRate := h.ctrl.fullBw * h.cfg.mtu }.addPacingRateFec
  { paced with
    -- here `cwnd` is a `uint32_t`, so the product wraps
    sndCwnd := (cwnd * BitVec.ofNat 32 bbrCwndGain) >>> bbrScale
    ctrl := { h.ctrl with bbrMode := .probeBw } }

def drain (h : Host) : Host :=
  if h.ctrl.bbrMode = .drain then
    if h.inflight ≤ h.ctrl.fullBdp then h.limit.leaveDrain else h.limit
  else
    h

def checkDrain (h : Host) : Host :=
  h.enterDrain.drain

def ctrlTimeEvent (h : Host) : Host :=
  if h.rttRound = h.ctrl.priorRttRound then
    h
  else
    let started := { h with ctrl := { h.ctrl with roundStart := true } }
    let paced := started.checkDrain.updatePacingRate.pacingRatePostcheck
    { paced with ctrl := { paced.ctrl with priorRttRound := h.rttRound } }

def ctrlIoEvent (h : Host) (rs : RateSample) : Host :=
  let checked := (h.checkFullBwReached rs).updateMinRtt rs
  { checked with ctrl := { checked.ctrl with roundStart := false } }

end Host

end Liteflow

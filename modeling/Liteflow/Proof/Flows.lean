import Liteflow.Flows
import Liteflow.Proof.Keyed
import Mathlib.Data.Finset.Card

/-!
# The flows of a peer are a finite map, within half the range of ids

`seq_cmp` orders ids that lie within half the range of each other, and the table of a peer is a search
tree for such ids. Beyond that it is not an order: of three ids each may precede the next one, and the
tree loses an id when it is rebuilt around another.

The ids a node allocates carry one bit that says which of the two ends is the greater one. One operand
of that comparison has 32 bits and the other 16.
-/

namespace Liteflow

/-! ### Lookup -/

def InHalf (base flow : U32) : Prop :=
  (flow - base).toNat < 2 ^ 31

instance (base flow : U32) : Decidable (InHalf base flow) :=
  inferInstanceAs (Decidable (_ < _))

namespace FlowCall

def flow : FlowCall → U32
  | create flow => flow
  | release flow => flow

def Live (calls : List FlowCall) (g : U32) : Prop :=
  ∃ before after, calls = before ++ create g :: after ∧ release g ∉ after

theorem not_live_nil (g : U32) : ¬ Live [] g := by
  rintro ⟨before, after, heq, -⟩
  exact absurd heq.symm (by simp)

theorem live_concat (calls : List FlowCall) (call : FlowCall) (g : U32) :
    Live (calls ++ [call]) g ↔ call = create g ∨ (call ≠ release g ∧ Live calls g) := by
  constructor
  · rintro ⟨before, after, heq, hafter⟩
    rcases List.eq_nil_or_concat' after with rfl | ⟨front, last, rfl⟩
    · have hlast := (List.append_inj' heq rfl).2
      exact .inl (by simpa using hlast)
    · rw [← List.cons_append, ← List.append_assoc] at heq
      obtain ⟨rfl, hlast⟩ := List.append_inj' heq rfl
      obtain rfl : call = last := by simpa using hlast
      simp only [List.mem_append, List.mem_singleton, not_or] at hafter
      exact .inr ⟨fun hcall => hafter.2 hcall.symm, before, front, rfl, hafter.1⟩
  · rintro (rfl | ⟨hne, before, after, rfl, hafter⟩)
    · exact ⟨calls, [], rfl, by simp⟩
    · refine ⟨before, after ++ [call], by simp, ?_⟩
      simp only [List.mem_append, List.mem_singleton, not_or]
      exact ⟨hafter, fun hcall => hne hcall.symm⟩

theorem runAll_concat (calls : List FlowCall) (call : FlowCall) :
    runAll (calls ++ [call]) = call.run (runAll calls) :=
  List.foldl_concat ..

end FlowCall

open FlowCall

structure AnswersFor (calls : List FlowCall) (g : U32) : Prop where
  flow_eq : ∀ info, (runAll calls).findFlow g = some info → info.flow = g
  find_iff : ((runAll calls).findFlow g).isSome = true ↔ Live calls g
  create_iff : ((runAll calls).createFlow g).1 = liteflowRecordExists ↔ Live calls g
  release_keeps : ∀ before f after, calls = before ++ release f :: after → f ≠ g →
    ((runAll before).findFlow g).isSome = true →
      (((runAll before).releaseFlow f).findFlow g).isSome = true

section HalfRange

variable {base : U32} {calls : List FlowCall} {g : U32}

def placeOf (base g : U32) : Nat :=
  base.toNat + (g - base).toNat

theorem wire_placeOf (base g : U32) : wire (placeOf base g) = g := by
  have hplace := Serial.ofNat_add_toNat_sub base.toNat g
  rwa [BitVec.ofNat_toNat, BitVec.setWidth_eq] at hplace

theorem placeOf_inj {f : U32} : placeOf base f = placeOf base g ↔ f = g := by
  refine ⟨fun heq => ?_, fun heq => heq ▸ rfl⟩
  rw [← wire_placeOf base f, heq, wire_placeOf]

theorem InHalf.placeOf_le (hg : InHalf base g) :
    base.toNat ≤ placeOf base g ∧ placeOf base g ≤ base.toNat + (2 ^ 31 - 1) := by
  unfold InHalf at hg
  unfold placeOf
  omega

structure TableHolds (base : U32) (calls : List FlowCall) (entries : List (Nat × FlowInfo)) :
    Prop where
  keyed : Keyed (runAll calls) base.toNat (base.toNat + (2 ^ 31 - 1)) entries
  info_eq : ∀ e ∈ entries, e.2 = { flow := wire e.1 }
  live_iff : ∀ g, InHalf base g → ((∃ e ∈ entries, e.1 = placeOf base g) ↔ Live calls g)

theorem TableHolds.find_of_live {entries : List (Nat × FlowInfo)}
    (htable : TableHolds base calls entries) (hg : InHalf base g) (hlive : Live calls g) :
    (runAll calls).findFlow g = some { flow := g } := by
  obtain ⟨⟨p, info⟩, hmem, rfl⟩ := (htable.live_iff g hg).mpr hlive
  have hinfo := htable.info_eq _ hmem
  obtain ⟨before, after, rfl⟩ := List.append_of_mem hmem
  have hget := htable.keyed.get_split
  rw [wire_placeOf] at hget hinfo
  exact hget.trans (congrArg some hinfo)

theorem TableHolds.find_of_not_live {entries : List (Nat × FlowInfo)}
    (htable : TableHolds base calls entries) (hg : InHalf base g) (hlive : ¬ Live calls g) :
    (runAll calls).findFlow g = none := by
  have hbounds := hg.placeOf_le
  have hnone := htable.keyed.get_none hbounds.1 hbounds.2
    fun e he heq => hlive ((htable.live_iff g hg).mp ⟨e, he, heq⟩)
  rwa [wire_placeOf] at hnone

theorem tableHolds_nil (base : U32) : TableHolds base [] [] where
  keyed := Keyed.nil (by omega)
  info_eq := by simp
  live_iff := fun g _ => by simpa using not_live_nil g

theorem TableHolds.create_new {entries : List (Nat × FlowInfo)}
    (htable : TableHolds base calls entries) (hg : InHalf base g) (hlive : ¬ Live calls g) :
    ((runAll calls).createFlow g).1 = 0 ∧
      ∃ entries', TableHolds base (calls ++ [create g]) entries' := by
  have hbounds := hg.placeOf_le
  obtain ⟨hret, before, after, rfl, hkeyed⟩ := htable.keyed.insert_new hbounds.1 hbounds.2
    (fun e he heq => hlive ((htable.live_iff g hg).mp ⟨e, he, heq⟩)) { flow := g }
  have hcreate : (runAll calls).createFlow g =
      (runAll calls).treemapInsert seqCmp (wire (placeOf base g)) { flow := g } := by
    rw [FlowMap.createFlow, htable.find_of_not_live hg hlive, wire_placeOf]
    rfl
  refine ⟨hcreate ▸ hret, before ++ (placeOf base g, { flow := g }) :: after, ?_, ?_, ?_⟩
  · rw [runAll_concat, FlowCall.run, hcreate]
    exact hkeyed
  · exact forall_middle.mpr ⟨by simp only [wire_placeOf], htable.info_eq⟩
  · intro f hf
    rw [live_concat, ← htable.live_iff f hf, exists_middle, placeOf_inj]
    simp only [create.injEq, ne_eq, reduceCtorEq, not_false_eq_true, true_and]

theorem TableHolds.create_live {entries : List (Nat × FlowInfo)}
    (htable : TableHolds base calls entries) (hg : InHalf base g) (hlive : Live calls g) :
    ((runAll calls).createFlow g).1 = liteflowRecordExists ∧
      TableHolds base (calls ++ [create g]) entries := by
  have hcreate : (runAll calls).createFlow g = (liteflowRecordExists, runAll calls) := by
    rw [FlowMap.createFlow, htable.find_of_live hg hlive]
    rfl
  refine ⟨by rw [hcreate], ?_, htable.info_eq, fun f hf => ?_⟩
  · rw [runAll_concat, FlowCall.run, hcreate]
    exact htable.keyed
  · rw [live_concat, htable.live_iff f hf]
    simp only [create.injEq, ne_eq, reduceCtorEq, not_false_eq_true, true_and]
    exact ⟨.inr, fun h => h.elim (fun heq => heq ▸ hlive) id⟩

theorem TableHolds.release {entries : List (Nat × FlowInfo)}
    (htable : TableHolds base calls entries) (hg : InHalf base g) :
    ∃ entries', TableHolds base (calls ++ [release g]) entries' := by
  have hbounds := hg.placeOf_le
  have hrun : runAll (calls ++ [.release g]) =
      ((runAll calls).treemapDelete seqCmp (wire (placeOf base g))).2 := by
    rw [runAll_concat, FlowCall.run, FlowMap.releaseFlow, wire_placeOf]
  by_cases hlive : Live calls g
  · obtain ⟨⟨p, info⟩, hmem, rfl⟩ := (htable.live_iff g hg).mpr hlive
    obtain ⟨before, after, rfl⟩ := List.append_of_mem hmem
    have hkeyed := htable.keyed.delete_split
    refine ⟨before ++ after, hrun ▸ hkeyed, (forall_middle.mp htable.info_eq).2, fun f hf => ?_⟩
    have hother : ∀ e ∈ before ++ after, e.1 ≠ placeOf base g :=
      fun e he heq => htable.keyed.others_ne e he (congrArg wire heq)
    rw [live_concat, ← htable.live_iff f hf, exists_middle, placeOf_inj]
    simp only [reduceCtorEq, ne_eq, release.injEq, false_or]
    constructor
    · rintro ⟨e, he, heq⟩
      exact ⟨fun hgf => hother e he (hgf ▸ heq), .inr ⟨e, he, heq⟩⟩
    · rintro ⟨hgf, hsame | hlater⟩
      · exact absurd hsame hgf
      · exact hlater
  · have hkeyed := htable.keyed.delete_absent hbounds.1 hbounds.2
      (fun e he heq => hlive ((htable.live_iff g hg).mp ⟨e, he, heq⟩))
    refine ⟨entries, hrun ▸ hkeyed, htable.info_eq, fun f hf => ?_⟩
    rw [live_concat, htable.live_iff f hf]
    simp only [reduceCtorEq, ne_eq, release.injEq, false_or]
    exact ⟨fun hf => ⟨fun hgf => hlive (hgf ▸ hf), hf⟩, And.right⟩

theorem tableHolds_runAll (hcalls : ∀ call ∈ calls, InHalf base call.flow) :
    ∃ entries, TableHolds base calls entries := by
  induction calls using List.reverseRecOn with
  | nil => exact ⟨[], tableHolds_nil base⟩
  | append_singleton calls call ih =>
      obtain ⟨entries, htable⟩ := ih fun call hcall => hcalls call (by simp [hcall])
      have hhalf := hcalls call (by simp)
      cases call with
      | create g =>
          by_cases hlive : Live calls g
          · exact ⟨entries, (htable.create_live hhalf hlive).2⟩
          · exact (htable.create_new hhalf hlive).2
      | release g => exact htable.release hhalf

theorem TableHolds.find_isSome_iff {entries : List (Nat × FlowInfo)}
    (htable : TableHolds base calls entries) (hg : InHalf base g) :
    ((runAll calls).findFlow g).isSome = true ↔ Live calls g := by
  by_cases hlive : Live calls g
  · simp [htable.find_of_live hg hlive, hlive]
  · simp [htable.find_of_not_live hg hlive, hlive]

end HalfRange

/-- **The table of a peer is a finite map**, when all ids in use lie within half the range. -/
theorem flowMap_answersFor (base : U32) {calls : List FlowCall} {g : U32}
    (hcalls : ∀ call ∈ calls, InHalf base call.flow) (hg : InHalf base g) :
    AnswersFor calls g := by
  obtain ⟨entries, htable⟩ := tableHolds_runAll hcalls
  refine ⟨?_, htable.find_isSome_iff hg, ?_, ?_⟩
  · intro info hinfo
    have hlive := (htable.find_isSome_iff hg).mp (by simp [hinfo])
    rw [htable.find_of_live hg hlive] at hinfo
    exact Option.some.inj hinfo ▸ rfl
  · by_cases hlive : Live calls g
    · simp [(htable.create_live hg hlive).1, hlive]
    · simp [(htable.create_new hg hlive).1, hlive, liteflowRecordExists]
  · rintro before f after rfl hne hfound
    have hbefore : ∀ call ∈ before ++ [release f], InHalf base call.flow := fun call hcall =>
      hcalls call (by simp only [List.mem_append, List.mem_cons] at hcall ⊢; tauto)
    obtain ⟨_, hfirst⟩ : ∃ entries, TableHolds base before entries :=
      tableHolds_runAll fun call hcall => hbefore call (by simp [hcall])
    obtain ⟨_, hlast⟩ := tableHolds_runAll hbefore
    have hlive := (hfirst.find_isSome_iff hg).mp hfound
    have hfound' := (hlast.find_isSome_iff hg).mpr
      ((live_concat before (release f) g).mpr (.inr ⟨by simpa using hne, hlive⟩))
    rwa [runAll_concat] at hfound'

/-- Ids on both sides of the wrap. -/
theorem flowMap_answersFor_wrapped :
    AnswersFor [create 0xFFFFFFFE, create 5, create 7, release 5] 0xFFFFFFFE :=
  flowMap_answersFor 0xF0000000 (by decide) (by decide)

/-- Three ids of which each precedes the next one: the release of the second hides the first. -/
theorem flowMap_answersFor_cyclic :
    ¬ AnswersFor [create 2, create 0x55555557, create 0xAAAAAAAC, release 0x55555557] 2 := by
  intro hanswers
  have hlive : Live [create 2, create 0x55555557, create 0xAAAAAAAC, release 0x55555557] 2 :=
    ⟨[], [create 0x55555557, create 0xAAAAAAAC, release 0x55555557], rfl, by decide⟩
  have hfound := hanswers.find_iff.mpr hlive
  exact absurd hfound (by decide +kernel)

/-! ### Allocation -/

section Allocation

variable {nodeId : U32} {peerId : U16} {flowMap : FlowMap}

theorem candidateFlow_bit (nodeId : U32) (peerId : U16) (nextFlow : U32) :
    (candidateFlow nodeId peerId nextFlow).getLsbD 0 = !decide (nodeId < peerId.setWidth 32) := by
  unfold candidateFlow
  split <;> simp_all

theorem nextFlowId_candidate {fuel : Nat} {nextFlow flow nextFlow' : U32}
    (hnext : nextFlowId nodeId peerId flowMap fuel nextFlow = some (flow, nextFlow')) :
    flow ≠ 0 ∧ ∃ counter, flow = candidateFlow nodeId peerId counter := by
  induction fuel generalizing nextFlow with
  | zero => exact absurd hnext (by simp [nextFlowId])
  | succ fuel ih =>
      unfold nextFlowId at hnext
      dsimp only at hnext
      split at hnext
      · exact ih hnext
      · rename_i hfree
        obtain ⟨rfl, -⟩ := Prod.mk.inj (Option.some.inj hnext)
        exact ⟨fun hzero => hfree (.inl hzero), nextFlow, rfl⟩

theorem allocate_candidate {flow : U32} : ∀ (acts : List FlowAction) {e : FlowEnd},
    flow ∈ e.allocate nodeId peerId acts →
      flow ≠ 0 ∧ ∃ counter, flow = candidateFlow nodeId peerId counter := by
  intro acts
  induction acts with
  | nil => exact fun hmem => absurd hmem (by simp [FlowEnd.allocate])
  | cons act rest ih =>
      intro e hmem
      cases act with
      | next fuel =>
          unfold FlowEnd.allocate at hmem
          split at hmem
          · exact absurd hmem (by simp)
          · rename_i first nextFlow hnext
            rcases List.mem_cons.mp hmem with rfl | hmem
            · exact nextFlowId_candidate hnext
            · exact ih hmem
      | change call => exact ih hmem
      | others count => exact ih hmem

end Allocation

/-- Two nodes with configured ids `a` and `b` never allocate the same id for each other, nor 0. -/
def DistinctFlowIds (a b : U32) : Prop :=
  ∀ (e e' : FlowEnd) (acts acts' : List FlowAction),
    List.Disjoint (e.allocate a (wireNodeId b) acts) (e'.allocate b (wireNodeId a) acts') ∧
      0 ∉ e.allocate a (wireNodeId b) acts ∧ 0 ∉ e'.allocate b (wireNodeId a) acts'

/-- The node whose id on the wire is the smaller one is configured with that very id. -/
def SmallerFits (a b : U32) : Prop :=
  if wireNodeId a < wireNodeId b then a.toNat < 2 ^ 16 else b.toNat < 2 ^ 16

instance (a b : U32) : Decidable (SmallerFits a b) :=
  inferInstanceAs (Decidable
    (if wireNodeId a < wireNodeId b then a.toNat < 2 ^ 16 else b.toNat < 2 ^ 16))

theorem smallerFits_iff {a b : U32} (hne : wireNodeId a ≠ wireNodeId b) :
    SmallerFits a b ↔
      decide (a < (wireNodeId b).setWidth 32) ≠ decide (b < (wireNodeId a).setWidth 32) := by
  have hne' : a.toNat % 2 ^ 16 ≠ b.toNat % 2 ^ 16 := fun heq => hne (by
    apply BitVec.eq_of_toNat_eq
    simpa [wireNodeId] using heq)
  have hmod : ∀ x : U32, ((wireNodeId x).setWidth 32).toNat = x.toNat % 2 ^ 16 := by
    intro x
    simp only [wireNodeId, BitVec.toNat_setWidth]
    omega
  unfold SmallerFits
  simp only [BitVec.lt_def, hmod, ne_eq, decide_eq_decide]
  simp only [wireNodeId, BitVec.toNat_setWidth]
  split <;> omega

/-- **Flow ids of the two ends.** The ids allocated at the two ends differ exactly when the node with
the smaller id on the wire is configured with that id. -/
theorem distinctFlowIds_iff {a b : U32} (hne : wireNodeId a ≠ wireNodeId b) :
    DistinctFlowIds a b ↔ SmallerFits a b := by
  rw [smallerFits_iff hne]
  constructor
  · intro hdistinct hsame
    -- Both ends start at the same counter and find it free.
    have hcandidate : candidateFlow a (wireNodeId b) 1 = candidateFlow b (wireNodeId a) 1 := by
      unfold candidateFlow
      simp only [decide_eq_decide] at hsame
      simp only [hsame]
    have hne : ∀ x y, candidateFlow x y 1 ≠ 0 := by
      intro x y
      unfold candidateFlow
      split <;> decide
    have hfirst : ∀ x y, FlowEnd.allocate x y ⟨1, .nil⟩ [.next 1] = [candidateFlow x y 1] := by
      intro x y
      have hnext : nextFlowId x y .nil 1 1 = some (candidateFlow x y 1, 1 + 1) :=
        if_neg (not_or.mpr ⟨hne x y, by simp [FlowMap.findFlow, Treemap.treemapGet]⟩)
      simp only [FlowEnd.allocate, hnext]
    have hdisjoint := (hdistinct ⟨1, .nil⟩ ⟨1, .nil⟩ [.next 1] [.next 1]).1
    rw [hfirst, hfirst, hcandidate] at hdisjoint
    exact hdisjoint (List.mem_singleton.mpr rfl) (List.mem_singleton.mpr rfl)
  · intro hbit e e' acts acts'
    refine ⟨fun flow hmem hmem' => hbit ?_, fun hmem => (allocate_candidate acts hmem).1 rfl,
      fun hmem => (allocate_candidate acts' hmem).1 rfl⟩
    obtain ⟨-, counter, hflow⟩ := allocate_candidate acts hmem
    obtain ⟨-, counter', hflow'⟩ := allocate_candidate acts' hmem'
    have hsame := candidateFlow_bit a (wireNodeId b) counter
    rw [← hflow, hflow', candidateFlow_bit] at hsame
    exact Bool.not_inj hsame.symm

theorem distinctFlowIds_small : DistinctFlowIds 1 2 :=
  (distinctFlowIds_iff (by decide)).mpr (by decide)

/-- Both ends take the odd ids. -/
theorem distinctFlowIds_wide : ¬ DistinctFlowIds 0x10001 2 := by
  intro hdistinct
  have hdisjoint := (hdistinct ⟨1, .nil⟩ ⟨1, .nil⟩ [.next 1] [.next 1]).1
  exact hdisjoint (a := 3) (by decide) (by decide)

end Liteflow

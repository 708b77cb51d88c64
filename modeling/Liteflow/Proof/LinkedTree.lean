import Liteflow.LinkedTreemap
import Liteflow.Proof.Treemap

/-!
# The links of the tree map

Without its parent links a linked tree is a `Treemap` whose values carry the addresses, and every
operation commutes with dropping them: balance and bindings are those of `Proof.Treemap`. What is
left are the parent links and the cached first node, which are followed through the recursion here.
-/

namespace Liteflow

namespace LinkedTree

variable {κ ν : Type}

/-- The tree without its parent links, each value with its node's address. -/
def erase : LinkedTree κ ν → Treemap κ (Nat × ν)
  | nil => .nil
  | node a _ c l k v r => .node c (erase l) k (a, v) (erase r)

section Erase

variable (t : LinkedTree κ ν)

@[simp]
theorem isRed_erase : t.erase.isRed = t.isRed := by
  cases t <;> rfl

@[simp]
theorem isNil_erase : t.erase.isNil = t.isNil := by
  cases t <;> rfl

@[simp]
theorem left_erase : t.erase.left = t.left.erase := by
  cases t <;> rfl

@[simp]
theorem right_erase : t.erase.right = t.right.erase := by
  cases t <;> rfl

@[simp]
theorem erase_setParent (parent : Option Nat) : (t.setParent parent).erase = t.erase := by
  cases t <;> rfl

@[simp]
theorem erase_flipRoot : t.flipRoot.erase = t.erase.flipRoot := by
  cases t <;> rfl

@[simp]
theorem erase_setBlack : t.setBlack.erase = t.erase.setBlack := by
  cases t <;> rfl

@[simp]
theorem erase_rotateLeft : t.rotateLeft.erase = t.erase.rotateLeft := by
  rcases t with _ | ⟨a, p, c, l, k, v, _ | ⟨ra, rp, rc, rl, rk, rv, rr⟩⟩ <;>
    simp [rotateLeft, erase, Treemap.rotateLeft]

@[simp]
theorem erase_rotateRight : t.rotateRight.erase = t.erase.rotateRight := by
  rcases t with _ | ⟨a, p, c, _ | ⟨la, lp, lc, ll, lk, lv, lr⟩, k, v, r⟩ <;>
    simp [rotateRight, erase, Treemap.rotateRight]

@[simp]
theorem erase_flipColor : t.flipColor.erase = t.erase.flipColor := by
  cases t <;> simp [flipColor, erase, Treemap.flipColor]

@[simp]
theorem erase_rotateRightOfRight : t.rotateRightOfRight.erase = t.erase.rotateRightOfRight := by
  cases t <;> simp [rotateRightOfRight, erase, Treemap.rotateRightOfRight]

@[simp]
theorem erase_moveRedLeft : t.moveRedLeft.erase = t.erase.moveRedLeft := by
  simp only [moveRedLeft, Treemap.moveRedLeft, ← erase_flipColor, right_erase, left_erase,
    isRed_erase]
  split <;> simp

@[simp]
theorem erase_moveRedRight : t.moveRedRight.erase = t.erase.moveRedRight := by
  simp only [moveRedRight, Treemap.moveRedRight, ← erase_flipColor, left_erase, isRed_erase]
  split <;> simp

@[simp]
theorem erase_adjustLeft : t.adjustLeft.erase = t.erase.adjustLeft := by
  have hrotated : (if t.left.isRed && t.left.left.isRed then t.rotateRight else t).erase =
      if t.erase.left.isRed && t.erase.left.left.isRed then t.erase.rotateRight else t.erase := by
    simp only [left_erase, isRed_erase]
    split <;> simp
  rw [adjustLeft, Treemap.adjustLeft, ← hrotated]
  generalize (if t.left.isRed && t.left.left.isRed then t.rotateRight else t) = rotated
  simp only [left_erase, right_erase, isRed_erase]
  split <;> simp

@[simp]
theorem erase_adjustBalance : t.adjustBalance.erase = t.erase.adjustBalance := by
  simp only [adjustBalance, Treemap.adjustBalance, left_erase, right_erase, isRed_erase,
    erase_adjustLeft]
  split <;> simp

@[simp]
theorem erase_fixBalance : t.fixBalance.erase = t.erase.fixBalance := by
  simp only [fixBalance, Treemap.fixBalance, right_erase, isRed_erase, erase_adjustLeft]
  split <;> simp

@[simp]
theorem erase_leanLeft : t.leanLeft.erase = t.erase.leanLeft := by
  simp only [leanLeft, Treemap.leanLeft, left_erase, isRed_erase]
  split <;> simp

@[simp]
theorem erase_leanRight : t.leanRight.erase = t.erase.leanRight := by
  simp only [leanRight, Treemap.leanRight, left_erase, right_erase, isRed_erase, isNil_erase]
  split <;> simp

@[simp]
theorem erase_unleanLeft : t.unleanLeft.erase = t.erase.unleanLeft := by
  simp only [unleanLeft, Treemap.unleanLeft, left_erase, isRed_erase]
  split <;> simp

theorem addrs_eq : t.addrs = t.erase.toList.map (fun entry => entry.2.1) := by
  induction t with
  | nil => rfl
  | node a p c l k v r ihl ihr => simp [addrs, erase, ihl, ihr]

theorem erase_treemapInsertInternal (cmp : κ → κ → Ordering) (key : κ) (value : ν)
    (tm : TreemapHeader) (parent : Option Nat) :
    ((t.treemapInsertInternal cmp key value tm parent).ret,
        (t.treemapInsertInternal cmp key value tm parent).tree.erase) =
      t.erase.treemapInsertInternal cmp key (tm.nextAddr, value) := by
  induction t generalizing parent with
  | nil => rfl
  | node a p c l k v r ihl ihr =>
      rw [erase, Treemap.treemapInsertInternal, treemapInsertInternal]
      cases cmp key k with
      | eq => rfl
      | gt =>
          have hstep := ihr (some a)
          simp only [← hstep]
          split <;> simp_all [erase]
      | lt =>
          have hstep := ihl (some a)
          simp only [← hstep]
          split <;> simp_all [erase]

def eraseNode (least : Nat × κ × ν) : κ × Nat × ν :=
  (least.2.1, least.1, least.2.2)

theorem erase_deleteMin : ∀ (fuel : Nat) (t : LinkedTree κ ν),
    ((deleteMin fuel t).1.map eraseNode, (deleteMin fuel t).2.erase) =
      Treemap.deleteMin fuel t.erase := by
  intro fuel
  induction fuel with
  | zero => exact fun _ => rfl
  | succ fuel ih =>
      intro t
      rcases t with _ | ⟨a, p, c, _ | ⟨la, lp, lc, ll, lk, lv, lr⟩, k, v, r⟩
      · rfl
      · rfl
      · have hlean := erase_leanLeft (node a p c (node la lp lc ll lk lv lr) k v r)
        rw [deleteMin]
        · simp only [erase] at hlean ⊢
          rw [Treemap.deleteMin]
          · rw [← hlean]
            cases leanLeft (node a p c (node la lp lc ll lk lv lr) k v r) with
            | nil => rfl
            | node a' p' c' l' k' v' r' =>
                have hstep := ih l'
                simp only [erase, ← hstep, erase_fixBalance]
          · simp
          · simp
        · simp
        · simp

theorem erase_deleteRight (cmp : κ → κ → Ordering) (key : κ)
    {descend : TreemapHeader → LinkedTree κ ν → TreemapStep κ ν}
    {descend' : Treemap κ (Nat × ν) → Int × Treemap κ (Nat × ν)}
    (hdescend : ∀ tm t, ((descend tm t).ret, (descend tm t).tree.erase) = descend' t.erase)
    {unlinkMin : LinkedTree κ ν → Option (Nat × κ × ν) × LinkedTree κ ν}
    {unlinkMin' : Treemap κ (Nat × ν) → Option (κ × Nat × ν) × Treemap κ (Nat × ν)}
    (hunlink : ∀ t, ((unlinkMin t).1.map eraseNode, (unlinkMin t).2.erase) = unlinkMin' t.erase)
    (tm : TreemapHeader) :
    ((deleteRight cmp key descend unlinkMin tm t).ret,
        (deleteRight cmp key descend unlinkMin tm t).tree.erase) =
      Treemap.deleteRight cmp key descend' unlinkMin' t.erase := by
  rw [deleteRight, Treemap.deleteRight, ← erase_unleanLeft]
  cases t.unleanLeft with
  | nil => rfl
  | node a p c l k v r =>
      have hlean := erase_leanRight (node a p c l k v r)
      simp only [erase, isNil_erase] at hlean ⊢
      split
      · rfl
      · rw [← hlean]
        cases leanRight (node a p c l k v r) with
        | nil => rfl
        | node a' p' c' l' k' v' r' =>
            simp only [erase]
            split
            · have hmin := hunlink r'
              rw [← hmin]
              cases hleast : unlinkMin r' with
              | mk least rest => cases least <;> simp [eraseNode, erase]
            · have hstep := hdescend tm r'
              simp only [erase_fixBalance, erase, ← hstep]

theorem erase_treemapDeleteInternal (cmp : κ → κ → Ordering) (key : κ) : ∀ (fuel : Nat)
    (tm : TreemapHeader) (t : LinkedTree κ ν),
    ((t.treemapDeleteInternal cmp key fuel tm).ret,
        (t.treemapDeleteInternal cmp key fuel tm).tree.erase) =
      t.erase.treemapDeleteInternal cmp key fuel := by
  intro fuel
  induction fuel with
  | zero => exact fun _ _ => rfl
  | succ fuel ih =>
      intro tm t
      cases t with
      | nil => rfl
      | node a p c l k v r =>
          have hlean := erase_leanLeft (node a p c l k v r)
          have hright := erase_deleteRight (node a p c l k v r) cmp key ih (erase_deleteMin fuel) tm
          rw [treemapDeleteInternal]
          simp only [erase, Treemap.treemapDeleteInternal, isNil_erase] at hlean hright ⊢
          split
          · split
            · rfl
            · rw [← hlean]
              cases leanLeft (node a p c l k v r) with
              | nil => rfl
              | node a' p' c' l' k' v' r' =>
                  have hstep := ih tm l'
                  simp only [erase_fixBalance, erase, ← hstep]
          · exact hright

end Erase

/-! ### Parent links -/

def Parented : Option Nat → LinkedTree κ ν → Prop
  | _, nil => True
  | parent, node a p _ l _ _ r => p = parent ∧ Parented (some a) l ∧ Parented (some a) r

section Parents

variable {parent : Option Nat} {t : LinkedTree κ ν}

theorem Parented.left {a : Nat} {p : Option Nat} {c : NodeColor} {l r : LinkedTree κ ν} {k : κ}
    {v : ν} (ht : Parented parent (node a p c l k v r)) : Parented (some a) l :=
  ht.2.1

theorem Parented.right {a : Nat} {p : Option Nat} {c : NodeColor} {l r : LinkedTree κ ν} {k : κ}
    {v : ν} (ht : Parented parent (node a p c l k v r)) : Parented (some a) r :=
  ht.2.2

theorem Parented.setParent (ht : Parented parent t) (parent' : Option Nat) :
    Parented parent' (t.setParent parent') := by
  cases t with
  | nil => trivial
  | node a p c l k v r => exact ⟨rfl, ht.left, ht.right⟩

theorem Parented.flipRoot (ht : Parented parent t) : Parented parent t.flipRoot := by
  cases t with
  | nil => trivial
  | node a p c l k v r => exact ht

theorem Parented.setBlack (ht : Parented parent t) : Parented parent t.setBlack := by
  cases t with
  | nil => trivial
  | node a p c l k v r => exact ht

theorem Parented.rotateLeft (ht : Parented parent t) : Parented parent t.rotateLeft := by
  rcases t with _ | ⟨a, p, c, l, k, v, _ | ⟨ra, rp, rc, rl, rk, rv, rr⟩⟩
  · trivial
  · exact ht
  · exact ⟨ht.1, ⟨rfl, ht.left, ht.right.left.setParent _⟩, ht.right.right⟩

theorem Parented.rotateRight (ht : Parented parent t) : Parented parent t.rotateRight := by
  rcases t with _ | ⟨a, p, c, _ | ⟨la, lp, lc, ll, lk, lv, lr⟩, k, v, r⟩
  · trivial
  · exact ht
  · exact ⟨ht.1, ht.left.left, rfl, ht.left.right.setParent _, ht.right⟩

theorem Parented.flipColor (ht : Parented parent t) : Parented parent t.flipColor := by
  cases t with
  | nil => trivial
  | node a p c l k v r => exact ⟨ht.1, ht.left.flipRoot, ht.right.flipRoot⟩

theorem Parented.rotateRightOfRight (ht : Parented parent t) :
    Parented parent t.rotateRightOfRight := by
  cases t with
  | nil => trivial
  | node a p c l k v r => exact ⟨ht.1, ht.left, ht.right.rotateRight⟩

theorem Parented.ite {cond : Prop} [Decidable cond] {t' : LinkedTree κ ν}
    (ht : Parented parent t) (ht' : Parented parent t') :
    Parented parent (if cond then t else t') := by
  split
  · exact ht
  · exact ht'

theorem Parented.leanLeft (ht : Parented parent t) : Parented parent t.leanLeft :=
  .ite (.ite ht.flipColor.rotateRightOfRight.rotateLeft.flipColor ht.flipColor) ht

theorem Parented.leanRight (ht : Parented parent t) : Parented parent t.leanRight :=
  .ite (.ite ht.flipColor.rotateRight.flipColor ht.flipColor) ht

theorem Parented.unleanLeft (ht : Parented parent t) : Parented parent t.unleanLeft :=
  .ite ht.rotateRight ht

theorem Parented.adjustLeft (ht : Parented parent t) : Parented parent t.adjustLeft := by
  have hrotated : Parented parent
      (if t.left.isRed && t.left.left.isRed then t.rotateRight else t) := .ite ht.rotateRight ht
  exact .ite hrotated.flipColor hrotated

theorem Parented.adjustBalance (ht : Parented parent t) : Parented parent t.adjustBalance :=
  Parented.adjustLeft (.ite ht.rotateLeft ht)

theorem Parented.fixBalance (ht : Parented parent t) : Parented parent t.fixBalance :=
  Parented.adjustLeft (.ite ht.rotateLeft ht)

theorem Parented.deleteMin : ∀ (fuel : Nat) {t : LinkedTree κ ν} {parent : Option Nat},
    Parented parent t → Parented parent (deleteMin fuel t).2 := by
  intro fuel
  induction fuel with
  | zero => exact fun ht => ht
  | succ fuel ih =>
      intro t parent ht
      rcases t with _ | ⟨a, p, c, _ | ⟨la, lp, lc, ll, lk, lv, lr⟩, k, v, r⟩
      · trivial
      · trivial
      · have hlean := ht.leanLeft
        rw [LinkedTree.deleteMin]
        · split
          · trivial
          · rename_i a' p' c' l' k' v' r' heq
            rw [heq] at hlean
            have hnode : Parented parent (node a' p' c' (LinkedTree.deleteMin fuel l').2 k' v' r') :=
              ⟨hlean.1, ih hlean.left, hlean.right⟩
            exact hnode.fixBalance
        · simp
        · simp

end Parents

/-! ### Reshaping -/

theorem head?_append_cons_not_mem {α : Type} {front back : List α} {x y : α}
    (hnodup : (front ++ x :: back).Nodup) (hhead : (front ++ x :: back).head? = some y) :
    y ∉ back := by
  cases front with
  | nil =>
      obtain rfl : x = y := by simpa using hhead
      exact (List.nodup_cons.mp hnodup).1
  | cons z rest =>
      obtain rfl : z = y := by simpa using hhead
      intro hmem
      exact (List.nodup_cons.mp hnodup).1 (by simp [hmem])

/-- The same nodes in the same order, with exact parent links if they were exact. -/
structure Reshaped (t t' : LinkedTree κ ν) : Prop where
  addrs_eq : t'.addrs = t.addrs
  parented : ∀ {parent : Option Nat}, Parented parent t → Parented parent t'

theorem Reshaped.trans {t t' t'' : LinkedTree κ ν} (h : Reshaped t t') (h' : Reshaped t' t'') :
    Reshaped t t'' :=
  ⟨h'.addrs_eq.trans h.addrs_eq, fun ht => h'.parented (h.parented ht)⟩

section Reshaping

variable (t : LinkedTree κ ν)

theorem reshaped_leanLeft : Reshaped t t.leanLeft :=
  ⟨by simp [addrs_eq], Parented.leanLeft⟩

theorem reshaped_leanRight : Reshaped t t.leanRight :=
  ⟨by simp [addrs_eq], Parented.leanRight⟩

theorem reshaped_unleanLeft : Reshaped t t.unleanLeft :=
  ⟨by simp [addrs_eq], Parented.unleanLeft⟩

theorem reshaped_fixBalance : Reshaped t t.fixBalance :=
  ⟨by simp [addrs_eq], Parented.fixBalance⟩

theorem reshaped_adjustBalance : Reshaped t t.adjustBalance :=
  ⟨by simp [addrs_eq], Parented.adjustBalance⟩

end Reshaping

theorem Reshaped.ne_nil {a : Nat} {p : Option Nat} {c : NodeColor} {l r : LinkedTree κ ν} {k : κ}
    {v : ν} : ¬ Reshaped (node a p c l k v r) nil := by
  intro h
  have := h.addrs_eq
  simp [addrs] at this

/-! ### What an insertion does -/

/-- One call of `treemap_insert_internal`: it finds the key, fills an empty slot, or goes down one
side. -/
inductive Inserts (key : κ) (value : ν) (tm : TreemapHeader) :
    Option Nat → LinkedTree κ ν → TreemapStep κ ν → Prop
  | present (parent : Option Nat) (t : LinkedTree κ ν) : Inserts key value tm parent t ⟨1, tm, t⟩
  | create (parent : Option Nat) :
      Inserts key value tm parent nil
        ⟨0, { tm with nodeCnt := tm.nodeCnt + 1, nextAddr := tm.nextAddr + 1 },
          node tm.nextAddr parent .red nil key value nil⟩
  | right {parent p : Option Nat} {l r : LinkedTree κ ν} {a : Nat} {c : NodeColor} {k : κ} {v : ν}
      {step : TreemapStep κ ν} : Inserts key value tm (some a) r step → step.ret = 0 →
      Inserts key value tm parent (node a p c l k v r)
        { step with tree := adjustBalance (node a p c l k v step.tree) }
  | left {parent p : Option Nat} {l r : LinkedTree κ ν} {a : Nat} {c : NodeColor} {k : κ} {v : ν}
      {step : TreemapStep κ ν} : Inserts key value tm (some a) l step → step.ret = 0 →
      Inserts key value tm parent (node a p c l k v r)
        { step with
          tm := { step.tm with
            first := if step.tm.first = some a then step.tree.addr? else step.tm.first }
          tree := adjustBalance (node a p c step.tree k v r) }

section Insertion

variable {key : κ} {value : ν} {tm : TreemapHeader} {parent : Option Nat} {t : LinkedTree κ ν}
  {step : TreemapStep κ ν}

theorem Inserts.of_ret (h : Inserts key value tm parent t step) (hret : step.ret ≠ 0) :
    step = ⟨1, tm, t⟩ := by
  cases h with
  | present => rfl
  | create => exact absurd rfl hret
  | right _ hzero => exact absurd hzero hret
  | left _ hzero => exact absurd hzero hret

theorem inserts_treemapInsertInternal (cmp : κ → κ → Ordering) (key : κ) (value : ν)
    (tm : TreemapHeader) (parent : Option Nat) (t : LinkedTree κ ν) :
    Inserts key value tm parent t (t.treemapInsertInternal cmp key value tm parent) := by
  induction t generalizing parent with
  | nil => exact .create parent
  | node a p c l k v r ihl ihr =>
      rw [treemapInsertInternal]
      cases cmp key k with
      | eq => exact .present parent _
      | gt =>
          have hstep := ihr (some a)
          dsimp only
          split
          · rename_i hret
            rw [hstep.of_ret hret]
            exact .present parent _
          · rename_i hret
            exact .right hstep (not_not.mp hret)
      | lt =>
          have hstep := ihl (some a)
          dsimp only
          split
          · rename_i hret
            rw [hstep.of_ret hret]
            exact .present parent _
          · rename_i hret
            have hzero := not_not.mp hret
            have hleft : Inserts key value tm parent (node a p c l k v r) _ := .left hstep hzero
            simpa only [hzero, true_and] using hleft

theorem Inserts.parented (h : Inserts key value tm parent t step) (ht : Parented parent t) :
    Parented parent step.tree := by
  induction h with
  | present => exact ht
  | create => exact ⟨rfl, trivial, trivial⟩
  | right _ _ ih => exact Parented.adjustBalance ⟨ht.1, ht.left, ih ht.right⟩
  | left _ _ ih => exact Parented.adjustBalance ⟨ht.1, ih ht.left, ht.right⟩

theorem Inserts.tm_eq (h : Inserts key value tm parent t step) :
    step = ⟨1, tm, t⟩ ∨
      step.ret = 0 ∧ step.tm.nodeCnt = tm.nodeCnt + 1 ∧ step.tm.nextAddr = tm.nextAddr + 1 := by
  induction h with
  | present => exact Or.inl rfl
  | create => exact Or.inr ⟨rfl, rfl, rfl⟩
  | right _ hret ih =>
      rcases ih with rfl | ih
      · exact absurd hret (by simp)
      · exact Or.inr ih
  | left _ hret ih =>
      rcases ih with rfl | ih
      · exact absurd hret (by simp)
      · exact Or.inr ih

theorem Inserts.mem_addrs (h : Inserts key value tm parent t step) :
    ∀ {addr : Nat}, addr ∈ step.tree.addrs → addr = tm.nextAddr ∨ addr ∈ t.addrs := by
  induction h with
  | present => exact Or.inr
  | create => exact fun hmem => Or.inl (by simpa [addrs] using hmem)
  | right _ _ ih =>
      intro addr hmem
      rw [(reshaped_adjustBalance _).addrs_eq] at hmem
      simp only [addrs, List.mem_append, List.mem_cons] at hmem ⊢
      rcases hmem with hmem | rfl | hmem
      · exact Or.inr (Or.inl hmem)
      · exact Or.inr (Or.inr (Or.inl rfl))
      · exact (ih hmem).imp_right (fun hr => Or.inr (Or.inr hr))
  | left _ _ ih =>
      intro addr hmem
      rw [(reshaped_adjustBalance _).addrs_eq] at hmem
      simp only [addrs, List.mem_append, List.mem_cons] at hmem ⊢
      rcases hmem with hmem | hmem
      · exact (ih hmem).imp_right Or.inl
      · exact Or.inr (Or.inr hmem)

theorem Inserts.first_eq (h : Inserts key value tm parent t step) :
    (∀ addr, tm.first = some addr → addr ∉ t.addrs) → step.tm.first = tm.first := by
  induction h with
  | present => exact fun _ => rfl
  | create => exact fun _ => rfl
  | right _ _ ih =>
      intro hout
      exact ih (fun addr heq hmem => hout addr heq (by simp [addrs, hmem]))
  | left _ _ ih =>
      intro hout
      have hstep := ih (fun addr heq hmem => hout addr heq (by simp [addrs, hmem]))
      dsimp only
      rw [hstep]
      exact if_neg (fun heq => hout _ heq (by simp [addrs]))

def FirstOf (first : Option Nat) (list : List Nat) : Prop :=
  first = none ∨ first = list.head?

theorem FirstOf.not_mem {first : Option Nat} {front back rest : List Nat} {a : Nat}
    (hfirst : FirstOf first (front ++ a :: (back ++ rest)))
    (hnodup : (front ++ a :: (back ++ rest)).Nodup) :
    ∀ addr, first = some addr → addr ∉ back := by
  intro addr heq hmem
  rcases hfirst with hnone | hhead
  · exact absurd (hnone.symm.trans heq) (by simp)
  · rw [heq] at hhead
    exact head?_append_cons_not_mem hnodup hhead.symm (by simp [hmem])

theorem FirstOf.behind {first : Option Nat} {front rest : List Nat} {a : Nat}
    (hfirst : FirstOf first (front ++ a :: rest)) (rest' : List Nat) :
    FirstOf first (front ++ a :: rest') := by
  refine hfirst.imp_right fun hhead => hhead.trans ?_
  cases front <;> rfl

theorem FirstOf.of_ne {first : Option Nat} {rest : List Nat} {a : Nat}
    (hfirst : FirstOf first (a :: rest)) (hne : ¬first = some a) (list : List Nat) :
    FirstOf first list :=
  .inl (hfirst.resolve_right hne)

theorem Inserts.firstOf (h : Inserts key value tm parent t step) :
    ∀ {later : List Nat}, (t.addrs ++ later).Nodup → tm.nextAddr ∉ t.addrs ++ later →
      FirstOf tm.first (t.addrs ++ later) →
      (t = nil ∧ step.tm.first = tm.first ∧
        (step.ret = 0 → step.tree.addrs = [tm.nextAddr] ∧
          step.tree.addr? = some tm.nextAddr)) ∨
        (t.addrs ≠ [] ∧ step.tree.addrs ≠ [] ∧
          FirstOf step.tm.first (step.tree.addrs ++ later)) := by
  induction h with
  | present parent t =>
      intro later _ _ hfirst
      cases t with
      | nil => exact Or.inl ⟨rfl, rfl, by simp⟩
      | node a p c l k v r => exact Or.inr ⟨by simp [addrs], by simp [addrs], hfirst⟩
  | create parent => exact fun _ _ _ => Or.inl ⟨rfl, rfl, fun _ => ⟨rfl, rfl⟩⟩
  | @right parent p l r a c k v step hstep _ ih =>
      intro later hnodup _ hfirst
      rw [addrs, List.append_assoc, List.cons_append] at hnodup hfirst
      have hlist := (reshaped_adjustBalance (node a p c l k v step.tree)).addrs_eq
      refine Or.inr ⟨by simp [addrs], by simp [hlist, addrs], ?_⟩
      dsimp only
      rw [hstep.first_eq (hfirst.not_mem hnodup), hlist, addrs, List.append_assoc, List.cons_append]
      exact hfirst.behind _
  | @left parent p l r a c k v step hstep hret ih =>
      intro later hnodup hfresh hfirst
      rw [addrs, List.append_assoc, List.cons_append] at hnodup hfirst hfresh
      have hlist := (reshaped_adjustBalance (node a p c step.tree k v r)).addrs_eq
      refine Or.inr ⟨by simp [addrs], by simp [hlist, addrs], ?_⟩
      dsimp only
      rw [hlist, addrs, List.append_assoc, List.cons_append]
      rcases ih hnodup hfresh hfirst with ⟨rfl, hsame, hnew⟩ | ⟨hne, hne', hfirst'⟩
      · -- the slot was empty: the new node comes before `a`
        obtain ⟨haddrs, haddr⟩ := hnew hret
        rw [hsame, haddrs]
        split
        · exact Or.inr haddr
        · rename_i hother
          exact FirstOf.of_ne hfirst hother _
      · have hnot : ¬ step.tm.first = some a := by
          intro heq
          rcases hfirst' with hnone | hhead
          · exact absurd (hnone.symm.trans heq) (by simp)
          · have hmem : a ∈ step.tree.addrs := by
              rw [heq] at hhead
              cases hcons : step.tree.addrs with
              | nil => exact absurd hcons hne'
              | cons b rest =>
                  rw [hcons] at hhead
                  simp only [List.cons_append, List.head?_cons, Option.some.injEq] at hhead
                  simp [hhead]
            rcases hstep.mem_addrs hmem with rfl | hmem
            · exact hfresh (by simp)
            · exact (List.nodup_append.mp hnodup).2.2 a hmem a (by simp) rfl
        rw [if_neg hnot]
        exact hfirst'

end Insertion

/-! ### What a deletion does -/

/-- One call of `treemap_delete_internal` on a tree that may have been reshaped: it changes nothing,
goes down one side, or removes the root, with its heir if it has one. -/
inductive Deletes : TreemapHeader → LinkedTree κ ν → TreemapStep κ ν → Prop
  | keep (tm : TreemapHeader) (t : LinkedTree κ ν) : Deletes tm t ⟨0, tm, t⟩
  | left {tm : TreemapHeader} {t l r : LinkedTree κ ν} {a : Nat} {p : Option Nat} {c : NodeColor}
      {k : κ} {v : ν} {step : TreemapStep κ ν} : Reshaped t (node a p c l k v r) →
      Deletes tm l step →
      Deletes tm t { step with tree := fixBalance (node a p c step.tree k v r) }
  | right {tm : TreemapHeader} {t l r : LinkedTree κ ν} {a : Nat} {p : Option Nat} {c : NodeColor}
      {k : κ} {v : ν} {step : TreemapStep κ ν} : Reshaped t (node a p c l k v r) →
      Deletes tm r step →
      Deletes tm t { step with tree := fixBalance (node a p c l k v step.tree) }
  | leaf {tm : TreemapHeader} {t l : LinkedTree κ ν} {a : Nat} {p : Option Nat} {c : NodeColor}
      {k : κ} {v : ν} : Reshaped t (node a p c l k v nil) →
      Deletes tm t ⟨1, releaseNode (inheritFirst tm a p), nil⟩
  | heir {tm : TreemapHeader} {t l r r' : LinkedTree κ ν} {a minAddr : Nat} {p : Option Nat}
      {c : NodeColor} {k minKey : κ} {v minValue : ν} : Reshaped t (node a p c l k v r) →
      (∀ {parent : Option Nat}, Parented parent r → Parented parent r') →
      Deletes tm t ⟨1, releaseNode (inheritFirst tm a (some minAddr)),
        fixBalance (node minAddr p c (l.setParent (some minAddr)) minKey minValue
          (r'.setParent (some minAddr)))⟩
  | childless {tm : TreemapHeader} {t l r r' : LinkedTree κ ν} {a : Nat} {p : Option Nat}
      {c : NodeColor} {k : κ} {v : ν} : Reshaped t (node a p c l k v r) →
      (∀ {parent : Option Nat}, Parented parent r → Parented parent r') →
      Deletes tm t ⟨1, releaseNode tm, fixBalance (node a p c l k v r')⟩

theorem deletes_deleteRight (cmp : κ → κ → Ordering) (key : κ) {fuel : Nat}
    {descend : TreemapHeader → LinkedTree κ ν → TreemapStep κ ν}
    (hdescend : ∀ tm t, Deletes tm t (descend tm t)) (tm : TreemapHeader) {a : Nat}
    {p : Option Nat} {c : NodeColor} {l r : LinkedTree κ ν} {k : κ} {v : ν} :
    Deletes tm (node a p c l k v r)
      (deleteRight cmp key descend (deleteMin fuel) tm (node a p c l k v r)) := by
  have hunlean := reshaped_unleanLeft (node a p c l k v r)
  rw [deleteRight]
  split
  · rename_i heq
    exact absurd (heq ▸ hunlean) Reshaped.ne_nil
  · rename_i a' p' c' l' k' v' r' heq
    rw [heq] at hunlean
    split
    · rename_i hleaf
      cases r' with
      | nil => exact .leaf hunlean
      | node _ _ _ _ _ _ _ => exact absurd hleaf.2 (by simp [isNil])
    · have hlean := reshaped_leanRight (node a' p' c' l' k' v' r')
      split
      · rename_i heq'
        exact absurd (heq' ▸ hlean) Reshaped.ne_nil
      · rename_i a'' p'' c'' l'' k'' v'' r'' heq'
        rw [heq'] at hlean
        have hreshaped := hunlean.trans hlean
        split
        · have hmin : ∀ {parent : Option Nat}, Parented parent r'' →
              Parented parent (deleteMin fuel r'').2 := Parented.deleteMin fuel
          split
          · rename_i minAddr minKey minValue rest hleast
            rw [hleast] at hmin
            exact .heir hreshaped hmin
          · rename_i rest hleast
            rw [hleast] at hmin
            exact .childless hreshaped hmin
        · exact .right hreshaped (hdescend tm r'')

theorem deletes_treemapDeleteInternal (cmp : κ → κ → Ordering) (key : κ) : ∀ (fuel : Nat)
    (tm : TreemapHeader) (t : LinkedTree κ ν),
    Deletes tm t (t.treemapDeleteInternal cmp key fuel tm) := by
  intro fuel
  induction fuel with
  | zero => exact fun tm t => .keep tm t
  | succ fuel ih =>
      intro tm t
      cases t with
      | nil => exact .keep tm nil
      | node a p c l k v r =>
          rw [treemapDeleteInternal]
          split
          · split
            · exact .keep tm _
            · have hlean := reshaped_leanLeft (node a p c l k v r)
              split
              · rename_i heq
                exact absurd (heq ▸ hlean) Reshaped.ne_nil
              · rename_i a' p' c' l' k' v' r' heq
                rw [heq] at hlean
                exact .left hlean (ih tm l')
          · exact deletes_deleteRight cmp key ih tm

section Deletion

variable {tm : TreemapHeader} {t : LinkedTree κ ν} {step : TreemapStep κ ν}

theorem Deletes.parented (h : Deletes tm t step) :
    ∀ {parent : Option Nat}, Parented parent t → Parented parent step.tree := by
  induction h with
  | keep t => exact fun ht => ht
  | left hshape _ ih =>
      intro parent ht
      have hnode := hshape.parented ht
      exact Parented.fixBalance ⟨hnode.1, ih hnode.left, hnode.right⟩
  | right hshape _ ih =>
      intro parent ht
      have hnode := hshape.parented ht
      exact Parented.fixBalance ⟨hnode.1, hnode.left, ih hnode.right⟩
  | leaf _ => exact fun _ => trivial
  | heir hshape hmin =>
      intro parent ht
      have hnode := hshape.parented ht
      exact Parented.fixBalance ⟨hnode.1, hnode.left.setParent _, (hmin hnode.right).setParent _⟩
  | childless hshape hmin =>
      intro parent ht
      have hnode := hshape.parented ht
      exact Parented.fixBalance ⟨hnode.1, hnode.left, hmin hnode.right⟩

theorem Deletes.nodeCnt_eq (h : Deletes tm t step) :
    (step.ret = 0 ∧ step.tm.nodeCnt = tm.nodeCnt) ∨
      (step.ret = 1 ∧ step.tm.nodeCnt = tm.nodeCnt - 1) := by
  induction h with
  | keep t => exact Or.inl ⟨rfl, rfl⟩
  | left _ _ ih => exact ih
  | right _ _ ih => exact ih
  | leaf _ => exact Or.inr ⟨rfl, rfl⟩
  | heir _ _ => exact Or.inr ⟨rfl, rfl⟩
  | childless _ _ => exact Or.inr ⟨rfl, rfl⟩

theorem Deletes.nextAddr_eq (h : Deletes tm t step) : step.tm.nextAddr = tm.nextAddr := by
  induction h with
  | keep t => rfl
  | left _ _ ih => exact ih
  | right _ _ ih => exact ih
  | leaf _ => rfl
  | heir _ _ => rfl
  | childless _ _ => rfl

theorem Deletes.first_eq (h : Deletes tm t step) :
    (∀ addr, tm.first = some addr → addr ∉ t.addrs) → step.tm.first = tm.first := by
  have hroot : ∀ {t l r : LinkedTree κ ν} {a : Nat} {p : Option Nat} {c : NodeColor} {k : κ}
      {v : ν} (heir : Option Nat) {tm : TreemapHeader}, Reshaped t (node a p c l k v r) →
      (∀ addr, tm.first = some addr → addr ∉ t.addrs) →
      (inheritFirst tm a heir).first = tm.first := by
    intro t l r a p c k v heir tm hshape hout
    refine if_neg (fun heq => hout a heq ?_)
    rw [← hshape.addrs_eq, addrs]
    simp
  induction h with
  | keep t => exact fun _ => rfl
  | left hshape _ ih =>
      intro hout
      refine ih (fun addr heq hmem => hout addr heq ?_)
      rw [← hshape.addrs_eq, addrs]
      simp [hmem]
  | right hshape _ ih =>
      intro hout
      refine ih (fun addr heq hmem => hout addr heq ?_)
      rw [← hshape.addrs_eq, addrs]
      simp [hmem]
  | leaf hshape => exact hroot _ hshape
  | heir hshape _ => exact hroot _ hshape
  | childless _ _ => exact fun _ => rfl

theorem Deletes.firstOf (h : Deletes tm t step) :
    ∀ {later : List Nat}, Parented later.head? t → (t.addrs ++ later).Nodup →
      t.addrs.length ≤ step.tree.addrs.length + 1 → FirstOf tm.first (t.addrs ++ later) →
      FirstOf step.tm.first (step.tree.addrs ++ later) := by
  induction h with
  | keep t => exact fun _ _ _ hfirst => hfirst
  | @left t l r a p c k v step hshape hstep ih =>
      intro later ht hnodup hlength hfirst
      have hlist : t.addrs ++ later = l.addrs ++ (a :: (r.addrs ++ later)) := by
        rw [← hshape.addrs_eq, addrs, List.append_assoc, List.cons_append]
      have hlist' : (fixBalance (node a p c step.tree k v r)).addrs ++ later =
          step.tree.addrs ++ (a :: (r.addrs ++ later)) := by
        rw [(reshaped_fixBalance _).addrs_eq, addrs, List.append_assoc, List.cons_append]
      rw [hlist] at hnodup hfirst
      rw [hlist']
      refine ih (hshape.parented ht).left hnodup ?_ hfirst
      rw [(reshaped_fixBalance _).addrs_eq, ← hshape.addrs_eq, addrs, addrs] at hlength
      simp only [List.length_append, List.length_cons] at hlength
      omega
  | @right t l r a p c k v step hshape hstep ih =>
      intro later ht hnodup _ hfirst
      rw [← hshape.addrs_eq, addrs, List.append_assoc, List.cons_append] at hnodup hfirst
      rw [show (TreemapStep.mk step.ret step.tm _ : TreemapStep κ ν).tm.first = tm.first from
        hstep.first_eq (hfirst.not_mem hnodup), (reshaped_fixBalance _).addrs_eq, addrs,
        List.append_assoc, List.cons_append]
      exact hfirst.behind _
  | @leaf t l a p c k v hshape =>
      intro later ht hnodup hlength hfirst
      have hnode := hshape.parented ht
      rw [← hshape.addrs_eq, addrs] at hnodup hlength hfirst
      have hl : l.addrs = [] := by
        apply List.length_eq_zero_iff.mp
        simp only [List.length_append, List.length_cons, addrs, List.length_nil] at hlength
        omega
      rw [hl] at hfirst
      change FirstOf (inheritFirst tm a p).first later
      rw [inheritFirst]
      dsimp only
      split
      · exact Or.inr hnode.1
      · rename_i hne
        exact FirstOf.of_ne hfirst hne _
  | @heir t l r r' a minAddr p c k minKey v minValue hshape _ =>
      intro later ht hnodup _ hfirst
      rw [← hshape.addrs_eq, addrs, List.append_assoc, List.cons_append] at hnodup hfirst
      have hlist : (fixBalance (node minAddr p c (l.setParent (some minAddr)) minKey minValue
          (r'.setParent (some minAddr)))).addrs ++ later =
          l.addrs ++ minAddr :: (r'.addrs ++ later) := by
        rw [(reshaped_fixBalance _).addrs_eq, addrs, List.append_assoc, List.cons_append]
        simp [addrs_eq]
      rw [hlist]
      change FirstOf (inheritFirst tm a (some minAddr)).first _
      rw [inheritFirst]
      dsimp only
      split
      · rename_i heq
        rcases hfirst with hnone | hhead
        · exact absurd (hnone.symm.trans heq) (by simp)
        · rw [heq] at hhead
          have hl : l.addrs = [] := by
            cases hl : l.addrs with
            | nil => rfl
            | cons b rest =>
                rw [hl] at hhead hnodup
                obtain rfl : a = b := by simpa using hhead
                simp at hnodup
          rw [hl]
          exact Or.inr rfl
      · rename_i hne
        cases hl : l.addrs with
        | nil =>
            rw [hl] at hfirst
            exact FirstOf.of_ne hfirst hne _
        | cons b rest =>
            rw [hl] at hfirst
            exact hfirst
  | @childless t l r r' a p c k v hshape _ =>
      intro later ht hnodup _ hfirst
      rw [← hshape.addrs_eq, addrs, List.append_assoc, List.cons_append] at hfirst
      rw [(reshaped_fixBalance _).addrs_eq, addrs, List.append_assoc, List.cons_append]
      exact hfirst.behind _

end Deletion

/-! ### Searches -/

theorem lowerBoundFrom_eq (cmp : κ → κ → Ordering) (key : κ) (t : LinkedTree κ ν) :
    ∀ result : Option Nat, t.lowerBoundFrom cmp key result =
      ((t.erase.treemapLowerBound cmp key).map (fun entry => entry.2.1)).or result := by
  induction t with
  | nil => exact fun _ => rfl
  | node a p c l k v r ihl ihr =>
      intro result
      rw [lowerBoundFrom, erase, Treemap.treemapLowerBound]
      split
      · exact ihr result
      · rw [ihl, Option.map_or, Option.or_assoc]
        rfl

theorem upperBoundFrom_eq (cmp : κ → κ → Ordering) (key : κ) (t : LinkedTree κ ν) :
    ∀ result : Option Nat, t.upperBoundFrom cmp key result =
      ((t.erase.treemapUpperBound cmp key).map (fun entry => entry.2.1)).or result := by
  induction t with
  | nil => exact fun _ => rfl
  | node a p c l k v r ihl ihr =>
      intro result
      rw [upperBoundFrom, erase, Treemap.treemapUpperBound]
      split
      · rw [ihl, Option.map_or, Option.or_assoc]
        rfl
      · exact ihr result

theorem treemapGet_eq (cmp : κ → κ → Ordering) (key : κ) (t : LinkedTree κ ν) :
    t.treemapGet cmp key = (t.erase.treemapGet cmp key).map Prod.snd := by
  induction t with
  | nil => rfl
  | node a p c l k v r ihl ihr =>
      rw [treemapGet, erase, Treemap.treemapGet]
      cases cmp key k with
      | lt => exact ihl
      | eq => rfl
      | gt => exact ihr

/-! ### Walking along the links -/

section Walks

variable {root t : LinkedTree κ ν} {side : Side}

def along (side : Side) (t : LinkedTree κ ν) : List Nat :=
  match side with
  | .right => t.addrs
  | .left => t.addrs.reverse

theorem mem_along (side : Side) {addr : Nat} : addr ∈ t.along side ↔ addr ∈ t.addrs := by
  cases side <;> simp [along]

theorem along_node (side : Side) (a : Nat) (p : Option Nat) (c : NodeColor) (l : LinkedTree κ ν)
    (k : κ) (v : ν) (r : LinkedTree κ ν) :
    (node a p c l k v r).along side =
      ((node a p c l k v r).child side.other).along side ++
        a :: ((node a p c l k v r).child side).along side := by
  cases side <;> simp [along, child, Side.other, addrs, left, right]

theorem outermost_eq (side : Side) (t : LinkedTree κ ν) :
    t.outermost side.other = (t.along side).head? := by
  induction t with
  | nil => cases side <;> rfl
  | node a p c l k v r ihl ihr =>
      rw [along_node, List.head?_append, List.head?_cons]
      cases side with
      | left => exact congrArg (fun o => Option.or o (some a)) ihr
      | right => exact congrArg (fun o => Option.or o (some a)) ihl

theorem mem_of_addr? {addr : Nat} (h : t.addr? = some addr) : addr ∈ t.along side := by
  cases t with
  | nil => exact absurd h (by simp [addr?])
  | node a p c l k v r =>
      obtain rfl : a = addr := Option.some.inj h
      rw [along_node]
      simp

theorem lookup_isSome {addr : Nat} : (t.lookup addr).isSome ↔ addr ∈ t.addrs := by
  induction t with
  | nil => simp [lookup, addrs]
  | node a p c l k v r ihl ihr =>
      rw [lookup, addrs, List.mem_append, List.mem_cons]
      split
      · rename_i heq
        simp [heq]
      · rename_i hne
        rw [Option.isSome_or, Bool.or_eq_true, ihl, ihr]
        have hne' : addr ≠ a := Ne.symm hne
        simp [hne']

theorem lookup_eq_none {addr : Nat} (hout : addr ∉ t.addrs) : t.lookup addr = none := by
  rw [← Option.not_isSome_iff_eq_none, lookup_isSome]
  exact hout

inductive Below (root : LinkedTree κ ν) (side : Side) :
    LinkedTree κ ν → Option Nat → List Nat → List Nat → Prop
  | root : Below root side root none [] []
  | near {a : Nat} {p parent : Option Nat} {c : NodeColor} {l r : LinkedTree κ ν} {k : κ} {v : ν}
      {behind ahead : List Nat} : Below root side (node a p c l k v r) parent behind ahead →
      Below root side ((node a p c l k v r).child side.other) (some a) behind
        (a :: ((node a p c l k v r).child side).along side ++ ahead)
  | far {a : Nat} {p parent : Option Nat} {c : NodeColor} {l r : LinkedTree κ ν} {k : κ} {v : ν}
      {behind ahead : List Nat} : Below root side (node a p c l k v r) parent behind ahead →
      Below root side ((node a p c l k v r).child side) (some a)
        (behind ++ ((node a p c l k v r).child side.other).along side ++ [a]) ahead

theorem Parented.child {a : Nat} {p parent : Option Nat} {c : NodeColor} {l r : LinkedTree κ ν}
    {k : κ} {v : ν} (ht : Parented parent (node a p c l k v r)) (side : Side) :
    Parented (some a) ((node a p c l k v r).child side) := by
  cases side with
  | left => exact ht.left
  | right => exact ht.right

section Below

variable {parent : Option Nat} {behind ahead : List Nat}

theorem Below.along_eq (h : Below root side t parent behind ahead) :
    root.along side = behind ++ t.along side ++ ahead := by
  induction h with
  | root => simp
  | near _ ih => simp [ih, along_node]
  | far _ ih => simp [ih, along_node]

theorem Below.parented (h : Below root side t parent behind ahead) (hroot : Parented none root) :
    Parented parent t := by
  induction h with
  | root => exact hroot
  | near _ ih => exact ih.child _
  | far _ ih => exact ih.child _

theorem Below.exists_node (h : Below root side t parent behind ahead) {addr : Nat}
    (hmem : addr ∈ t.addrs) :
    ∃ p c l k v r parent' behind' ahead',
      Below root side (node addr p c l k v r) parent' behind' ahead' := by
  induction t generalizing parent behind ahead with
  | nil => exact absurd hmem (by simp [addrs])
  | node a p c l k v r ihl ihr =>
      rw [addrs, List.mem_append, List.mem_cons] at hmem
      rcases hmem with hmem | rfl | hmem
      · cases side with
        | left => exact ihl h.far hmem
        | right => exact ihl h.near hmem
      · exact ⟨p, c, l, k, v, r, parent, behind, ahead, h⟩
      · cases side with
        | left => exact ihr h.near hmem
        | right => exact ihr h.far hmem

variable (hnodup : (root.along side).Nodup)

include hnodup

theorem Below.lookup_eq (h : Below root side t parent behind ahead) {addr : Nat}
    (hmem : addr ∈ t.addrs) : root.lookup addr = t.lookup addr := by
  have hchild : ∀ {a : Nat} {p parent : Option Nat} {c : NodeColor} {l r : LinkedTree κ ν} {k : κ}
      {v : ν} {behind ahead : List Nat} (side' : Side),
      Below root side (node a p c l k v r) parent behind ahead →
      addr ∈ ((node a p c l k v r).child side').addrs →
      addr ∈ (node a p c l k v r).addrs ∧
        (node a p c l k v r).lookup addr = ((node a p c l k v r).child side').lookup addr := by
    intro a p parent c l r k v behind ahead side' hbelow hmem
    have hnode : ((node a p c l k v r).along side).Nodup := by
      rw [hbelow.along_eq] at hnodup
      exact (List.nodup_append.mp (List.nodup_append.mp hnodup).1).2.1
    have haddrs : (l.addrs ++ a :: r.addrs).Nodup := by
      cases side with
      | left => exact List.nodup_reverse.mp hnode
      | right => exact hnode
    rw [lookup]
    cases side' with
    | left =>
        have hl : addr ∈ l.addrs := hmem
        have hne : a ≠ addr := by
          rintro rfl
          exact (List.nodup_append.mp haddrs).2.2 a hl a (by simp) rfl
        obtain ⟨found, hfound⟩ := Option.isSome_iff_exists.mp (lookup_isSome.mpr hl)
        exact ⟨by simp [addrs, hl], by rw [if_neg hne, hfound, Option.some_or]; exact hfound.symm⟩
    | right =>
        have hr : addr ∈ r.addrs := hmem
        have hne : a ≠ addr := by
          rintro rfl
          exact (List.nodup_cons.mp (List.nodup_append.mp haddrs).2.1).1 hr
        have hl : addr ∉ l.addrs := fun hl =>
          (List.nodup_append.mp haddrs).2.2 addr hl addr (by simp [hr]) rfl
        exact ⟨by simp [addrs, hr], by rw [if_neg hne, lookup_eq_none hl, Option.none_or]; rfl⟩
  induction h with
  | root => rfl
  | near hbelow ih =>
      obtain ⟨hmem', hlookup⟩ := hchild _ hbelow hmem
      rw [ih hmem', hlookup]
  | far hbelow ih =>
      obtain ⟨hmem', hlookup⟩ := hchild _ hbelow hmem
      rw [ih hmem', hlookup]

theorem Below.lookup_root {a : Nat} {p : Option Nat} {c : NodeColor} {l r : LinkedTree κ ν} {k : κ}
    {v : ν} (h : Below root side (node a p c l k v r) parent behind ahead) :
    root.lookup a = some (node a p c l k v r) := by
  rw [h.lookup_eq hnodup (by simp [addrs]), lookup, if_pos rfl]

theorem Below.climb_eq (hroot : Parented none root) (h : Below root side t parent behind ahead) :
    ∀ {curr fuel : Nat}, t.addr? = some curr → behind.length + ahead.length ≤ fuel →
      root.climb side fuel curr parent = ahead.head? := by
  induction h with
  | root =>
      intro curr fuel _ _
      rw [climb, List.head?_nil]
  | @near a p parent c l r k v behind ahead hbelow _ =>
      intro curr fuel hcurr hfuel
      obtain ⟨fuel, rfl⟩ : ∃ n, fuel = n + 1 := by
        refine ⟨fuel - 1, ?_⟩
        simp only [List.cons_append, List.length_cons] at hfuel
        omega
      have hne : ¬ ((node a p c l k v r).child side).addr? = some curr := by
        intro heq
        have hnode := hnodup
        rw [hbelow.along_eq, along_node] at hnode
        have hsplit := (List.nodup_append.mp (List.nodup_append.mp hnode).1).2.1
        refine (List.nodup_append.mp hsplit).2.2 curr (mem_of_addr? hcurr) curr ?_ rfl
        exact List.mem_cons_of_mem a (mem_of_addr? heq)
      rw [climb, hbelow.lookup_root hnodup]
      exact if_neg hne
  | @far a p parent c l r k v behind ahead hbelow ih =>
      intro curr fuel hcurr hfuel
      simp only [List.length_append, List.length_cons, List.length_nil] at hfuel
      obtain ⟨fuel, rfl⟩ : ∃ n, fuel = n + 1 := ⟨fuel - 1, by omega⟩
      have hparent := (hbelow.parented hroot).1
      rw [climb, hbelow.lookup_root hnodup]
      dsimp only
      rw [if_pos hcurr, parent?, hparent]
      exact ih rfl (by omega)

end Below

theorem neighbour_eq (hroot : Parented none root) (hnodup : (root.along side).Nodup)
    {behind ahead : List Nat} {addr : Nat} (hlist : root.along side = behind ++ addr :: ahead) :
    root.neighbour side addr = ahead.head? := by
  have hmem : addr ∈ root.addrs := by
    rw [← mem_along side, hlist]
    simp
  obtain ⟨p, c, l, k, v, r, parent, behind', ahead', hbelow⟩ :=
    (show Below root side root none [] [] from .root).exists_node hmem
  have hnode := hbelow.along_eq
  rw [along_node] at hnode
  obtain rfl : ahead = ((node addr p c l k v r).child side).along side ++ ahead' := by
    have hsplit : behind ++ addr :: ahead =
        (behind' ++ ((node addr p c l k v r).child side.other).along side) ++
          addr :: (((node addr p c l k v r).child side).along side ++ ahead') := by
      rw [← hlist, hnode]
      simp
    have hfront : addr ∉ behind := by
      rw [hlist] at hnodup
      exact fun hin => (List.nodup_append.mp hnodup).2.2 addr hin addr (by simp) rfl
    have hback : addr ∉ ahead := by
      rw [hlist] at hnodup
      exact (List.nodup_cons.mp (List.nodup_append.mp hnodup).2.1).1
    exact ((List.append_cons_inj_of_notMem hfront hback).mp hsplit).2.2
  rw [neighbour, hbelow.lookup_root hnodup]
  dsimp only
  split
  · rename_i hnil
    have hempty : ((node addr p c l k v r).child side).along side = [] := by
      cases hchild : (node addr p c l k v r).child side with
      | nil => cases side <;> rfl
      | node _ _ _ _ _ _ _ => rw [hchild] at hnil; exact absurd hnil (by simp [isNil])
    have hlength : root.addrs.length = (root.along side).length := by
      cases side <;> simp [along]
    rw [hempty, List.nil_append, parent?, (hbelow.parented hroot).1]
    apply hbelow.climb_eq hnodup hroot rfl
    rw [hlength, hnode]
    simp only [List.length_append, List.length_cons]
    omega
  · rename_i hne
    rw [outermost_eq, List.head?_append]
    cases hchild : (node addr p c l k v r).child side with
    | nil => rw [hchild] at hne; exact absurd rfl hne
    | node a' p' c' l' k' v' r' =>
        rw [along_node]
        cases ((node a' p' c' l' k' v' r').child side.other).along side <;> rfl

def visited (root : LinkedTree κ ν) (side : Side) : Nat → Option Nat → List Nat
  | 0, _ => []
  | _ + 1, none => []
  | fuel + 1, some addr => addr :: visited root side fuel (root.neighbour side addr)

theorem visited_eq (hroot : Parented none root) (hnodup : (root.along side).Nodup) :
    ∀ (ahead : List Nat) {behind : List Nat} {fuel : Nat}, root.along side = behind ++ ahead →
      ahead.length < fuel → root.visited side fuel ahead.head? = ahead := by
  intro ahead
  induction ahead with
  | nil =>
      intro behind fuel _ hfuel
      obtain ⟨fuel, rfl⟩ : ∃ n, fuel = n + 1 := ⟨fuel - 1, by simp at hfuel; omega⟩
      rfl
  | cons addr rest ih =>
      intro behind fuel hlist hfuel
      obtain ⟨fuel, rfl⟩ : ∃ n, fuel = n + 1 := ⟨fuel - 1, by simp at hfuel; omega⟩
      have hrest : root.along side = (behind ++ [addr]) ++ rest := by
        rw [hlist, List.append_assoc, List.singleton_append]
      rw [List.head?_cons, visited, neighbour_eq hroot hnodup hlist,
        ih hrest (by simpa using hfuel)]

end Walks

end LinkedTree

end Liteflow

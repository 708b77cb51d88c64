import Liteflow.Treemap

/-!
# The tree map keeps its bindings and its balance

Every operation is described by what it does to the in-order list of bindings. A key splits that
list into the bindings before it and those after it; insertion puts the new binding at the split,
deletion removes the one binding in it, and the searches return the first binding past it. Deletion
needs the colours: it discards the left child of a node without a right child, and only the balance
of the tree says that there is none.
-/

namespace Liteflow.Treemap

variable {κ ν : Type}

/-! ### Balance -/

/-- A left-leaning red-black tree with the given root colour and black height. -/
inductive Llrb : Treemap κ ν → NodeColor → Nat → Prop
  | nil : Llrb nil .black 0
  | red {l r : Treemap κ ν} {k : κ} {v : ν} {n : Nat} :
      Llrb l .black n → Llrb r .black n → Llrb (node .red l k v r) .red n
  | black {l r : Treemap κ ν} {k : κ} {v : ν} {c : NodeColor} {n : Nat} :
      Llrb l c n → Llrb r .black n → Llrb (node .black l k v r) .black (n + 1)

def Balanced (t : Treemap κ ν) : Prop :=
  ∃ n, Llrb t .black n

theorem balanced_nil : Balanced (nil : Treemap κ ν) :=
  ⟨0, .nil⟩

theorem Llrb.isRed_eq {t : Treemap κ ν} {c : NodeColor} {n : Nat} (ht : Llrb t c n) :
    t.isRed = decide (c = .red) := by
  cases ht <;> rfl

theorem Llrb.balanced_setBlack {t : Treemap κ ν} {c : NodeColor} {n : Nat} (ht : Llrb t c n) :
    Balanced (setBlack t) := by
  cases ht with
  | nil => exact ⟨0, .nil⟩
  | red hl hr => exact ⟨_, .black hl hr⟩
  | black hl hr => exact ⟨_, .black hl hr⟩

theorem Llrb.flipRoot_red {t : Treemap κ ν} {n : Nat} (ht : Llrb t .red n) :
    Llrb (flipRoot t) .black (n + 1) := by
  cases ht with
  | red hl hr => exact .black hl hr

theorem fixBalance_red {l r : Treemap κ ν} {k : κ} {v : ν} {n : Nat} (hl : Llrb l .black n)
    (hr : Llrb r .black n) : Llrb (fixBalance (node .red l k v r)) .red n := by
  have hfix : fixBalance (node .red l k v r) = node .red l k v r := by
    simp [fixBalance, adjustLeft, hl.isRed_eq, hr.isRed_eq]
  rw [hfix]
  exact .red hl hr

theorem fixBalance_black {l r : Treemap κ ν} {k : κ} {v : ν} {cl cr : NodeColor} {n : Nat}
    (hl : Llrb l cl n) (hr : Llrb r cr n) :
    ∃ c, Llrb (fixBalance (node .black l k v r)) c (n + 1) ∧
      (cl = .black ∨ cr = .black → c = .black) := by
  cases hr with
  | nil =>
      refine ⟨.black, ?_, fun _ => rfl⟩
      have hll : (l.isRed && l.left.isRed) = false := by
        cases hl with
        | nil => rfl
        | red hll _ => simp [hll.isRed_eq]
      simpa [fixBalance, adjustLeft, hll] using Llrb.black hl .nil
  | black hrl hrr =>
      refine ⟨.black, ?_, fun _ => rfl⟩
      have hll : (l.isRed && l.left.isRed) = false := by
        cases hl with
        | red hll _ => simp [hll.isRed_eq]
        | black _ _ => rfl
      simpa [fixBalance, adjustLeft, hll] using Llrb.black hl (.black hrl hrr)
  | red hrl hrr =>
      cases hl with
      | nil =>
          refine ⟨.black, ?_, fun _ => rfl⟩
          simpa [fixBalance, adjustLeft, rotateLeft, hrr.isRed_eq] using
            Llrb.black (Llrb.red .nil hrl) hrr
      | black hll hlr =>
          refine ⟨.black, ?_, fun _ => rfl⟩
          simpa [fixBalance, adjustLeft, rotateLeft, hrr.isRed_eq] using
            Llrb.black (Llrb.red (.black hll hlr) hrl) hrr
      | red hll hlr =>
          refine ⟨.red, ?_, fun h => by simp at h⟩
          simpa [fixBalance, adjustLeft, rotateLeft, rotateRight, flipColor, flipRoot,
            NodeColor.flip] using Llrb.red (Llrb.black hll hlr) (Llrb.black hrl hrr)

/-! ### The repairs keep the bindings in order -/

@[simp]
theorem toList_flipRoot (t : Treemap κ ν) : (flipRoot t).toList = t.toList := by
  cases t <;> rfl

@[simp]
theorem toList_setBlack (t : Treemap κ ν) : (setBlack t).toList = t.toList := by
  cases t <;> rfl

@[simp]
theorem toList_flipColor (t : Treemap κ ν) : (flipColor t).toList = t.toList := by
  cases t <;> simp [flipColor]

@[simp]
theorem toList_rotateLeft (t : Treemap κ ν) : (rotateLeft t).toList = t.toList := by
  rcases t with _ | ⟨c, l, k, v, _ | ⟨rc, rl, rk, rv, rr⟩⟩ <;> simp [rotateLeft]

@[simp]
theorem toList_rotateRight (t : Treemap κ ν) : (rotateRight t).toList = t.toList := by
  rcases t with _ | ⟨c, _ | ⟨lc, ll, lk, lv, lr⟩, k, v, r⟩ <;> simp [rotateRight]

@[simp]
theorem toList_rotateRightOfRight (t : Treemap κ ν) :
    (rotateRightOfRight t).toList = t.toList := by
  cases t <;> simp [rotateRightOfRight]

@[simp]
theorem toList_moveRedLeft (t : Treemap κ ν) : (moveRedLeft t).toList = t.toList := by
  unfold moveRedLeft
  dsimp only
  split <;> simp

@[simp]
theorem toList_moveRedRight (t : Treemap κ ν) : (moveRedRight t).toList = t.toList := by
  unfold moveRedRight
  dsimp only
  split <;> simp

@[simp]
theorem toList_adjustLeft (t : Treemap κ ν) : (adjustLeft t).toList = t.toList := by
  unfold adjustLeft
  dsimp only
  split <;> split <;> simp

@[simp]
theorem toList_adjustBalance (t : Treemap κ ν) : (adjustBalance t).toList = t.toList := by
  unfold adjustBalance
  split <;> simp

@[simp]
theorem toList_fixBalance (t : Treemap κ ν) : (fixBalance t).toList = t.toList := by
  unfold fixBalance
  split <;> simp

@[simp]
theorem toList_leanLeft (t : Treemap κ ν) : (leanLeft t).toList = t.toList := by
  unfold leanLeft
  split <;> simp

@[simp]
theorem toList_leanRight (t : Treemap κ ν) : (leanRight t).toList = t.toList := by
  unfold leanRight
  split <;> simp

@[simp]
theorem toList_unleanLeft (t : Treemap κ ν) : (unleanLeft t).toList = t.toList := by
  unfold unleanLeft
  split <;> simp

/-! ### Insertion -/

/-- After an insertion a red root may have a red left child, which the black parent repairs. -/
def Inserted (t : Treemap κ ν) (c : NodeColor) (n : Nat) : Prop :=
  match c with
  | .black => ∃ c', Llrb t c' n
  | .red => ∃ l k v r c', t = node .red l k v r ∧ Llrb l c' n ∧ Llrb r .black n

theorem inserted_left_black {l r : Treemap κ ν} {k : κ} {v : ν} {c : NodeColor} {n : Nat}
    (hl : Inserted l c n) (hr : Llrb r .black n) :
    ∃ c', Llrb (adjustBalance (node .black l k v r)) c' (n + 1) := by
  cases c with
  | black =>
      obtain ⟨c', hl⟩ := hl
      refine ⟨.black, ?_⟩
      have hll : (l.isRed && l.left.isRed) = false := by
        cases hl with
        | nil => rfl
        | red hll _ => simp [hll.isRed_eq]
        | black _ _ => rfl
      simpa [adjustBalance, adjustLeft, hr.isRed_eq, hll] using Llrb.black hl hr
  | red =>
      obtain ⟨ll, lk, lv, lr, c', rfl, hll, hlr⟩ := hl
      cases c' with
      | black =>
          refine ⟨.black, ?_⟩
          simpa [adjustBalance, adjustLeft, hr.isRed_eq, hll.isRed_eq] using
            Llrb.black (Llrb.red hll hlr) hr
      | red =>
          refine ⟨.red, ?_⟩
          simpa [adjustBalance, adjustLeft, rotateRight, flipColor, flipRoot, NodeColor.flip,
            hr.isRed_eq, hll.isRed_eq] using Llrb.red hll.flipRoot_red (Llrb.black hlr hr)

theorem inserted_right_black {l r : Treemap κ ν} {k : κ} {v : ν} {cl cr : NodeColor} {n : Nat}
    (hl : Llrb l cl n) (hr : Llrb r cr n) :
    ∃ c', Llrb (adjustBalance (node .black l k v r)) c' (n + 1) := by
  cases hr with
  | nil => exact inserted_left_black (c := .black) ⟨cl, hl⟩ .nil
  | black hrl hrr => exact inserted_left_black (c := .black) ⟨cl, hl⟩ (.black hrl hrr)
  | red hrl hrr =>
      cases hl with
      | nil =>
          exact ⟨.black, by
            simpa [adjustBalance, adjustLeft, rotateLeft, hrr.isRed_eq] using
              Llrb.black (Llrb.red .nil hrl) hrr⟩
      | black hll hlr =>
          exact ⟨.black, by
            simpa [adjustBalance, adjustLeft, rotateLeft, hrr.isRed_eq] using
              Llrb.black (Llrb.red (.black hll hlr) hrl) hrr⟩
      | red hll hlr =>
          exact ⟨.red, by
            simpa [adjustBalance, adjustLeft, flipColor, flipRoot, NodeColor.flip,
              hll.isRed_eq] using Llrb.red (Llrb.black hll hlr) (Llrb.black hrl hrr)⟩

theorem inserted_left_red {l r : Treemap κ ν} {k : κ} {v : ν} {n : Nat}
    (hl : Inserted l .black n) (hr : Llrb r .black n) :
    Inserted (adjustBalance (node .red l k v r)) .red n := by
  obtain ⟨c', hl⟩ := hl
  have hll : (l.isRed && l.left.isRed) = false := by
    cases hl with
    | nil => rfl
    | red hll _ => simp [hll.isRed_eq]
    | black _ _ => rfl
  refine ⟨l, k, v, r, c', ?_, hl, hr⟩
  simp [adjustBalance, adjustLeft, hr.isRed_eq, hll]

theorem inserted_right_red {l r : Treemap κ ν} {k : κ} {v : ν} {n : Nat}
    (hl : Llrb l .black n) (hr : Inserted r .black n) :
    Inserted (adjustBalance (node .red l k v r)) .red n := by
  obtain ⟨c', hr⟩ := hr
  cases hr with
  | nil => exact inserted_left_red ⟨.black, hl⟩ .nil
  | black hrl hrr => exact inserted_left_red ⟨.black, hl⟩ (.black hrl hrr)
  | @red rl rr rk rv _ hrl hrr =>
      refine ⟨node .red l k v rl, rk, rv, rr, .red, ?_, Llrb.red hl hrl, hrr⟩
      simp [adjustBalance, adjustLeft, rotateLeft, hl.isRed_eq, hrr.isRed_eq]

section InsertEquations

variable {cmp : κ → κ → Ordering} {key : κ} {value : ν} {c : NodeColor} {l r : Treemap κ ν} {k : κ}
  {v : ν}

theorem treemapInsertInternal_gt (hcmp : cmp key k = .gt) :
    treemapInsertInternal cmp key value (node c l k v r) =
      if (treemapInsertInternal cmp key value r).1 = 0 then
        (0, adjustBalance (node c l k v (treemapInsertInternal cmp key value r).2))
      else
        ((treemapInsertInternal cmp key value r).1,
          node c l k v (treemapInsertInternal cmp key value r).2) := by
  simp only [treemapInsertInternal, hcmp, ne_eq, ite_not]

theorem treemapInsertInternal_lt (hcmp : cmp key k = .lt) :
    treemapInsertInternal cmp key value (node c l k v r) =
      if (treemapInsertInternal cmp key value l).1 = 0 then
        (0, adjustBalance (node c (treemapInsertInternal cmp key value l).2 k v r))
      else
        ((treemapInsertInternal cmp key value l).1,
          node c (treemapInsertInternal cmp key value l).2 k v r) := by
  simp only [treemapInsertInternal, hcmp, ne_eq, ite_not]

theorem treemapInsertInternal_eq (hcmp : cmp key k = .eq) :
    treemapInsertInternal cmp key value (node c l k v r) = (1, node c l k v r) := by
  simp only [treemapInsertInternal, hcmp]

end InsertEquations

theorem treemapInsertInternal_balance (cmp : κ → κ → Ordering) (key : κ) (value : ν)
    {t : Treemap κ ν} {c : NodeColor} {n : Nat} (ht : Llrb t c n) :
    (treemapInsertInternal cmp key value t).1 = 0 →
      Inserted (treemapInsertInternal cmp key value t).2 c n := by
  induction ht with
  | nil => exact fun _ => ⟨.red, .red .nil .nil⟩
  | @red l r k v n hl hr ihl ihr =>
      cases hcmp : cmp key k with
      | eq => simp [treemapInsertInternal_eq hcmp]
      | gt =>
          rw [treemapInsertInternal_gt hcmp]
          split
          · rename_i hret
            exact fun _ => inserted_right_red hl (ihr hret)
          · exact fun hzero => absurd hzero ‹_›
      | lt =>
          rw [treemapInsertInternal_lt hcmp]
          split
          · rename_i hret
            exact fun _ => inserted_left_red (ihl hret) hr
          · exact fun hzero => absurd hzero ‹_›
  | @black l r k v c n hl hr ihl ihr =>
      cases hcmp : cmp key k with
      | eq => simp [treemapInsertInternal_eq hcmp]
      | gt =>
          rw [treemapInsertInternal_gt hcmp]
          split
          · rename_i hret
            obtain ⟨c', hr'⟩ := ihr hret
            exact fun _ => inserted_right_black hl hr'
          · exact fun hzero => absurd hzero ‹_›
      | lt =>
          rw [treemapInsertInternal_lt hcmp]
          split
          · rename_i hret
            exact fun _ => inserted_left_black (ihl hret) hr
          · exact fun hzero => absurd hzero ‹_›

/-! ### Where a key belongs -/

structure Splits (cmp : κ → κ → Ordering) (key : κ) (before after : List (κ × ν)) : Prop where
  before_gt : ∀ entry ∈ before, cmp key entry.1 = .gt
  after_lt : ∀ entry ∈ after, cmp key entry.1 = .lt

theorem append_cons_split {α : Type} {front back before after : List α} {x : α}
    (heq : front ++ x :: back = before ++ after) :
    (∃ rest, before = front ++ x :: rest ∧ back = rest ++ after) ∨
      ∃ rest, front = before ++ rest ∧ after = rest ++ x :: back := by
  rcases List.append_eq_append_iff.mp heq with ⟨rest, hbefore, hafter⟩ | ⟨rest, hfront, hafter⟩
  · cases rest with
    | nil => exact Or.inr ⟨[], by simpa using hbefore.symm, by simpa using hafter.symm⟩
    | cons y rest =>
        obtain ⟨rfl, rfl⟩ := List.cons.inj hafter
        exact Or.inl ⟨rest, hbefore, rfl⟩
  · exact Or.inr ⟨rest, hfront, hafter⟩

theorem treemapInsertInternal_toList {cmp : κ → κ → Ordering} {key : κ} (value : ν) :
    ∀ {t : Treemap κ ν} {before after : List (κ × ν)}, Splits cmp key before after →
      t.toList = before ++ after →
      (treemapInsertInternal cmp key value t).1 = 0 ∧
        (treemapInsertInternal cmp key value t).2.toList = before ++ (key, value) :: after := by
  intro t
  induction t with
  | nil =>
      intro before after _ heq
      obtain ⟨rfl, rfl⟩ := List.nil_eq_append_iff.mp heq
      simp [treemapInsertInternal]
  | node c l k v r ihl ihr =>
      intro before after hsplit heq
      rcases append_cons_split heq with ⟨rest, rfl, hr⟩ | ⟨rest, hl, rfl⟩
      · have hcmp : cmp key k = .gt := hsplit.before_gt (k, v) (by simp)
        obtain ⟨hret, hlist⟩ := ihr
          ⟨fun entry hentry => hsplit.before_gt entry (by simp [hentry]), hsplit.after_lt⟩ hr
        simp [treemapInsertInternal_gt hcmp, hret, hlist]
      · have hcmp : cmp key k = .lt := hsplit.after_lt (k, v) (by simp)
        obtain ⟨hret, hlist⟩ := ihl
          ⟨hsplit.before_gt, fun entry hentry => hsplit.after_lt entry (by simp [hentry])⟩ hl
        simp [treemapInsertInternal_lt hcmp, hret, hlist]

theorem treemapInsert_new {cmp : κ → κ → Ordering} {t : Treemap κ ν} {key : κ} (value : ν)
    {before after : List (κ × ν)} (ht : Balanced t) (hsplit : Splits cmp key before after)
    (heq : t.toList = before ++ after) :
    (treemapInsert cmp t key value).1 = 0 ∧ Balanced (treemapInsert cmp t key value).2 ∧
      (treemapInsert cmp t key value).2.toList = before ++ (key, value) :: after := by
  obtain ⟨hret, hlist⟩ := treemapInsertInternal_toList value hsplit heq
  obtain ⟨n, ht⟩ := ht
  obtain ⟨c', hbal⟩ := treemapInsertInternal_balance cmp key value ht hret
  exact ⟨hret, hbal.balanced_setBlack, by simpa [treemapInsert] using hlist⟩

theorem treemapInsertInternal_dup {cmp : κ → κ → Ordering} {key : κ} (value : ν) {entry : κ × ν}
    (heq : cmp key entry.1 = .eq) :
    ∀ {t : Treemap κ ν} {before after : List (κ × ν)}, Splits cmp key before after →
      t.toList = before ++ entry :: after → treemapInsertInternal cmp key value t = (1, t) := by
  intro t
  induction t with
  | nil => intro before after _ hlist; simp at hlist
  | node c l k v r ihl ihr =>
      intro before after hsplit hlist
      rcases append_cons_split hlist with ⟨rest, rfl, hr⟩ | ⟨rest, hl, hrest⟩
      · have hcmp : cmp key k = .gt := hsplit.before_gt (k, v) (by simp)
        have hright := ihr
          ⟨fun entry hentry => hsplit.before_gt entry (by simp [hentry]), hsplit.after_lt⟩ hr
        simp [treemapInsertInternal_gt hcmp, hright]
      · cases rest with
        | nil =>
            obtain ⟨rfl, rfl⟩ := List.cons.inj hrest
            exact treemapInsertInternal_eq heq
        | cons x rest =>
            obtain ⟨rfl, rfl⟩ := List.cons.inj hrest
            have hcmp : cmp key k = .lt := hsplit.after_lt (k, v) (by simp)
            have hleft := ihl
              ⟨hsplit.before_gt, fun entry hentry => hsplit.after_lt entry (by simp [hentry])⟩ hl
            simp [treemapInsertInternal_lt hcmp, hleft]

theorem treemapInsert_dup {cmp : κ → κ → Ordering} {t : Treemap κ ν} {key : κ} (value : ν)
    {before after : List (κ × ν)} {entry : κ × ν} (ht : Balanced t)
    (hsplit : Splits cmp key before after) (heq : cmp key entry.1 = .eq)
    (hlist : t.toList = before ++ entry :: after) : treemapInsert cmp t key value = (1, t) := by
  obtain ⟨n, ht⟩ := ht
  have hroot : setBlack t = t := by cases ht <;> rfl
  simp [treemapInsert, treemapInsertInternal_dup value heq hsplit hlist, hroot]

/-! ### Deletion: colours

A deletion descends only into subtrees that can lose a node without losing black height: a red one,
or a black one with a red child on the side the search takes. -/

/-- A subtree that can lose its least binding and keep its black height. -/
inductive Spare : Treemap κ ν → NodeColor → Nat → Prop
  | red {t : Treemap κ ν} {n : Nat} : Llrb t .red n → Spare t .red n
  | leftRed {l r : Treemap κ ν} {k : κ} {v : ν} {n : Nat} :
      Llrb l .red n → Llrb r .black n → Spare (node .black l k v r) .black (n + 1)

/-- A subtree that can lose the binding of `key` and keep its black height. -/
inductive Deletable (cmp : κ → κ → Ordering) (key : κ) : Treemap κ ν → NodeColor → Nat → Prop
  | spare {t : Treemap κ ν} {c : NodeColor} {n : Nat} : Spare t c n → Deletable cmp key t c n
  | rightRed {l r : Treemap κ ν} {k : κ} {v : ν} {n : Nat} :
      Llrb l .black n → Llrb r .red n → cmp key k ≠ .lt →
      Deletable cmp key (node .black l k v r) .black (n + 1)

/-- What is left of such a subtree: the height is the same, and a black root is still black. -/
def Shrunk (t : Treemap κ ν) (c : NodeColor) (n : Nat) : Prop :=
  ∃ c', Llrb t c' n ∧ (c = .black → c' = .black)

theorem Shrunk.llrb_black {t : Treemap κ ν} {n : Nat} (ht : Shrunk t .black n) :
    Llrb t .black n := by
  obtain ⟨c', ht, hc⟩ := ht
  exact hc rfl ▸ ht

theorem shrunk_fixBalance_red {l r : Treemap κ ν} {k : κ} {v : ν} {n : Nat}
    (hl : Llrb l .black n) (hr : Llrb r .black n) :
    Shrunk (fixBalance (node .red l k v r)) .red n :=
  ⟨.red, fixBalance_red hl hr, by simp⟩

theorem shrunk_fixBalance_black {l r : Treemap κ ν} {k : κ} {v : ν} {cl cr : NodeColor} {n : Nat}
    (hl : Llrb l cl n) (hr : Llrb r cr n) (hc : cl = .black ∨ cr = .black) :
    Shrunk (fixBalance (node .black l k v r)) .black (n + 1) := by
  obtain ⟨c, hfix, hblack⟩ := fixBalance_black (k := k) (v := v) hl hr
  exact ⟨c, hfix, fun _ => hblack hc⟩

theorem shrunk_fixBalance_join {l r : Treemap κ ν} {k : κ} {v : ν} {cl cr : NodeColor} {n : Nat}
    (hl : Llrb l cl n) (hr : Llrb r cr n) :
    Shrunk (fixBalance (node .black l k v r)) .red (n + 1) := by
  obtain ⟨c, hfix, -⟩ := fixBalance_black (k := k) (v := v) hl hr
  exact ⟨c, hfix, by simp⟩

/-- The step to the left: the node may have taken over bindings of its right subtree (`middle`), and
whatever is left of its left child is repaired. -/
def DescendsLeft (l : Treemap κ ν) (k : κ) (v : ν) (r moved : Treemap κ ν) (c : NodeColor)
    (n : Nat) : Prop :=
  ∃ c' l' k' v' r' middle cl m, moved = node c' l' k' v' r' ∧
    l'.toList = l.toList ++ middle ∧ middle ++ (k', v') :: r'.toList = (k, v) :: r.toList ∧
    Spare l' cl m ∧ ∀ l'', Shrunk l'' cl m → Shrunk (fixBalance (node c' l'' k' v' r')) c n

theorem descendsLeft_red {l r : Treemap κ ν} {k : κ} {v : ν} {n : Nat} (hl : Llrb l .black n)
    (hr : Llrb r .black n) (hnil : l.isNil = false) :
    DescendsLeft l k v r (leanLeft (node .red l k v r)) .red n := by
  cases hl with
  | nil => simp at hnil
  | @black ll lr lk lv lc m hll hlr =>
  cases lc with
  | red =>
      refine ⟨.red, node .black ll lk lv lr, k, v, r, [], .black, m + 1, ?_, by simp, rfl,
        .leftRed hll hlr, fun l'' hl'' => shrunk_fixBalance_red hl''.llrb_black hr⟩
      simp [leanLeft, hll.isRed_eq]
  | black =>
  cases hr with
  | @black rl rr rk rv rc m hrl hrr =>
  cases rc with
  | black =>
      -- neither child has a node to give: the three of them become one four-node
      refine ⟨.black, node .red ll lk lv lr, k, v, node .red rl rk rv rr, [], .red, m, ?_, by simp,
        by simp, .red (.red hll hlr), ?_⟩
      · simp [leanLeft, moveRedLeft, flipColor, flipRoot, NodeColor.flip, hll.isRed_eq,
          hrl.isRed_eq]
      · rintro l'' ⟨c', hl'', -⟩
        exact shrunk_fixBalance_join hl'' (.red hrl hrr)
  | red =>
      -- the right child gives its least node
      cases hrl with
      | @red rll rlr rlk rlv _ hrll hrlr =>
          refine ⟨.red, node .black (node .red ll lk lv lr) k v rll, rlk, rlv,
            node .black rlr rk rv rr, (k, v) :: rll.toList, .black, m + 1, ?_, by simp, by simp,
            .leftRed (.red hll hlr) hrll, ?_⟩
          · simp [leanLeft, moveRedLeft, rotateRightOfRight, rotateRight, rotateLeft, flipColor,
              flipRoot, NodeColor.flip, hll.isRed_eq]
          · exact fun l'' hl'' => shrunk_fixBalance_red hl''.llrb_black (.black hrlr hrr)

theorem Spare.descendsLeft {l r : Treemap κ ν} {k : κ} {v : ν} {c c' : NodeColor} {n : Nat}
    (ht : Spare (node c l k v r) c' n) (hnil : l.isNil = false) :
    DescendsLeft l k v r (leanLeft (node c l k v r)) c' n := by
  cases ht with
  | red ht =>
      cases ht with
      | red hl hr => exact descendsLeft_red hl hr hnil
  | @leftRed _ _ _ _ m hl hr =>
      refine ⟨.black, l, k, v, r, [], .red, m, ?_, by simp, rfl, .red hl, ?_⟩
      · simp [leanLeft, hl.isRed_eq]
      · rintro l'' ⟨cl, hl'', -⟩
        exact shrunk_fixBalance_black hl'' hr (Or.inr rfl)

theorem Spare.right_eq_nil {r : Treemap κ ν} {k : κ} {v : ν} {c c' : NodeColor} {n : Nat}
    (ht : Spare (node c nil k v r) c' n) : r = nil ∧ n = 0 := by
  cases ht with
  | red ht =>
      cases ht with
      | red hl hr =>
          cases hl
          cases hr
          exact ⟨rfl, rfl⟩
  | leftRed hl _ => cases hl

theorem deleteMin_node_left (fuel : Nat) (c : NodeColor) {l : Treemap κ ν} (k : κ) (v : ν)
    (r : Treemap κ ν) (hnil : l.isNil = false) {c' : NodeColor} {l' : Treemap κ ν} {k' : κ} {v' : ν}
    {r' : Treemap κ ν} (hmoved : leanLeft (node c l k v r) = node c' l' k' v' r') :
    deleteMin (fuel + 1) (node c l k v r) =
      ((deleteMin fuel l').1, fixBalance (node c' (deleteMin fuel l').2 k' v' r')) := by
  cases l with
  | nil => simp at hnil
  | node lc ll lk lv lr =>
      simp only [deleteMin, hmoved]

theorem deleteMin_spec : ∀ (fuel : Nat) {t : Treemap κ ν} {c : NodeColor} {n : Nat},
    Spare t c n → t.toList.length ≤ fuel →
    ∃ least rest, t.toList = least :: rest ∧ (deleteMin fuel t).1 = some least ∧
      (deleteMin fuel t).2.toList = rest ∧ Shrunk (deleteMin fuel t).2 c n := by
  intro fuel
  induction fuel with
  | zero =>
      intro t c n ht hfuel
      cases ht with
      | red ht => cases ht; simp at hfuel
      | leftRed _ _ => simp at hfuel
  | succ fuel ih =>
      intro t c n ht hfuel
      cases t with
      | nil =>
          cases ht with
          | red ht => cases ht
      | node c' l k v r =>
          cases hnil : l.isNil with
          | true =>
              obtain rfl : l = nil := by cases l <;> simp_all
              obtain ⟨rfl, rfl⟩ := ht.right_eq_nil
              cases ht with
              | red ht => exact ⟨(k, v), [], rfl, rfl, rfl, .black, .nil, by simp⟩
          | false =>
              obtain ⟨c1, l1, k1, v1, r1, middle, cl, m, hmoved, hl1, hr1, hspare, hfix⟩ :=
                ht.descendsLeft hnil
              have hsize : l1.toList.length ≤ fuel := by
                have hlen := congrArg List.length hr1
                simp only [toList, List.length_append, List.length_cons] at hfuel hlen
                simp only [hl1, List.length_append]
                omega
              obtain ⟨least, rest, hlist, hleast, hrest, hshrunk⟩ := ih hspare hsize
              rw [deleteMin_node_left fuel c' k v r hnil hmoved]
              refine ⟨least, rest ++ (k1, v1) :: r1.toList, ?_, hleast, ?_, hfix _ hshrunk⟩
              · calc l.toList ++ (k, v) :: r.toList
                    = (l.toList ++ middle) ++ (k1, v1) :: r1.toList := by
                      rw [← hr1, List.append_assoc]
                  _ = least :: (rest ++ (k1, v1) :: r1.toList) := by
                      rw [← hl1, hlist, List.cons_append]
              · simp [hrest]

/-- The step to the right from `leaned`: it stays, or a node of its left subtree takes its place and
it moves into the right one. -/
def DescendsRight (cmp : κ → κ → Ordering) (key : κ) (l : Treemap κ ν) (k : κ) (v : ν)
    (r leaned : Treemap κ ν) (c : NodeColor) (n : Nat) : Prop :=
  leaned.right.isNil = false ∧ ∃ c' l' k' v' r' cr m, leanRight leaned = node c' l' k' v' r' ∧
    ((k' = k ∧ v' = v ∧ l'.toList = l.toList ∧ r'.toList = r.toList ∧ Spare r' cr m) ∨
      ∃ middle, l.toList = l'.toList ++ (k', v') :: middle ∧
        r'.toList = middle ++ (k, v) :: r.toList ∧ Deletable cmp key r' cr m) ∧
    ∀ r'' k'' v'', Shrunk r'' cr m → Shrunk (fixBalance (node c' l' k'' v'' r'')) c n

theorem descendsRight_red {cmp : κ → κ → Ordering} {key : κ} {l r : Treemap κ ν} {k : κ} {v : ν}
    {n : Nat} (hl : Llrb l .black n) (hr : Llrb r .black n) (hnil : r.isNil = false)
    (hcmp : cmp key k ≠ .lt) :
    DescendsRight cmp key l k v r (node .red l k v r) .red n := by
  refine ⟨hnil, ?_⟩
  cases hr with
  | nil => simp at hnil
  | @black rl rr rk rv rc m hrl hrr =>
  cases rc with
  | red =>
      refine ⟨.red, l, k, v, node .black rl rk rv rr, .black, m + 1, ?_,
        Or.inl ⟨rfl, rfl, rfl, rfl, .leftRed hrl hrr⟩,
        fun r'' _ _ hr'' => shrunk_fixBalance_red hl hr''.llrb_black⟩
      simp [leanRight, hrl.isRed_eq]
  | black =>
  cases hl with
  | @black ll lr lk lv lc m hll hlr =>
  cases lc with
  | black =>
      refine ⟨.black, node .red ll lk lv lr, k, v, node .red rl rk rv rr, .red, m, ?_,
        Or.inl ⟨rfl, rfl, by simp, by simp, .red (.red hrl hrr)⟩, ?_⟩
      · simp [leanRight, moveRedRight, flipColor, flipRoot, NodeColor.flip, hll.isRed_eq,
          hrl.isRed_eq]
      · rintro r'' _ _ ⟨c', hr'', -⟩
        exact shrunk_fixBalance_join (.red hll hlr) hr''
  | red =>
      cases hll with
      | @red lll llr llk llv _ hlll hllr =>
          refine ⟨.red, node .black lll llk llv llr, lk, lv,
            node .black lr k v (node .red rl rk rv rr), .black, m + 1, ?_,
            Or.inr ⟨lr.toList, by simp, by simp, .rightRed hlr (.red hrl hrr) hcmp⟩, ?_⟩
          · simp [leanRight, moveRedRight, rotateRight, flipColor, flipRoot, NodeColor.flip,
              hrl.isRed_eq]
          · exact fun r'' _ _ hr'' => shrunk_fixBalance_red (.black hlll hllr) hr''.llrb_black

theorem descendsRight_leftRed {cmp : κ → κ → Ordering} {key : κ} {l r : Treemap κ ν} {k : κ} {v : ν}
    {n : Nat} (hl : Llrb l .red n) (hr : Llrb r .black n) :
    DescendsRight cmp key l k v r (rotateRight (node .black l k v r)) .black (n + 1) := by
  cases hl with
  | @red ll lr lk lv _ hll hlr =>
      refine ⟨by simp [rotateRight], .black, ll, lk, lv, node .red lr k v r, .red, n, ?_,
        Or.inr ⟨lr.toList, by simp, by simp, .spare (.red (.red hlr hr))⟩, ?_⟩
      · simp [leanRight, rotateRight]
      · rintro r'' _ _ ⟨c', hr'', -⟩
        exact shrunk_fixBalance_black hll hr'' (Or.inl rfl)

theorem descendsRight_rightRed {cmp : κ → κ → Ordering} {key : κ} {l r : Treemap κ ν} {k : κ}
    {v : ν} {n : Nat} (hl : Llrb l .black n) (hr : Llrb r .red n) :
    DescendsRight cmp key l k v r (node .black l k v r) .black (n + 1) := by
  refine ⟨by cases hr; rfl, .black, l, k, v, r, .red, n, ?_,
    Or.inl ⟨rfl, rfl, rfl, rfl, .red hr⟩, ?_⟩
  · simp [leanRight, hr.isRed_eq]
  · rintro r'' _ _ ⟨c', hr'', -⟩
    exact shrunk_fixBalance_black hl hr'' (Or.inl rfl)

theorem Deletable.descendsRight {cmp : κ → κ → Ordering} {key : κ} {c c' : NodeColor}
    {l r : Treemap κ ν} {k : κ} {v : ν} {n : Nat} (ht : Deletable cmp key (node c l k v r) c' n)
    (hcmp : cmp key k ≠ .lt) :
    (l = nil ∧ r = nil ∧ c = .red ∧ c' = .red ∧ n = 0) ∨
      DescendsRight cmp key l k v r (unleanLeft (node c l k v r)) c' n := by
  unfold unleanLeft
  rw [left_node]
  cases ht with
  | spare ht =>
      cases ht with
      | red ht =>
          cases ht with
          | red hl hr =>
              cases hnil : r.isNil with
              | true =>
                  obtain rfl : r = nil := by cases r <;> simp_all
                  cases hr
                  cases hl
                  exact Or.inl ⟨rfl, rfl, rfl, rfl, rfl⟩
              | false =>
                  rw [hl.isRed_eq]
                  exact Or.inr (descendsRight_red hl hr hnil hcmp)
      | leftRed hl hr =>
          rw [hl.isRed_eq]
          exact Or.inr (descendsRight_leftRed hl hr)
  | rightRed hl hr _ =>
      rw [hl.isRed_eq]
      exact Or.inr (descendsRight_rightRed hl hr)

/-! ### Deletion: bindings -/

structure Located (cmp : κ → κ → Ordering) (key : κ) (before hit after : List (κ × ν)) : Prop
    extends Splits cmp key before after where
  hit_eq : ∀ entry ∈ hit, cmp key entry.1 = .eq
  hit_length : hit.length ≤ 1

theorem Located.root {cmp : κ → κ → Ordering} {key : κ} {before hit after l r : List (κ × ν)}
    {k : κ} {v : ν} (hloc : Located cmp key before hit after)
    (heq : l ++ (k, v) :: r = before ++ (hit ++ after)) :
    (cmp key k = .gt ∧ ∃ rest, before = l ++ (k, v) :: rest ∧ r = rest ++ (hit ++ after) ∧
        Located cmp key rest hit after) ∨
      (cmp key k = .eq ∧ before = l ∧ hit = [(k, v)] ∧ after = r) ∨
      (cmp key k = .lt ∧ ∃ rest, l = before ++ (hit ++ rest) ∧ after = rest ++ (k, v) :: r ∧
        Located cmp key before hit rest) := by
  rcases append_cons_split heq with ⟨rest, rfl, hr⟩ | ⟨rest, hl, hrest⟩
  · refine Or.inl ⟨hloc.before_gt (k, v) (by simp), rest, rfl, hr, ?_⟩
    exact { hloc with before_gt := fun entry hentry => hloc.before_gt entry (by simp [hentry]) }
  · rcases append_cons_split hrest.symm with ⟨rest', rfl, hr⟩ | ⟨rest', rfl, rfl⟩
    · have hlen := hloc.hit_length
      simp only [List.length_append, List.length_cons] at hlen
      obtain ⟨rfl, rfl⟩ : rest = [] ∧ rest' = [] :=
        ⟨List.length_eq_zero_iff.mp (by omega), List.length_eq_zero_iff.mp (by omega)⟩
      refine Or.inr (Or.inl ⟨hloc.hit_eq (k, v) (by simp), ?_, by simp, ?_⟩)
      · simpa using hl.symm
      · simpa using hr.symm
    · refine Or.inr (Or.inr ⟨hloc.after_lt (k, v) (by simp), rest', hl, rfl, ?_⟩)
      exact { hloc with after_lt := fun entry hentry => hloc.after_lt entry (by simp [hentry]) }

structure Deleted (before hit after : List (κ × ν)) (result : Int × Treemap κ ν) : Prop where
  reported : result.1 = hit.length
  toList_eq : result.2.toList = before ++ after

theorem Spare.shrunk {t : Treemap κ ν} {c : NodeColor} {n : Nat} (ht : Spare t c n) :
    Shrunk t c n := by
  cases ht with
  | red ht => exact ⟨.red, ht, by simp⟩
  | leftRed hl hr => exact ⟨.black, .black hl hr, fun _ => rfl⟩

theorem Deletable.spare_of_lt {cmp : κ → κ → Ordering} {key : κ} {c c' : NodeColor}
    {l r : Treemap κ ν} {k : κ} {v : ν} {n : Nat} (ht : Deletable cmp key (node c l k v r) c' n)
    (hcmp : cmp key k = .lt) : Spare (node c l k v r) c' n := by
  cases ht with
  | spare ht => exact ht
  | rightRed _ _ hne => exact absurd hcmp hne

section DeleteEquations

variable {cmp : κ → κ → Ordering} {key : κ} {c c' : NodeColor} {l l' r r' : Treemap κ ν} {k k' : κ}
  {v v' : ν} (fuel : Nat)

theorem treemapDeleteInternal_lt_nil (hcmp : cmp key k = .lt) :
    treemapDeleteInternal cmp key (fuel + 1) (node c nil k v r) = (0, node c nil k v r) := by
  simp [treemapDeleteInternal, hcmp]

theorem treemapDeleteInternal_lt (hcmp : cmp key k = .lt) (hnil : l.isNil = false)
    (hmoved : leanLeft (node c l k v r) = node c' l' k' v' r') :
    treemapDeleteInternal cmp key (fuel + 1) (node c l k v r) =
      ((treemapDeleteInternal cmp key fuel l').1,
        fixBalance (node c' (treemapDeleteInternal cmp key fuel l').2 k' v' r')) := by
  simp [treemapDeleteInternal, hcmp, hnil, hmoved]

theorem treemapDeleteInternal_leaf (hcmp : cmp key k ≠ .lt) :
    treemapDeleteInternal cmp key (fuel + 1) (node c nil k v nil) =
      if cmp key k = .eq then (1, nil) else (0, fixBalance (node c nil k v nil)) := by
  have hrec : treemapDeleteInternal cmp key fuel (nil : Treemap κ ν) = (0, nil) := by
    cases fuel <;> rfl
  by_cases heq : cmp key k = .eq <;>
    simp [treemapDeleteInternal, deleteRight, unleanLeft, leanRight, hcmp, heq, hrec]

theorem treemapDeleteInternal_right_eq {leaned : Treemap κ ν} {least : κ × ν}
    (hcmp : cmp key k ≠ .lt)
    (hleaned : unleanLeft (node c l k v r) = leaned)
    (hnil : leaned.right.isNil = false) (hmoved : leanRight leaned = node c' l' k' v' r')
    (heq : cmp key k' = .eq) (hleast : (deleteMin fuel r').1 = some least) :
    treemapDeleteInternal cmp key (fuel + 1) (node c l k v r) =
      (1, fixBalance (node c' l' least.1 least.2 (deleteMin fuel r').2)) := by
  cases leaned with
  | nil => simp [leanRight] at hmoved
  | node lc ll lk lv lr =>
      obtain ⟨r'', hmin⟩ : ∃ r'', deleteMin fuel r' = (some least, r'') :=
        ⟨_, Prod.ext hleast rfl⟩
      rw [right_node] at hnil
      simp only [treemapDeleteInternal, hcmp, if_false, deleteRight, hleaned, hnil,
        and_false, hmoved, heq, hmin, Bool.false_eq_true, if_true]

theorem treemapDeleteInternal_right_ne {leaned : Treemap κ ν} (hcmp : cmp key k ≠ .lt)
    (hleaned : unleanLeft (node c l k v r) = leaned)
    (hnil : leaned.right.isNil = false) (hmoved : leanRight leaned = node c' l' k' v' r')
    (hne : cmp key k' ≠ .eq) :
    treemapDeleteInternal cmp key (fuel + 1) (node c l k v r) =
      ((treemapDeleteInternal cmp key fuel r').1,
        fixBalance (node c' l' k' v' (treemapDeleteInternal cmp key fuel r').2)) := by
  cases leaned with
  | nil => simp [leanRight] at hmoved
  | node lc ll lk lv lr =>
      rw [right_node] at hnil
      simp only [treemapDeleteInternal, hcmp, if_false, deleteRight, hleaned, hnil,
        and_false, hmoved, hne, Bool.false_eq_true]

end DeleteEquations

theorem treemapDeleteInternal_spec {cmp : κ → κ → Ordering} {key : κ} : ∀ (fuel : Nat)
    {t : Treemap κ ν} {c : NodeColor} {n : Nat} {before hit after : List (κ × ν)},
    Deletable cmp key t c n → Located cmp key before hit after →
    t.toList = before ++ (hit ++ after) → t.toList.length ≤ fuel →
    Deleted before hit after (treemapDeleteInternal cmp key fuel t) ∧
      Shrunk (treemapDeleteInternal cmp key fuel t).2 c n := by
  intro fuel
  induction fuel with
  | zero =>
      intro t c n before hit after ht _ _ hfuel
      cases ht with
      | spare ht =>
          cases ht with
          | red ht => cases ht; simp at hfuel
          | leftRed _ _ => simp at hfuel
      | rightRed _ _ _ => simp at hfuel
  | succ fuel ih =>
      intro t c n before hit after ht hloc heq hfuel
      cases t with
      | nil =>
          cases ht with
          | spare ht =>
              cases ht with
              | red ht => cases ht
      | node c0 l k v r =>
      simp only [toList, List.length_append, List.length_cons] at hfuel
      rcases hloc.root heq with ⟨hcmp, rest, rfl, hr, hloc'⟩ | ⟨hcmp, rfl, rfl, rfl⟩ |
        ⟨hcmp, rest, hl, rfl, hloc'⟩
      · -- the key is in the right subtree
        rcases ht.descendsRight (by simp [hcmp]) with ⟨rfl, rfl, rfl, rfl, rfl⟩ |
          ⟨hnil, c1, l1, k1, v1, r1, cr, m, hmoved, hside, hfix⟩
        · obtain ⟨rfl, hha⟩ := List.nil_eq_append_iff.mp hr
          obtain ⟨rfl, rfl⟩ := List.append_eq_nil_iff.mp hha
          rw [treemapDeleteInternal_leaf fuel (by simp [hcmp]), if_neg (by simp [hcmp])]
          exact ⟨⟨rfl, by simp⟩, shrunk_fixBalance_red .nil .nil⟩
        · rcases hside with ⟨rfl, rfl, hl1, hr1, hspare⟩ | ⟨middle, hl1, hr1, hdel⟩
          · obtain ⟨hdel, hshrunk⟩ := ih (.spare hspare) hloc' (hr1.trans hr) (by rw [hr1]; omega)
            rw [treemapDeleteInternal_right_ne fuel (by simp [hcmp]) rfl hnil hmoved
              (by simp [hcmp])]
            exact ⟨⟨hdel.reported, by simp [hl1, hdel.toList_eq]⟩, hfix _ _ _ hshrunk⟩
          · have hgt : cmp key k1 = .gt := hloc.before_gt (k1, v1) (by simp [hl1])
            have hloc1 : Located cmp key (middle ++ (k, v) :: rest) hit after :=
              { hloc with before_gt := fun entry hentry => hloc.before_gt entry (by
                  simp only [hl1, List.append_assoc, List.cons_append, List.mem_append,
                    List.mem_cons] at hentry ⊢
                  tauto) }
            have hsize : r1.toList.length ≤ fuel := by
              simp only [hl1, hr1, List.length_append, List.length_cons] at hfuel ⊢
              omega
            obtain ⟨hdel, hshrunk⟩ := ih hdel hloc1 (by simp [hr1, hr]) hsize
            rw [treemapDeleteInternal_right_ne fuel (by simp [hcmp]) rfl hnil hmoved (by simp [hgt])]
            exact ⟨⟨hdel.reported, by simp [hl1, hdel.toList_eq]⟩, hfix _ _ _ hshrunk⟩
      · -- the key is here
        rcases ht.descendsRight (by simp [hcmp]) with ⟨rfl, rfl, rfl, rfl, rfl⟩ |
          ⟨hnil, c1, l1, k1, v1, r1, cr, m, hmoved, hside, hfix⟩
        · rw [treemapDeleteInternal_leaf fuel (by simp [hcmp]), if_pos hcmp]
          exact ⟨⟨rfl, rfl⟩, .black, .nil, by simp⟩
        · rcases hside with ⟨rfl, rfl, hl1, hr1, hspare⟩ | ⟨middle, hl1, hr1, hdel⟩
          · obtain ⟨least, rest, hlist, hleast, hrest, hshrunk⟩ :=
              deleteMin_spec fuel hspare (by rw [hr1]; omega)
            rw [treemapDeleteInternal_right_eq fuel (by simp [hcmp]) rfl hnil hmoved hcmp hleast]
            exact ⟨⟨rfl, by simp [hl1, hrest, ← hr1, hlist]⟩, hfix _ _ _ hshrunk⟩
          · have hgt : cmp key k1 = .gt := hloc.before_gt (k1, v1) (by simp [hl1])
            have hloc1 : Located cmp key middle [(k, v)] r.toList :=
              { hloc with before_gt := fun entry hentry => hloc.before_gt entry (by
                  simp [hl1, hentry]) }
            have hsize : r1.toList.length ≤ fuel := by
              simp only [hl1, hr1, List.length_append, List.length_cons] at hfuel ⊢
              omega
            obtain ⟨hdel, hshrunk⟩ := ih hdel hloc1 (by simp [hr1]) hsize
            rw [treemapDeleteInternal_right_ne fuel (by simp [hcmp]) rfl hnil hmoved (by simp [hgt])]
            exact ⟨⟨hdel.reported, by simp [hl1, hdel.toList_eq]⟩, hfix _ _ _ hshrunk⟩
      · -- the key is in the left subtree
        have hspare := ht.spare_of_lt hcmp
        cases hnil : l.isNil with
        | true =>
            obtain rfl : l = nil := by cases l <;> simp_all
            obtain ⟨rfl, hha⟩ := List.nil_eq_append_iff.mp hl
            obtain ⟨rfl, rfl⟩ := List.append_eq_nil_iff.mp hha
            rw [treemapDeleteInternal_lt_nil fuel hcmp]
            exact ⟨⟨rfl, rfl⟩, hspare.shrunk⟩
        | false =>
            obtain ⟨c1, l1, k1, v1, r1, middle, cl, m, hmoved, hl1, hr1, hspare, hfix⟩ :=
              hspare.descendsLeft hnil
            have hloc1 : Located cmp key before hit (rest ++ middle) :=
              { hloc with after_lt := fun entry hentry => hloc.after_lt entry (by
                  rw [← hr1]
                  simp only [List.mem_append] at hentry ⊢
                  tauto) }
            have hsize : l1.toList.length ≤ fuel := by
              have hlen := congrArg List.length hr1
              simp only [List.length_append, List.length_cons] at hlen
              simp only [hl1, List.length_append]
              omega
            obtain ⟨hdel, hshrunk⟩ := ih (.spare hspare) hloc1 (by simp [hl1, hl]) hsize
            rw [treemapDeleteInternal_lt fuel hcmp hnil hmoved]
            exact ⟨⟨hdel.reported, by simp [hdel.toList_eq, hr1]⟩, hfix _ hshrunk⟩

/-! A black root with a black left child has nothing to spare. No test of the deletion reads the
root's colour, and `treemap_delete` blackens the root at the end, so the deletion from the same tree
with a red root gives the same result. -/

def SameNode (t t' : Treemap κ ν) : Prop :=
  (t = nil ∧ t' = nil) ∨ ∃ c c' l k v r, t = node c l k v r ∧ t' = node c' l k v r

theorem sameNode_node (c c' : NodeColor) (l : Treemap κ ν) (k : κ) (v : ν) (r : Treemap κ ν) :
    SameNode (node c l k v r) (node c' l k v r) :=
  Or.inr ⟨c, c', l, k, v, r, rfl, rfl⟩

theorem SameNode.setBlack_eq {t t' : Treemap κ ν} (h : SameNode t t') :
    setBlack t = setBlack t' := by
  rcases h with ⟨rfl, rfl⟩ | ⟨c, c', l, k, v, r, rfl, rfl⟩ <;> rfl

section RootColor

variable {t t' : Treemap κ ν} (h : SameNode t t')

include h

theorem SameNode.left_eq : t.left = t'.left := by
  rcases h with ⟨rfl, rfl⟩ | ⟨c, c', l, k, v, r, rfl, rfl⟩ <;> rfl

theorem SameNode.right_eq : t.right = t'.right := by
  rcases h with ⟨rfl, rfl⟩ | ⟨c, c', l, k, v, r, rfl, rfl⟩ <;> rfl

theorem SameNode.rotateLeft : SameNode (rotateLeft t) (rotateLeft t') := by
  rcases h with ⟨rfl, rfl⟩ | ⟨c, c', l, k, v, _ | ⟨rc, rl, rk, rv, rr⟩, rfl, rfl⟩
  · exact Or.inl ⟨rfl, rfl⟩
  · exact sameNode_node c c' l k v nil
  · exact sameNode_node c c' _ rk rv rr

theorem SameNode.rotateRight : SameNode (rotateRight t) (rotateRight t') := by
  rcases h with ⟨rfl, rfl⟩ | ⟨c, c', _ | ⟨lc, ll, lk, lv, lr⟩, k, v, r, rfl, rfl⟩
  · exact Or.inl ⟨rfl, rfl⟩
  · exact sameNode_node c c' nil k v r
  · exact sameNode_node c c' ll lk lv _

theorem SameNode.flipColor : SameNode (flipColor t) (flipColor t') := by
  rcases h with ⟨rfl, rfl⟩ | ⟨c, c', l, k, v, r, rfl, rfl⟩
  · exact Or.inl ⟨rfl, rfl⟩
  · exact sameNode_node c.flip c'.flip _ k v _

theorem SameNode.rotateRightOfRight :
    SameNode (rotateRightOfRight t) (rotateRightOfRight t') := by
  rcases h with ⟨rfl, rfl⟩ | ⟨c, c', l, k, v, r, rfl, rfl⟩
  · exact Or.inl ⟨rfl, rfl⟩
  · exact sameNode_node c c' l k v _

theorem SameNode.leanLeft : SameNode (leanLeft t) (leanLeft t') := by
  unfold Treemap.leanLeft moveRedLeft
  dsimp only
  rw [h.left_eq, h.flipColor.right_eq]
  split
  · split
    · exact h.flipColor.rotateRightOfRight.rotateLeft.flipColor
    · exact h.flipColor
  · exact h

theorem SameNode.leanRight : SameNode (leanRight t) (leanRight t') := by
  unfold Treemap.leanRight moveRedRight
  dsimp only
  rw [h.right_eq, h.flipColor.left_eq]
  split
  · split
    · exact h.flipColor.rotateRight.flipColor
    · exact h.flipColor
  · exact h

theorem SameNode.unleanLeft : SameNode (unleanLeft t) (unleanLeft t') := by
  unfold Treemap.unleanLeft
  rw [h.left_eq]
  split
  · exact h.rotateRight
  · exact h

theorem SameNode.adjustLeft : SameNode (adjustLeft t) (adjustLeft t') := by
  have hrotated : SameNode (if t.left.isRed && t.left.left.isRed then Treemap.rotateRight t else t)
      (if t'.left.isRed && t'.left.left.isRed then Treemap.rotateRight t' else t') := by
    rw [h.left_eq]
    split
    · exact h.rotateRight
    · exact h
  unfold Treemap.adjustLeft
  dsimp only
  generalize (if t.left.isRed && t.left.left.isRed then Treemap.rotateRight t else t) = rotated,
    (if t'.left.isRed && t'.left.left.isRed then Treemap.rotateRight t' else t') = rotated'
    at hrotated ⊢
  rw [hrotated.left_eq, hrotated.right_eq]
  split
  · exact hrotated.flipColor
  · exact hrotated

theorem SameNode.fixBalance : SameNode (fixBalance t) (fixBalance t') := by
  unfold Treemap.fixBalance
  rw [h.right_eq]
  split
  · exact h.rotateLeft.adjustLeft
  · exact h.adjustLeft

end RootColor

theorem setBlack_fixBalance (c c' : NodeColor) (l : Treemap κ ν) (k : κ) (v : ν)
    (r : Treemap κ ν) :
    setBlack (fixBalance (node c l k v r)) = setBlack (fixBalance (node c' l k v r)) :=
  (sameNode_node c c' l k v r).fixBalance.setBlack_eq

theorem deleteRight_recolor (cmp : κ → κ → Ordering) (key : κ)
    (descend : Treemap κ ν → Int × Treemap κ ν)
    (unlinkMin : Treemap κ ν → Option (κ × ν) × Treemap κ ν) (c c' : NodeColor)
    (l : Treemap κ ν) (k : κ) (v : ν) (r : Treemap κ ν) :
    (deleteRight cmp key descend unlinkMin (node c l k v r)).map id setBlack =
      (deleteRight cmp key descend unlinkMin (node c' l k v r)).map id setBlack := by
  unfold deleteRight
  rcases (sameNode_node c c' l k v r).unleanLeft with ⟨ht, ht'⟩ | ⟨c1, c1', l1, k1, v1, r1, ht, ht'⟩ <;>
    rw [ht, ht']
  dsimp only
  split
  · rfl
  · rcases (sameNode_node c1 c1' l1 k1 v1 r1).leanRight with
      ⟨ht, ht'⟩ | ⟨c2, c2', l2, k2, v2, r2, ht, ht'⟩ <;> rw [ht, ht']
    dsimp only
    split
    · split <;> simp only [Prod.map_apply, setBlack_fixBalance c2 c2']
    · simp only [Prod.map_apply, setBlack_fixBalance c2 c2']

theorem treemapDeleteInternal_recolor (cmp : κ → κ → Ordering) (key : κ) (fuel : Nat)
    (c c' : NodeColor) (l : Treemap κ ν) (k : κ) (v : ν) (r : Treemap κ ν) :
    (treemapDeleteInternal cmp key fuel (node c l k v r)).map id setBlack =
      (treemapDeleteInternal cmp key fuel (node c' l k v r)).map id setBlack := by
  cases fuel with
  | zero => rfl
  | succ fuel =>
      unfold treemapDeleteInternal
      split
      · split
        · rfl
        · rcases (sameNode_node c c' l k v r).leanLeft with
            ⟨ht, ht'⟩ | ⟨c1, c1', l1, k1, v1, r1, ht, ht'⟩ <;> rw [ht, ht']
          simp only [Prod.map_apply, setBlack_fixBalance c1 c1']
      · exact deleteRight_recolor cmp key _ _ c c' l k v r

theorem treemapDelete_spec {cmp : κ → κ → Ordering} {t : Treemap κ ν} {key : κ}
    {before hit after : List (κ × ν)} (ht : Balanced t) (hloc : Located cmp key before hit after)
    (heq : t.toList = before ++ (hit ++ after)) :
    Deleted before hit after (treemapDelete cmp t key) ∧ Balanced (treemapDelete cmp t key).2 := by
  obtain ⟨n, ht⟩ := ht
  cases ht with
  | nil =>
      obtain ⟨rfl, hha⟩ := List.nil_eq_append_iff.mp heq
      obtain ⟨rfl, rfl⟩ := List.append_eq_nil_iff.mp hha
      exact ⟨⟨rfl, rfl⟩, balanced_nil⟩
  | @black l r k v c m hl hr =>
      obtain ⟨c', t, n, hsame, hlist, hdel⟩ : ∃ c' t n,
          (treemapDeleteInternal cmp key (treemapSize (node .black l k v r))
            (node .black l k v r)).map id setBlack =
          (treemapDeleteInternal cmp key (treemapSize (node .black l k v r)) t).map id setBlack ∧
          t.toList = (node .black l k v r).toList ∧ Deletable cmp key t c' n := by
        cases c with
        | red => exact ⟨_, _, _, rfl, rfl, .spare (.leftRed hl hr)⟩
        | black => exact ⟨_, _, _, treemapDeleteInternal_recolor cmp key _ .black .red l k v r, rfl,
            .spare (.red (.red hl hr))⟩
      obtain ⟨hdeleted, c'', hbal, -⟩ := treemapDeleteInternal_spec
        (treemapSize (node .black l k v r)) hdel hloc (hlist.trans heq) (by rw [hlist]; rfl)
      have hresult : treemapDelete cmp (node .black l k v r) key =
          ((treemapDeleteInternal cmp key (treemapSize (node .black l k v r)) t).1,
            setBlack (treemapDeleteInternal cmp key (treemapSize (node .black l k v r)) t).2) :=
        hsame
      rw [hresult]
      exact ⟨⟨hdeleted.reported, by simpa using hdeleted.toList_eq⟩, hbal.balanced_setBlack⟩

/-! ### Searches

The searches return a binding of the tree whatever the comparison function does; which one is known
when the key splits the bindings. -/

theorem treemapLowerBound_mem {cmp : κ → κ → Ordering} {key : κ} {entry : κ × ν} :
    ∀ {t : Treemap κ ν}, treemapLowerBound cmp t key = some entry → entry ∈ t.toList := by
  intro t
  induction t with
  | nil => simp [treemapLowerBound]
  | node c l k v r ihl ihr =>
      simp only [treemapLowerBound, toList, List.mem_append, List.mem_cons]
      split
      · exact fun h => Or.inr (Or.inr (ihr h))
      · cases hl : treemapLowerBound cmp l key with
        | none => exact fun h => Or.inr (Or.inl (by simpa using h.symm))
        | some found => exact fun h => Or.inl (ihl (by simpa [hl] using h))

theorem treemapLowerBound_eq_head {cmp : κ → κ → Ordering} {key : κ} :
    ∀ {t : Treemap κ ν} {before after : List (κ × ν)}, t.toList = before ++ after →
      (∀ entry ∈ before, cmp entry.1 key = .lt) → (∀ entry ∈ after, cmp entry.1 key ≠ .lt) →
      treemapLowerBound cmp t key = after.head? := by
  intro t
  induction t with
  | nil =>
      intro before after heq _ _
      obtain ⟨rfl, rfl⟩ := List.nil_eq_append_iff.mp heq
      rfl
  | node c l k v r ihl ihr =>
      intro before after heq hbefore hafter
      rcases append_cons_split heq with ⟨rest, rfl, hr⟩ | ⟨rest, hl, rfl⟩
      · rw [treemapLowerBound, if_pos (hbefore (k, v) (by simp)),
          ihr hr (fun entry hentry => hbefore entry (by simp [hentry])) hafter]
      · rw [treemapLowerBound, if_neg (hafter (k, v) (by simp)),
          ihl hl hbefore (fun entry hentry => hafter entry (by simp [hentry]))]
        cases rest <;> rfl

theorem treemapUpperBound_eq_head {cmp : κ → κ → Ordering} {key : κ} :
    ∀ {t : Treemap κ ν} {before after : List (κ × ν)}, t.toList = before ++ after →
      (∀ entry ∈ before, cmp key entry.1 ≠ .lt) → (∀ entry ∈ after, cmp key entry.1 = .lt) →
      treemapUpperBound cmp t key = after.head? := by
  intro t
  induction t with
  | nil =>
      intro before after heq _ _
      obtain ⟨rfl, rfl⟩ := List.nil_eq_append_iff.mp heq
      rfl
  | node c l k v r ihl ihr =>
      intro before after heq hbefore hafter
      rcases append_cons_split heq with ⟨rest, rfl, hr⟩ | ⟨rest, hl, rfl⟩
      · rw [treemapUpperBound, if_neg (hbefore (k, v) (by simp)),
          ihr hr (fun entry hentry => hbefore entry (by simp [hentry])) hafter]
      · rw [treemapUpperBound, if_pos (hafter (k, v) (by simp)),
          ihl hl hbefore (fun entry hentry => hafter entry (by simp [hentry]))]
        cases rest <;> rfl

theorem treemapGet_eq {cmp : κ → κ → Ordering} {key : κ} :
    ∀ {t : Treemap κ ν} {before hit after : List (κ × ν)}, Located cmp key before hit after →
      t.toList = before ++ (hit ++ after) → treemapGet cmp t key = hit.head?.map Prod.snd := by
  intro t
  induction t with
  | nil =>
      intro before hit after _ heq
      obtain ⟨rfl, hha⟩ := List.nil_eq_append_iff.mp heq
      obtain ⟨rfl, rfl⟩ := List.append_eq_nil_iff.mp hha
      rfl
  | node c l k v r ihl ihr =>
      intro before hit after hloc heq
      rcases hloc.root heq with ⟨hcmp, rest, -, hr, hloc'⟩ | ⟨hcmp, -, rfl, -⟩ |
        ⟨hcmp, rest, hl, -, hloc'⟩
      · simp only [treemapGet, hcmp, ihr hloc' hr]
      · simp [treemapGet, hcmp]
      · simp only [treemapGet, hcmp, ihl hloc' hl]

section Neighbours

variable [DecidableEq κ] {t : Treemap κ ν} {before after : List (κ × ν)} {key : κ} {value : ν}

theorem treemapNext_eq (hlist : t.toList = before ++ (key, value) :: after)
    (hbefore : ∀ entry ∈ before, entry.1 ≠ key) : treemapNext t key = after.head? := by
  have hdrop : (before ++ (key, value) :: after).dropWhile (fun entry => entry.1 ≠ key) =
      (key, value) :: after := by
    rw [List.dropWhile_append_of_pos (by simpa using hbefore)]
    simp
  rw [treemapNext, hlist, hdrop, List.tail_cons]

theorem treemapPrev_eq (hlist : t.toList = before ++ (key, value) :: after)
    (hbefore : ∀ entry ∈ before, entry.1 ≠ key) : treemapPrev t key = before.getLast? := by
  have htake : (before ++ (key, value) :: after).takeWhile (fun entry => entry.1 ≠ key) =
      before := by
    rw [List.takeWhile_append_of_pos (by simpa using hbefore)]
    simp
  rw [treemapPrev, hlist, htake]

theorem treemapSetValue_toList (t : Treemap κ ν) (key : κ) (update : ν → ν) :
    (treemapSetValue t key update).toList =
      t.toList.map (fun entry => (entry.1, if entry.1 = key then update entry.2 else entry.2)) := by
  induction t with
  | nil => rfl
  | node c l k v r ihl ihr => simp [treemapSetValue, ihl, ihr]

theorem Llrb.treemapSetValue {c : NodeColor} {n : Nat} (ht : Llrb t c n) (key : κ)
    (update : ν → ν) : Llrb (treemapSetValue t key update) c n := by
  induction ht with
  | nil => exact .nil
  | red _ _ ihl ihr => exact .red ihl ihr
  | black _ _ ihl ihr => exact .black ihl ihr

theorem Balanced.treemapSetValue (ht : Balanced t) (key : κ) (update : ν → ν) :
    Balanced (treemapSetValue t key update) := by
  obtain ⟨n, ht⟩ := ht
  exact ⟨n, ht.treemapSetValue key update⟩

end Neighbours

/-! ### Bindings, whatever the comparison says

An operation takes its bindings from the tree even when the comparison is not an order on the keys
that are there. -/

theorem toList_node_subset {l r : Treemap κ ν} {k : κ} {v : ν} {entries : List (κ × ν)}
    (c : NodeColor) (hl : l.toList ⊆ entries) (hroot : (k, v) ∈ entries)
    (hr : r.toList ⊆ entries) : (node c l k v r).toList ⊆ entries :=
  List.append_subset.mpr ⟨hl, List.cons_subset.mpr ⟨hroot, hr⟩⟩

section Node

variable {l r : Treemap κ ν} {k : κ} {v : ν} (c : NodeColor)

theorem left_subset_toList : l.toList ⊆ (node c l k v r).toList :=
  List.subset_append_left _ _

theorem root_mem_toList : (k, v) ∈ (node c l k v r).toList := by
  simp

theorem right_subset_toList : r.toList ⊆ (node c l k v r).toList :=
  List.Subset.trans (List.subset_cons_self _ _) (List.subset_append_right _ _)

end Node

theorem treemapInsertInternal_perm {cmp : κ → κ → Ordering} {key : κ} {value : ν}
    (t : Treemap κ ν) :
    (treemapInsertInternal cmp key value t).2.toList.Perm
      (if (treemapInsertInternal cmp key value t).1 = 0 then (key, value) :: t.toList
      else t.toList) := by
  induction t with
  | nil => simp [treemapInsertInternal]
  | node c l k v r ihl ihr =>
      cases hcmp : cmp key k with
      | eq => simp [treemapInsertInternal_eq hcmp]
      | gt =>
          rw [treemapInsertInternal, hcmp]
          dsimp only
          split
          · rename_i hret
            rw [if_neg hret] at ihr
            exact (ihr.cons _).append_left _
          · rename_i hret
            rw [if_pos (not_not.mp hret)] at ihr
            rw [if_pos rfl, toList_adjustBalance]
            have hadded : (l.toList ++ (k, v) :: (treemapInsertInternal cmp key value r).2.toList).Perm
                ((l.toList ++ [(k, v)]) ++ (key, value) :: r.toList) := by
              simpa using (ihr.cons (k, v)).append_left l.toList
            simpa using hadded.trans List.perm_middle
      | lt =>
          rw [treemapInsertInternal, hcmp]
          dsimp only
          split
          · rename_i hret
            rw [if_neg hret] at ihl
            exact ihl.append_right _
          · rename_i hret
            rw [if_pos (not_not.mp hret)] at ihl
            rw [if_pos rfl, toList_adjustBalance]
            exact ihl.append_right _

theorem treemapInsert_perm (cmp : κ → κ → Ordering) (t : Treemap κ ν) (key : κ) (value : ν) :
    (treemapInsert cmp t key value).2.toList.Perm
      (if (treemapInsert cmp t key value).1 = 0 then (key, value) :: t.toList else t.toList) := by
  rw [treemapInsert]
  dsimp only
  rw [toList_setBlack]
  exact treemapInsertInternal_perm t

theorem treemapInsert_subset (cmp : κ → κ → Ordering) (t : Treemap κ ν) (key : κ) (value : ν) :
    (treemapInsert cmp t key value).2.toList ⊆
      if (treemapInsert cmp t key value).1 = 0 then (key, value) :: t.toList else t.toList :=
  (treemapInsert_perm cmp t key value).subset

theorem treemapInsert_of_get_none {cmp : κ → κ → Ordering} {t : Treemap κ ν} {key : κ}
    (hget : treemapGet cmp t key = none) (value : ν) : (treemapInsert cmp t key value).1 = 0 := by
  change (treemapInsertInternal cmp key value t).1 = 0
  induction t with
  | nil => rfl
  | node c l k v r ihl ihr =>
      rw [treemapGet] at hget
      cases hcmp : cmp key k with
      | eq => simp [hcmp] at hget
      | gt =>
          rw [hcmp] at hget
          rw [treemapInsertInternal, hcmp]
          simp [ihr hget]
      | lt =>
          rw [hcmp] at hget
          rw [treemapInsertInternal, hcmp]
          simp [ihl hget]

theorem deleteMin_subset : ∀ (fuel : Nat) (t : Treemap κ ν),
    (∀ entry, (deleteMin fuel t).1 = some entry → entry ∈ t.toList) ∧
      (deleteMin fuel t).2.toList ⊆ t.toList := by
  intro fuel
  induction fuel with
  | zero => exact fun t => ⟨by simp [deleteMin], by simp [deleteMin]⟩
  | succ fuel ih =>
      intro t
      cases t with
      | nil => exact ⟨by simp [deleteMin], by simp [deleteMin]⟩
      | node c l k v r =>
          cases l with
          | nil => exact ⟨by simp [deleteMin], by simp [deleteMin]⟩
          | node lc ll lk lv lr =>
              rw [← toList_leanLeft (node c (node lc ll lk lv lr) k v r), deleteMin.eq_4]
              · cases leanLeft (node c (node lc ll lk lv lr) k v r) with
                | nil => exact ⟨by simp, by simp⟩
                | node c' l' k' v' r' =>
                    obtain ⟨hmin, hsub⟩ := ih l'
                    refine ⟨fun entry hentry => left_subset_toList c' (hmin entry hentry), ?_⟩
                    dsimp only
                    rw [toList_fixBalance]
                    exact toList_node_subset c' (List.Subset.trans hsub (left_subset_toList c'))
                      (root_mem_toList c') (right_subset_toList c')
              · intro h
                cases h
              · intro c k v r h
                cases h

theorem deleteRight_subset {cmp : κ → κ → Ordering} {key : κ}
    {descend : Treemap κ ν → Int × Treemap κ ν}
    {unlinkMin : Treemap κ ν → Option (κ × ν) × Treemap κ ν}
    (hdescend : ∀ t, (descend t).2.toList ⊆ t.toList)
    (hunlink : ∀ t, (∀ entry, (unlinkMin t).1 = some entry → entry ∈ t.toList) ∧
      (unlinkMin t).2.toList ⊆ t.toList) (t : Treemap κ ν) :
    (deleteRight cmp key descend unlinkMin t).2.toList ⊆ t.toList := by
  rw [← toList_unleanLeft t, deleteRight]
  cases unleanLeft t with
  | nil => simp
  | node c l k v r =>
      dsimp only
      split
      · simp
      · rw [← toList_leanRight (node c l k v r)]
        cases leanRight (node c l k v r) with
        | nil => simp
        | node c l k v r =>
            dsimp only
            split
            · obtain ⟨hmin, hsub⟩ := hunlink r
              split
              · rename_i hres
                rw [hres] at hmin hsub
                rw [toList_fixBalance]
                exact toList_node_subset c (left_subset_toList c)
                  (right_subset_toList c (hmin _ rfl)) (List.Subset.trans hsub (right_subset_toList c))
              · rename_i hres
                rw [hres] at hsub
                rw [toList_fixBalance]
                exact toList_node_subset c (left_subset_toList c) (root_mem_toList c)
                  (List.Subset.trans hsub (right_subset_toList c))
            · rw [toList_fixBalance]
              exact toList_node_subset c (left_subset_toList c) (root_mem_toList c)
                (List.Subset.trans (hdescend r) (right_subset_toList c))

theorem treemapDeleteInternal_subset {cmp : κ → κ → Ordering} {key : κ} :
    ∀ (fuel : Nat) (t : Treemap κ ν),
      (treemapDeleteInternal cmp key fuel t).2.toList ⊆ t.toList := by
  intro fuel
  induction fuel with
  | zero => exact fun t => by simp [treemapDeleteInternal]
  | succ fuel ih =>
      intro t
      cases t with
      | nil => simp [treemapDeleteInternal]
      | node c l k v r =>
          rw [treemapDeleteInternal]
          split
          · split
            · exact fun _ h => h
            · rw [← toList_leanLeft (node c l k v r)]
              cases leanLeft (node c l k v r) with
              | nil => simp
              | node c l k v r =>
                  dsimp only
                  rw [toList_fixBalance]
                  exact toList_node_subset c (List.Subset.trans (ih l) (left_subset_toList c))
                    (root_mem_toList c) (right_subset_toList c)
          · exact deleteRight_subset ih (deleteMin_subset fuel) _

theorem treemapDelete_subset (cmp : κ → κ → Ordering) (t : Treemap κ ν) (key : κ) :
    (treemapDelete cmp t key).2.toList ⊆ t.toList := by
  rw [treemapDelete]
  dsimp only
  rw [toList_setBlack]
  exact treemapDeleteInternal_subset _ t

section Pointers

variable [DecidableEq κ] {t : Treemap κ ν} {key : κ}

theorem mem_of_treemapValue {value : ν} (hvalue : treemapValue t key = some value) :
    (key, value) ∈ t.toList := by
  obtain ⟨entry, hfind, rfl⟩ := Option.map_eq_some_iff.mp hvalue
  have hkey : entry.1 = key := by simpa using List.find?_some hfind
  rw [← hkey]
  exact List.mem_of_find?_eq_some hfind

theorem mem_of_treemapNext {entry : κ × ν} (hnext : treemapNext t key = some entry) :
    entry ∈ t.toList :=
  (List.dropWhile_suffix _).subset (List.mem_of_mem_tail (List.mem_of_mem_head? hnext))

theorem mem_treemapSetValue {update : ν → ν} {entry : κ × ν}
    (hentry : entry ∈ (treemapSetValue t key update).toList) :
    ∃ value, (entry.1, value) ∈ t.toList ∧
      entry.2 = if entry.1 = key then update value else value := by
  rw [treemapSetValue_toList] at hentry
  obtain ⟨old, hold, rfl⟩ := List.mem_map.mp hentry
  exact ⟨old.2, hold, rfl⟩

end Pointers

end Liteflow.Treemap

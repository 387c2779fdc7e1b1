import Mathlib.Data.List.Perm.Basic
import Mathlib.Logic.Equiv.Basic
import Mathlib.Order.Lattice
import Mathlib.Order.Nat

/-!
# Binary heaps in a list

The operations of the Go package `container/heap`, on a list whose elements have keys in a linear
order.  While an element moves up or down, the order has a defect at one place, and the invariants
say what still holds around it.
-/

namespace Kubernetes.BinaryHeap

open List

open Equiv (swap_apply_of_ne_of_ne swap_apply_left swap_apply_right)

variable {α K : Type*}

def parent (k : ℕ) : ℕ := (k - 1) / 2

theorem parent_lt {k : ℕ} (hk : 0 < k) : parent k < k := by
  unfold parent
  omega

def swap (h : List α) (i j : ℕ) : List α :=
  match h[i]?, h[j]? with
  | some a, some b => (h.set i b).set j a
  | _, _ => h

variable [LinearOrder K] (key : α → K)

def less (h : List α) (i j : ℕ) : Bool :=
  match h[i]?, h[j]? with
  | some a, some b => key a < key b
  | _, _ => false

def up (h : List α) (j : ℕ) : List α :=
  if 0 < j ∧ less key h j (parent j) then up (swap h (parent j) j) (parent j) else h
termination_by j
decreasing_by exact parent_lt (by tauto)

def child (h : List α) (i n : ℕ) : ℕ :=
  if 2 * i + 2 < n ∧ ¬ less key h (2 * i + 1) (2 * i + 2) then 2 * i + 2 else 2 * i + 1

/-- Move an element down, within the first elements. -/
def down (h : List α) (i n : ℕ) : List α :=
  if 2 * i + 1 < n ∧ less key h (child key h i n) i then
    down (swap h i (child key h i n)) (child key h i n) n
  else h
termination_by n - i
decreasing_by unfold child; split_ifs <;> omega

def push (h : List α) (x : α) : List α := up key (h ++ [x]) h.length

def remove (h : List α) (i : ℕ) : List α :=
  let n := h.length - 1
  if n ≠ i then (up key (down key (swap h i n) i n) i).dropLast else h.dropLast

/-! ## Elements -/

theorem length_swap (h : List α) (i j : ℕ) : (swap h i j).length = h.length := by
  unfold swap
  split
  · rw [length_set, length_set]
  · rfl

variable {h : List α}

theorem getElem?_swap {i j : ℕ} (hi : i < h.length) (hj : j < h.length) (k : ℕ) :
    (swap h i j)[k]? = h[Equiv.swap i j k]? := by
  rw [swap, getElem?_eq_getElem hi, getElem?_eq_getElem hj]
  rw [getElem?_set, getElem?_set, length_set, Equiv.swap_apply_def]
  by_cases hkj : k = j
  · subst hkj
    rw [if_pos rfl, if_pos rfl, ← getElem?_eq_getElem hi]
    split_ifs with hki
    · rw [hki]
    · rfl
  · rw [if_neg (Ne.symm hkj), if_neg hkj]
    by_cases hki : k = i
    · subst hki
      rw [if_pos rfl, if_pos hi, if_pos rfl, getElem?_eq_getElem hj]
    · rw [if_neg (Ne.symm hki), if_neg hki]

theorem swap_perm (h : List α) (i j : ℕ) : (swap h i j).Perm h := by
  unfold swap
  split
  · rename_i a b ha hb
    obtain ⟨hi, rfl⟩ := List.getElem?_eq_some_iff.mp ha
    obtain ⟨hj, rfl⟩ := List.getElem?_eq_some_iff.mp hb
    exact set_set_perm hi hj
  · exact .refl _

theorem up_perm (h : List α) (j : ℕ) : (up key h j).Perm h := by
  fun_induction up key h j with
  | case1 h j _ ih => exact ih.trans (swap_perm _ _ _)
  | case2 => exact .refl _

theorem down_perm (h : List α) (i n : ℕ) : (down key h i n).Perm h := by
  fun_induction down key h i n with
  | case1 h i _ ih => exact ih.trans (swap_perm _ _ _)
  | case2 => exact .refl _

theorem length_down (h : List α) (i n : ℕ) : (down key h i n).length = h.length :=
  (down_perm key h i n).length_eq

theorem getElem?_up {j k : ℕ} (hj : j < h.length) (hk : j < k) : (up key h j)[k]? = h[k]? := by
  fun_induction up key h j with
  | case1 h j hless ih =>
    have hlt := parent_lt hless.1
    rw [ih (by rw [length_swap]; exact hlt.trans hj) (hlt.trans hk),
      getElem?_swap (hlt.trans hj) hj, swap_apply_of_ne_of_ne (hlt.trans hk).ne' hk.ne']
  | case2 => rfl

theorem child_lt {i n : ℕ} (hi : 2 * i + 1 < n) : child key h i n < n := by
  unfold child
  split_ifs with hright
  · exact hright.1
  · exact hi

theorem parent_child (h : List α) (i n : ℕ) : parent (child key h i n) = i := by
  unfold child parent
  split_ifs <;> omega

theorem lt_child (h : List α) (i n : ℕ) : i < child key h i n := by
  unfold child
  split_ifs <;> omega

theorem getElem?_down {i n k : ℕ} (hn : n ≤ h.length) (hi : i < n) (hk : n ≤ k) :
    (down key h i n)[k]? = h[k]? := by
  fun_induction down key h i n with
  | case1 h i hless ih =>
    have hchild := child_lt key (h := h) hless.1
    rw [ih (by rw [length_swap]; exact hn) hchild,
      getElem?_swap (hi.trans_le hn) (hchild.trans_le hn),
      swap_apply_of_ne_of_ne (hi.trans_le hk).ne' (hchild.trans_le hk).ne']
  | case2 => rfl

theorem push_perm (h : List α) (x : α) : (push key h x).Perm (x :: h) :=
  (up_perm key _ _).trans (perm_append_singleton x h)

theorem dropLast_perm_eraseIdx {target : List α} {i : ℕ} (hperm : target.Perm h)
    (hlast : target[h.length - 1]? = h[i]?) : target.dropLast.Perm (h.eraseIdx i) := by
  rw [← eraseIdx_length_sub_one, hperm.length_eq]
  exact List.Perm.eraseIdx_of_getElem?_eq hlast hperm

theorem remove_perm {i : ℕ} (hi : i < h.length) : (remove key h i).Perm (h.eraseIdx i) := by
  unfold remove
  dsimp only
  split_ifs with hlast
  · have hn : h.length - 1 < h.length := by omega
    have hin : i < h.length - 1 := by omega
    apply dropLast_perm_eraseIdx
    · exact ((up_perm key _ _).trans (down_perm key _ _ _)).trans (swap_perm _ _ _)
    · rw [getElem?_up key (by rw [length_down, length_swap]; exact hi) hin,
        getElem?_down key (by rw [length_swap]; exact hn.le) hin le_rfl, getElem?_swap hi hn,
        swap_apply_right]
  · apply dropLast_perm_eraseIdx (.refl h)
    rw [not_not.mp hlast]

/-! ## Order -/

def Le (h : List α) (i j : ℕ) : Prop := ∀ a b, h[i]? = some a → h[j]? = some b → key a ≤ key b

/-- The first elements are a heap. -/
def Ordered (h : List α) (n : ℕ) : Prop := ∀ k, 0 < k → k < n → Le key h (parent k) k

variable {key} {h : List α} {i j k n c : ℕ}

theorem Le.trans (hij : Le key h i j) (hjk : Le key h j k) (hj : j < h.length) : Le key h i k :=
  fun a b ha hb ↦ (hij a _ ha (getElem?_eq_getElem hj)).trans
    (hjk _ b (getElem?_eq_getElem hj) hb)

theorem le_of_less (hless : less key h i j) : Le key h i j := by
  intro a b ha hb
  rw [less, ha, hb] at hless
  exact (of_decide_eq_true hless).le

theorem le_of_not_less (hless : ¬ less key h i j) : Le key h j i := by
  intro b a hb ha
  rw [less, ha, hb] at hless
  exact not_lt.mp fun hlt ↦ hless (decide_eq_true hlt)

theorem le_swap (hi : i < h.length) (hj : j < h.length) {k l : ℕ} :
    Le key (swap h i j) k l ↔ Le key h (Equiv.swap i j k) (Equiv.swap i j l) := by
  simp only [Le, getElem?_swap hi hj]

/-- The element at the place may be smaller than its parent. -/
structure UpOrdered (key : α → K) (h : List α) (n j : ℕ) : Prop where
  other : ∀ k, 0 < k → k < n → k ≠ j → Le key h (parent k) k
  grand : ∀ k, 0 < k → k < n → parent k = j → 0 < j → Le key h (parent j) k

section

variable (hup : UpOrdered key h n j) (hn : n ≤ h.length) (hj : j < n)

include hup hn hj

theorem UpOrdered.swap (hpos : 0 < j) (hless : less key h j (parent j)) :
    UpOrdered key (swap h (parent j) j) n (parent j) := by
  have hlt : parent j < j := parent_lt hpos
  have hjlen : j < h.length := hj.trans_le hn
  have hplen : parent j < h.length := hlt.trans hjlen
  constructor
  · intro k hk hkn hne
    rw [le_swap hplen hjlen]
    by_cases hkj : k = j
    · rw [hkj, swap_apply_left, swap_apply_right]
      exact le_of_less hless
    · rw [swap_apply_of_ne_of_ne hne hkj]
      by_cases hsibling : parent k = parent j
      · rw [hsibling, swap_apply_left]
        exact (le_of_less hless).trans (hsibling ▸ hup.other k hk hkn hkj) hplen
      · by_cases hbelow : parent k = j
        · rw [hbelow, swap_apply_right]
          exact hup.grand k hk hkn hbelow hpos
        · rw [swap_apply_of_ne_of_ne hsibling hbelow]
          exact hup.other k hk hkn hkj
  · intro k hk hkn hparent hppos
    have hgrand : parent (parent j) < parent j := parent_lt hppos
    have hfirst : Le key h (parent (parent j)) (parent j) :=
      hup.other (parent j) hppos (hlt.trans hj) hlt.ne
    rw [le_swap hplen hjlen, swap_apply_of_ne_of_ne hgrand.ne (hgrand.trans hlt).ne]
    by_cases hkj : k = j
    · rw [hkj, swap_apply_right]
      exact hfirst
    · have hkp : k ≠ parent j := (hparent ▸ parent_lt hk).ne'
      rw [swap_apply_of_ne_of_ne hkp hkj]
      exact hfirst.trans (hparent ▸ hup.other k hk hkn hkj) hplen

theorem UpOrdered.up :
    Ordered key (up key h j) n := by
  fun_induction BinaryHeap.up key h j with
  | case1 h j hless ih =>
    exact ih (hup.swap hn hj hless.1 hless.2) (by rw [length_swap]; exact hn)
      ((parent_lt hless.1).trans hj)
  | case2 h j hstop =>
    intro k hk hkn
    by_cases hkj : k = j
    · subst hkj
      exact le_of_not_less fun hless ↦ hstop ⟨hk, hless⟩
    · exact hup.other k hk hkn hkj

end

/-- The element at `c` may exceed its children, and the one at `i` its parent as long as nothing has
moved. -/
structure DownOrdered (key : α → K) (h : List α) (n i c : ℕ) : Prop where
  le : i ≤ c
  other : ∀ k, 0 < k → k < n → k ≠ i → parent k ≠ c → Le key h (parent k) k
  grand : ∀ k, 0 < k → k < n → parent k = c → 0 < c → Le key h (parent c) k
  start : ∀ k, 0 < k → k < n → parent k = i → 0 < i → Le key h (parent i) k
  moved : c ≠ i → 0 < i → Le key h (parent i) i

theorem child_le (hk : 0 < k) (hkn : k < n) (hparent : parent k = c) :
    Le key h (child key h c n) k := by
  have hrefl : Le key h k k := fun a b ha hb ↦ (Option.some.inj (ha.symm.trans hb) ▸ le_rfl)
  have hcases : k = 2 * c + 1 ∨ k = 2 * c + 2 := by
    unfold parent at hparent
    omega
  unfold child
  split_ifs with hright
  · rcases hcases with rfl | rfl
    · exact le_of_not_less hright.2
    · exact hrefl
  · rcases hcases with rfl | rfl
    · exact hrefl
    · exact le_of_less (not_not.mp fun hless ↦ hright ⟨hkn, hless⟩)

theorem DownOrdered.swap (hdown : DownOrdered key h n i c) (hn : n ≤ h.length)
    (hc : 2 * c + 1 < n) (hless : less key h (child key h c n) c) :
    DownOrdered key (swap h c (child key h c n)) n i (child key h c n) := by
  have hjn : child key h c n < n := child_lt key hc
  have hparent : parent (child key h c n) = c := parent_child key h c n
  have hminimal (k : ℕ) (hk : 0 < k) (hkn : k < n) (hkc : parent k = c) :
      Le key h (child key h c n) k := child_le hk hkn hkc
  have hlt : c < child key h c n := lt_child key h c n
  generalize child key h c n = j at *
  have hjlen : j < h.length := hjn.trans_le hn
  have hclen : c < h.length := hlt.trans hjlen
  have hic : i ≤ c := hdown.le
  refine ⟨hic.trans hlt.le, ?_, ?_, ?_, ?_⟩
  · intro k hk hkn hki hkj
    rw [le_swap hclen hjlen]
    by_cases hsibling : parent k = c
    · rw [hsibling, swap_apply_left]
      by_cases hkeq : k = j
      · rw [hkeq, swap_apply_right]
        exact le_of_less hless
      · have hkc : k ≠ c := (hsibling ▸ parent_lt hk).ne'
        rw [swap_apply_of_ne_of_ne hkc hkeq]
        exact hminimal k hk hkn hsibling
    · rw [swap_apply_of_ne_of_ne hsibling hkj]
      by_cases hkc : k = c
      · subst hkc
        rw [swap_apply_left]
        exact hdown.grand j (hk.trans hlt) hjn hparent hk
      · have hkeq : k ≠ j := fun heq ↦ hsibling (heq ▸ hparent)
        rw [swap_apply_of_ne_of_ne hkc hkeq]
        exact hdown.other k hk hkn hki hsibling
  · intro k hk hkn hkj hjpos
    have hjk : j < k := hkj ▸ parent_lt hk
    rw [le_swap hclen hjlen, hparent, swap_apply_left,
      swap_apply_of_ne_of_ne (hlt.trans hjk).ne' hjk.ne']
    have hother := hdown.other k hk hkn (by omega) (by omega)
    rwa [hkj] at hother
  · intro k hk hkn hki hipos
    have hpi : parent i < i := parent_lt hipos
    rw [le_swap hclen hjlen, swap_apply_of_ne_of_ne (by omega) (by omega)]
    by_cases hkc : k = c
    · subst hkc
      rw [swap_apply_left]
      -- The element has moved down from `i` already.
      have hik : i < k := hki ▸ parent_lt hk
      have hgrand := hdown.grand j (hk.trans hlt) hjn hparent hk
      rw [hki] at hgrand
      exact (hdown.moved hik.ne' hipos).trans hgrand (by omega)
    · by_cases hkj : k = j
      · subst hkj
        rw [swap_apply_right]
        exact (hdown.start k hk hkn hki hipos).trans (le_of_less hless) hjlen
      · rw [swap_apply_of_ne_of_ne hkc hkj]
        exact hdown.start k hk hkn hki hipos
  · intro _ hipos
    have hpi : parent i < i := parent_lt hipos
    rw [le_swap hclen hjlen, swap_apply_of_ne_of_ne (by omega) (by omega)]
    by_cases hci : i = c
    · subst hci
      rw [swap_apply_left]
      exact hdown.start j (hipos.trans hlt) hjn hparent hipos
    · rw [swap_apply_of_ne_of_ne hci (by omega)]
      exact hdown.moved (Ne.symm hci) hipos

theorem DownOrdered.down (hdown : DownOrdered key h n i c) (hn : n ≤ h.length) :
    UpOrdered key (down key h c n) n i := by
  fun_induction BinaryHeap.down key h c n with
  | case1 h c hless ih =>
    exact ih (hdown.swap hn hless.1 hless.2) (by rw [length_swap]; exact hn)
  | case2 h c hstop =>
    refine ⟨fun k hk hkn hki ↦ ?_, hdown.start⟩
    by_cases hkc : parent k = c
    · have hleast : Le key h (child key h c n) k := child_le hk hkn hkc
      have hc : 2 * c + 1 < n := by
        unfold parent at hkc
        omega
      rw [hkc]
      exact (le_of_not_less fun hless ↦ hstop ⟨hc, hless⟩).trans hleast
        ((child_lt key hc).trans_le hn)
    · exact hdown.other k hk hkn hki hkc

theorem Ordered.push (hordered : Ordered key h h.length) (x : α) :
    Ordered key (push key h x) (push key h x).length := by
  have hlen : (BinaryHeap.push key h x).length = h.length + 1 :=
    (push_perm key h x).length_eq
  rw [hlen]
  have hup : UpOrdered key (h ++ [x]) (h.length + 1) h.length := by
    refine ⟨fun k hk hkn hne ↦ ?_, fun k hk hkn hparent ↦ ?_⟩
    · have hkl : k < h.length := by omega
      have hpl : parent k < h.length := (parent_lt hk).trans hkl
      intro a b ha hb
      rw [getElem?_append_left hpl] at ha
      rw [getElem?_append_left hkl] at hb
      exact hordered k hk hkl a b ha hb
    · have hlt := parent_lt hk
      omega
  exact hup.up (by simp) (Nat.lt_succ_self _)

theorem Ordered.dropLast (hordered : Ordered key h (h.length - 1)) :
    Ordered key h.dropLast h.dropLast.length := by
  intro k hk hkn a b ha hb
  rw [length_dropLast] at hkn
  rw [getElem?_dropLast] at ha hb
  split_ifs at ha hb
  exact hordered k hk hkn a b ha hb

theorem Ordered.remove (hordered : Ordered key h h.length) (hi : i < h.length) :
    Ordered key (remove key h i) (remove key h i).length := by
  unfold BinaryHeap.remove
  dsimp only
  split_ifs with hlast
  · have hn : h.length - 1 < h.length := by omega
    have hin : i < h.length - 1 := by omega
    have hdown : DownOrdered key (swap h i (h.length - 1)) (h.length - 1) i i := by
      refine ⟨le_rfl, fun k hk hkn hki hpi ↦ ?_, ?_, ?_, fun hne ↦ absurd rfl hne⟩
      · have hlt := parent_lt hk
        rw [le_swap hi hn, swap_apply_of_ne_of_ne hpi (by omega),
          swap_apply_of_ne_of_ne hki hkn.ne]
        exact hordered k hk (by omega)
      all_goals
        intro k hk hkn hpk hipos
        have hlt : parent k < k := parent_lt hk
        have hpi : parent i < i := parent_lt hipos
        rw [le_swap hi hn, swap_apply_of_ne_of_ne hpi.ne (by omega),
          swap_apply_of_ne_of_ne (by omega) hkn.ne]
        exact (hordered i hipos hi).trans (hpk ▸ hordered k hk (by omega)) hi
    have hup := (hdown.down (by rw [length_swap]; exact hn.le)).up
      (by rw [length_down, length_swap]; exact hn.le) hin
    apply Ordered.dropLast
    rw [(up_perm key _ _).length_eq, length_down, length_swap]
    exact hup
  · apply Ordered.dropLast
    exact fun k hk hkn ↦ hordered k hk (by omega)

/-- The first element of a heap has the smallest key. -/
theorem Ordered.head_le (hordered : Ordered key h h.length) (hk : k < h.length) : Le key h 0 k := by
  induction k using Nat.strongRecOn with
  | ind k ih =>
    rcases Nat.eq_zero_or_pos k with rfl | hpos
    · intro a b ha hb
      rw [Option.some.inj (ha.symm.trans hb)]
    · have hparent := (parent_lt hpos).trans hk
      exact (ih _ (parent_lt hpos) hparent).trans (hordered k hpos hk) hparent

end Kubernetes.BinaryHeap

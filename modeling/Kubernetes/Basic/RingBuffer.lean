import Mathlib.Data.Fin.Basic
import Mathlib.Data.List.Basic
import Mathlib.Data.Nat.ModEq

/-!
# Cyclic buffers and binary search

A cyclic buffer keeps the newest entries of a stream in a fixed number of cells.  Its indices grow
without bound and are reduced modulo the capacity on access.  The second half of the module is the
binary search for the first entry with a monotone property.
-/

namespace Kubernetes

open List

/-- A cyclic buffer holds the entries between its two indices, and no more than fit. -/
structure RingBuffer (Cell : Type*) (capacity : ℕ) where
  cells : Fin capacity → Cell
  startIndex : ℕ
  endIndex : ℕ
  start_le : startIndex ≤ endIndex
  end_le : endIndex ≤ startIndex + capacity

namespace RingBuffer

variable {Cell : Type*} {capacity : ℕ}

def size (buffer : RingBuffer Cell capacity) : ℕ := buffer.endIndex - buffer.startIndex

theorem empty_end_le (capacity : ℕ) : 0 ≤ 0 + capacity := Nat.zero_le _

/-- Forget all entries.  The cells keep their contents. -/
def reset (buffer : RingBuffer Cell capacity) : RingBuffer Cell capacity where
  cells := buffer.cells
  startIndex := 0
  endIndex := 0
  start_le := le_rfl
  end_le := empty_end_le capacity

variable [NeZero capacity]

section

variable (buffer : RingBuffer Cell capacity)

def cell (index : ℕ) : Cell :=
  buffer.cells (Fin.ofNat capacity index)

/-- Append an entry.  A full buffer loses its oldest one. -/
def push (entry : Cell) : RingBuffer Cell capacity where
  cells := Function.update buffer.cells (Fin.ofNat capacity buffer.endIndex) entry
  startIndex :=
    if buffer.endIndex = buffer.startIndex + capacity then buffer.startIndex + 1
    else buffer.startIndex
  endIndex := buffer.endIndex + 1
  start_le := by
    have hstart := buffer.start_le
    have hpos := Nat.pos_of_neZero capacity
    split_ifs <;> omega
  end_le := by
    have hend := buffer.end_le
    split_ifs <;> omega

def toList : List Cell :=
  (List.range buffer.size).map fun index ↦ buffer.cell (buffer.startIndex + index)

end

variable (buffer : RingBuffer Cell capacity)

@[simp]
theorem length_toList : buffer.toList.length = buffer.size := by
  simp [toList]

theorem getElem_toList (index : ℕ) (hindex : index < buffer.toList.length) :
    buffer.toList[index] = buffer.cell (buffer.startIndex + index) := by
  simp [toList]

@[simp]
theorem toList_reset : buffer.reset.toList = [] := by
  simp [toList, reset, size]

section

variable (entry : Cell)

theorem endIndex_push : (buffer.push entry).endIndex = buffer.endIndex + 1 := rfl

theorem cell_push_endIndex : (buffer.push entry).cell buffer.endIndex = entry := by
  simp [cell, push]

/-- A push leaves the cells of the last `capacity - 1` entries alone. -/
theorem cell_push_of_lt {index : ℕ} (hlt : index < buffer.endIndex)
    (hnear : buffer.endIndex < index + capacity) :
    (buffer.push entry).cell index = buffer.cell index := by
  have hne : Fin.ofNat capacity index ≠ Fin.ofNat capacity buffer.endIndex := by
    intro heq
    have hmod : index ≡ buffer.endIndex [MOD capacity] := by
      simpa [Nat.ModEq] using congrArg Fin.val heq
    have hdvd : capacity ∣ buffer.endIndex - index := (Nat.modEq_iff_dvd' hlt.le).mp hmod
    have hle := Nat.le_of_dvd (by omega) hdvd
    omega
  exact Function.update_of_ne hne entry buffer.cells

theorem toList_push :
    (buffer.push entry).toList =
      (if buffer.size = capacity then buffer.toList.tail else buffer.toList) ++ [entry] := by
  have hstart := buffer.start_le
  have hend := buffer.end_le
  have hpos := Nat.pos_of_neZero capacity
  by_cases hfull : buffer.endIndex = buffer.startIndex + capacity
  · have hsize : buffer.size = capacity := by
      unfold size
      omega
    have hstart' : (buffer.push entry).startIndex = buffer.startIndex + 1 := if_pos hfull
    have hsize' : (buffer.push entry).size = capacity := by
      rw [size, endIndex_push]
      omega
    apply ext_getElem
    · simp [hsize, hsize']
      omega
    · intro index hindex hindex'
      rw [getElem_toList, hstart', getElem_append]
      rw [length_toList] at hindex
      split_ifs with hlt
      · rw [length_tail, length_toList] at hlt
        rw [getElem_tail, getElem_toList, cell_push_of_lt buffer entry (by omega) (by omega)]
        congr 1
        omega
      · rw [length_tail, length_toList] at hlt
        rw [getElem_singleton, show buffer.startIndex + 1 + index = buffer.endIndex by omega,
          cell_push_endIndex]
  · have hsize : buffer.size ≠ capacity := by
      unfold size
      omega
    have hstart' : (buffer.push entry).startIndex = buffer.startIndex := if_neg hfull
    have hsize' : (buffer.push entry).size = buffer.size + 1 := by
      rw [size, endIndex_push, size]
      omega
    rw [if_neg hsize]
    apply ext_getElem
    · simp [hsize']
    · intro index hindex hindex'
      rw [getElem_toList, hstart', getElem_append]
      rw [length_toList, hsize', size] at hindex
      split_ifs with hlt
      · rw [length_toList, size] at hlt
        rw [getElem_toList, cell_push_of_lt buffer entry (by omega) (by omega)]
      · rw [length_toList, size] at hlt
        rw [getElem_singleton, show buffer.startIndex + index = buffer.endIndex by omega,
          cell_push_endIndex]

end

theorem drop_toList (first : ℕ) :
    buffer.toList.drop first =
      (List.range (buffer.size - first)).map fun index ↦
        buffer.cell (buffer.startIndex + first + index) := by
  apply ext_getElem
  · simp
  · simp [toList, Nat.add_assoc]

end RingBuffer

/-- The loop of a binary search, with fuel for its turns. -/
def searchLoop (found : ℕ → Bool) : ℕ → ℕ → ℕ → ℕ
  | 0, low, _ => low
  | fuel + 1, low, high =>
    if low < high then
      let middle := low + (high - low) / 2
      if found middle then searchLoop found fuel low middle
      else searchLoop found fuel (middle + 1) high
    else low

/-- `sort.Search`: the smallest index below `count` with the property, or `count`. -/
def search (count : ℕ) (found : ℕ → Bool) : ℕ := searchLoop found count 0 count

theorem searchLoop_spec {count : ℕ} {found : ℕ → Bool}
    (hmono : ∀ a b, a ≤ b → b < count → found a = true → found b = true) (fuel low high : ℕ)
    (hfuel : high - low ≤ fuel) (hlow : low ≤ high) (hhigh : high ≤ count)
    (hbelow : ∀ index < low, found index = false)
    (habove : ∀ index, high ≤ index → index < count → found index = true) :
    searchLoop found fuel low high ≤ count ∧
      (∀ index < searchLoop found fuel low high, found index = false) ∧
      ∀ index, searchLoop found fuel low high ≤ index → index < count → found index = true := by
  induction fuel generalizing low high with
  | zero =>
    have heq : low = high := by omega
    subst heq
    exact ⟨hhigh, hbelow, habove⟩
  | succ fuel ih =>
    by_cases hlt : low < high
    · rw [searchLoop, if_pos hlt]
      by_cases hfound : found (low + (high - low) / 2) = true
      · simp only [hfound, if_true]
        apply ih low (low + (high - low) / 2) (by omega) (by omega) (by omega) hbelow
        intro index hindex hcount
        exact hmono _ index hindex hcount hfound
      · simp only [hfound]
        apply ih (low + (high - low) / 2 + 1) high (by omega) (by omega) hhigh ?_ habove
        intro index hindex
        by_contra hindexFound
        exact hfound (hmono index _ (by omega) (by omega) (Bool.of_not_eq_false hindexFound))
    · rw [searchLoop, if_neg hlt]
      have heq : low = high := by omega
      subst heq
      exact ⟨hhigh, hbelow, habove⟩

variable {Entry : Type*} (entries : List Entry) (property : Entry → Bool)
  (hmono : entries.Pairwise fun a b ↦ property a = true → property b = true) (found : ℕ → Bool)
  (hfound : ∀ index (h : index < entries.length), found index = property entries[index])

include hmono hfound

/-- Searching a list for a property that later entries inherit finds where it begins. -/
theorem search_split :
    (∀ entry ∈ entries.take (search entries.length found), property entry = false) ∧
      ∀ entry ∈ entries.drop (search entries.length found), property entry = true := by
  have hfoundMono : ∀ a b, a ≤ b → b < entries.length → found a = true → found b = true := by
    intro a b hab hb ha
    rcases hab.eq_or_lt with rfl | hlt
    · exact ha
    · rw [hfound b hb]
      rw [hfound a (by omega)] at ha
      exact pairwise_iff_getElem.mp hmono a b (by omega) hb hlt ha
  obtain ⟨hle, hbelow, habove⟩ := searchLoop_spec hfoundMono entries.length 0 entries.length
    (by omega) (by omega) le_rfl (by omega) (by omega)
  change ∀ index < search entries.length found, _ at hbelow
  change ∀ index, search entries.length found ≤ index → _ at habove
  generalize search entries.length found = first at hle hbelow habove ⊢
  constructor
  · intro entry hentry
    obtain ⟨index, hindex, rfl⟩ := mem_iff_getElem.mp hentry
    rw [length_take] at hindex
    rw [getElem_take, ← hfound index (by omega), hbelow index (by omega)]
  · intro entry hentry
    obtain ⟨index, hindex, rfl⟩ := mem_iff_getElem.mp hentry
    rw [length_drop] at hindex
    rw [getElem_drop, ← hfound (first + index) (by omega)]
    exact habove (first + index) (by omega) (by omega)

/-- The entries from there on are those with the property. -/
theorem drop_search_eq_filter :
    entries.drop (search entries.length found) = entries.filter property := by
  obtain ⟨htake, hdrop⟩ := search_split entries property hmono found hfound
  conv_rhs => rw [← take_append_drop (search entries.length found) entries]
  rw [filter_append, filter_eq_nil_iff.mpr fun entry hentry ↦ by simp [htake entry hentry],
    filter_eq_self.mpr hdrop, nil_append]

end Kubernetes

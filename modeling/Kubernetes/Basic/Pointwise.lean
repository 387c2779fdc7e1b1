import Mathlib.Data.List.Forall2

/-!
# Lists related element by element

A loop that rewrites a list in place relates the elements of the old and the new list position by
position.  Such relations compose, and a fact about one element is read off at its position.
-/

namespace Kubernetes.Pointwise

open List

variable {α β γ : Type*} {R : α → β → Prop} {S : β → γ → Prop} {T : α → γ → Prop}
variable {l : List α} {l' : List β} {l'' : List γ}

theorem comp (hcomp : ∀ x y z, R x y → S y z → T x z) (hfirst : List.Forall₂ R l l')
    (hsecond : List.Forall₂ S l' l'') : List.Forall₂ T l l'' := by
  induction hfirst generalizing l'' with
  | nil =>
    rw [forall₂_nil_left_iff.mp hsecond]
    exact .nil
  | cons hxy _ ih =>
    obtain ⟨z, rest, hyz, hrest, rfl⟩ := forall₂_cons_left_iff.mp hsecond
    exact .cons (hcomp _ _ _ hxy hyz) (ih hrest)

variable {x : α}

section

variable (hrel : List.Forall₂ R l l')

include hrel

theorem getElem?_right {index : ℕ} (hx : l[index]? = some x) :
    ∃ y, l'[index]? = some y ∧ R x y := by
  induction hrel generalizing index with
  | nil => simp at hx
  | cons hxy _ ih =>
    cases index with
    | zero =>
      simp only [List.getElem?_cons_zero, Option.some.injEq] at hx
      exact ⟨_, rfl, hx ▸ hxy⟩
    | succ index => exact ih hx

theorem exists_right_of_mem (hx : x ∈ l) : ∃ y ∈ l', R x y := by
  obtain ⟨index, hindex⟩ := mem_iff_getElem?.mp hx
  obtain ⟨y, hy, hxy⟩ := getElem?_right hrel hindex
  exact ⟨y, mem_of_getElem? hy, hxy⟩

theorem exists_left_of_mem {y : β} (hy : y ∈ l') : ∃ x ∈ l, R x y := by
  have hflip : List.Forall₂ (fun y x ↦ R x y) l' l := hrel.flip
  exact exists_right_of_mem hflip hy

theorem exists_zip_of_mem (hx : x ∈ l) : ∃ y, (x, y) ∈ l.zip l' ∧ R x y := by
  induction hrel with
  | nil => exact absurd hx not_mem_nil
  | cons hxy _ ih =>
    rcases mem_cons.mp hx with rfl | hx
    · exact ⟨_, mem_cons_self, hxy⟩
    · obtain ⟨y, hy, hrel⟩ := ih hx
      exact ⟨y, mem_cons_of_mem _ hy, hrel⟩

end

variable {ε : Type*} {f : α → Except ε β}

/-- A loop that computes one result for each element. -/
theorem mapM_eq_ok_iff : l.mapM f = .ok l' ↔ List.Forall₂ (fun x y ↦ f x = .ok y) l l' := by
  induction l generalizing l' with
  | nil =>
    rw [forall₂_nil_left_iff]
    exact ⟨fun h ↦ (Except.ok.inj h).symm, fun h ↦ congrArg Except.ok h.symm⟩
  | cons x rest ih =>
    rw [mapM_cons, forall₂_cons_left_iff]
    cases hx : f x with
    | error err => simp [bind, Except.bind]
    | ok y =>
      cases hrest : rest.mapM f with
      | error err => simp [bind, Except.bind, ← ih, hrest]
      | ok ys => simp [bind, Except.bind, pure, Except.pure, ← ih, hrest, eq_comm]

theorem exists_mapM_eq_ok (hok : ∀ x ∈ l, ∃ y, f x = .ok y) : ∃ ys, l.mapM f = .ok ys := by
  induction l with
  | nil => exact ⟨[], rfl⟩
  | cons x rest ih =>
    obtain ⟨y, hy⟩ := hok x mem_cons_self
    obtain ⟨ys, hys⟩ := ih fun z hz ↦ hok z (mem_cons_of_mem x hz)
    exact ⟨y :: ys, mapM_eq_ok_iff.mpr (.cons hy (mapM_eq_ok_iff.mp hys))⟩

section Joined

variable {g : α → Except ε (List β)} {results : List β}

section

variable (hloop : List.flatten <$> l.mapM g = .ok results)

include hloop

/-- A loop that joins the lists of its elements. -/
theorem flatten_mapM_eq_ok : ∃ lists, l.mapM g = .ok lists ∧ lists.flatten = results := by
  cases hmap : l.mapM g with
  | error err => simp [hmap, Functor.map, Except.map] at hloop
  | ok lists => exact ⟨lists, rfl, by simpa [hmap, Functor.map, Except.map] using hloop⟩

theorem ok_of_flatten_mapM (hx : x ∈ l) : ∃ ys, g x = .ok ys := by
  obtain ⟨lists, hmap, -⟩ := flatten_mapM_eq_ok hloop
  obtain ⟨ys, -, hys⟩ := exists_right_of_mem (mapM_eq_ok_iff.mp hmap) hx
  exact ⟨ys, hys⟩

theorem mem_flatten_of_mapM {y : β} : y ∈ results ↔ ∃ x ∈ l, ∃ ys, g x = .ok ys ∧ y ∈ ys := by
  obtain ⟨lists, hmap, rfl⟩ := flatten_mapM_eq_ok hloop
  have hrel := mapM_eq_ok_iff.mp hmap
  rw [mem_flatten]
  constructor
  · intro h
    obtain ⟨ys, hys, hy⟩ := h
    obtain ⟨x, hx, hxy⟩ := exists_left_of_mem hrel hys
    exact ⟨x, hx, ys, hxy, hy⟩
  · intro h
    obtain ⟨x, hx, ys, hxy, hy⟩ := h
    obtain ⟨zs, hzs, hxz⟩ := exists_right_of_mem hrel hx
    have heq : ys = zs := Except.ok.inj (hxy.symm.trans hxz)
    exact ⟨zs, hzs, heq ▸ hy⟩

end

end Joined

end Kubernetes.Pointwise

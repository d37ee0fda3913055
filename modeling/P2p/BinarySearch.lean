import Mathlib.Logic.Function.Basic
import Mathlib.Data.Nat.Defs

/-!
`<[T]>::binary_search_by` of the Rust standard library of the crate's time (1.52): the loop keeps
`left` and `right` and probes `mid = left + size / 2`. `on_request_approval` calls it on
`awaiting_approval`. A result `Ok(i)` always names an element that compares equal. The search
finds the element at `i` when `f` is `Less` on the elements before it and `Greater` on those after
it, as on a sorted slice, and so an element that compares greater than every other and stands
last, whatever the order of the others; on other unsorted slices it may miss one.
-/

namespace P2p

variable {α : Type}

/-- `Ok(i)` is `.ok i`, `Err(i)` is `.error i`. -/
def binarySearchBy (xs : List α) (f : α → Ordering) : Except Nat Nat :=
  go 0 xs.length
where
  go (left right : Nat) : Except Nat Nat :=
    if left < right then
      let mid := left + (right - left) / 2
      match xs[mid]? with
      | none => .error left
      | some x =>
          match f x with
          | .lt => go (mid + 1) right
          | .gt => go left mid
          | .eq => .ok mid
    else .error left
  termination_by right - left

theorem binarySearchBy_go_ok (xs : List α) (f : α → Ordering) (left right index : Nat)
    (found : binarySearchBy.go xs f left right = .ok index) :
    ∃ x, xs[index]? = some x ∧ f x = .eq := by
  induction left, right using binarySearchBy.go.induct xs f with
  | case1 left right within mid absent =>
      rw [binarySearchBy.go, if_pos within] at found
      simp only [mid, absent] at found
      cases found
  | case2 left right within mid x probe less ih =>
      rw [binarySearchBy.go, if_pos within] at found
      simp only [mid, probe, less] at found
      exact ih found
  | case3 left right within mid x probe greater ih =>
      rw [binarySearchBy.go, if_pos within] at found
      simp only [mid, probe, greater] at found
      exact ih found
  | case4 left right within mid x probe hit =>
      rw [binarySearchBy.go, if_pos within] at found
      simp only [mid, probe, hit, Except.ok.injEq] at found
      exact found ▸ ⟨x, probe, hit⟩
  | case5 left right outside =>
      rw [binarySearchBy.go, if_neg outside] at found
      cases found

theorem binarySearchBy_ok (xs : List α) (f : α → Ordering) (index : Nat)
    (found : binarySearchBy xs f = .ok index) : ∃ x, xs[index]? = some x ∧ f x = .eq :=
  binarySearchBy_go_ok xs f 0 xs.length index found

theorem getElem?_append_singleton {ys : List α} {x z : α} {index : Nat}
    (probe : (ys ++ [x])[index]? = some z) :
    (z ∈ ys ∧ index < ys.length) ∨ (z = x ∧ index = ys.length) := by
  by_cases before : index < ys.length
  · rw [List.getElem?_append_left before] at probe
    exact .inl ⟨List.getElem?_mem probe, before⟩
  · rw [List.getElem?_append_right (Nat.le_of_not_lt before)] at probe
    have last : index - ys.length = 0 := by
      by_contra beyond
      rw [List.getElem?_eq_none (by simp; omega)] at probe
      cases probe
    rw [last] at probe
    exact .inr ⟨by simpa using probe.symm, by omega⟩

theorem binarySearchBy_go_split (xs : List α) (f : α → Ordering) (index : Nat)
    (around : ∀ i x, xs[i]? = some x → f x = compare i index) (left right : Nat)
    (below : left ≤ index) (above : index < right) (bound : right ≤ xs.length) :
    binarySearchBy.go xs f left right = .ok index := by
  induction left, right using binarySearchBy.go.induct xs f with
  | case1 left right within mid absent =>
      simp only [List.getElem?_eq_none_iff] at absent
      omega
  | case2 left right within mid x probe less ih =>
      rw [binarySearchBy.go, if_pos within]
      simp only [mid] at probe ⊢
      simp only [probe, less]
      rw [around _ _ probe, Nat.compare_eq_lt] at less
      exact ih (by omega) above bound
  | case3 left right within mid x probe greater ih =>
      rw [binarySearchBy.go, if_pos within]
      simp only [mid] at probe ⊢
      simp only [probe, greater]
      rw [around _ _ probe, Nat.compare_eq_gt] at greater
      exact ih below greater (by omega)
  | case4 left right within mid x probe same =>
      rw [binarySearchBy.go, if_pos within]
      simp only [mid] at probe ⊢
      simp only [probe, same]
      rw [around _ _ probe, Nat.compare_eq_eq] at same
      rw [same]
  | case5 left right outside => omega

/-- On a slice that `f` splits at `index`, `Less` before it, `Equal` at it and `Greater` after it,
the search answers `Ok(index)`. -/
theorem binarySearchBy_split (xs : List α) (f : α → Ordering) (index : Nat)
    (around : ∀ i x, xs[i]? = some x → f x = compare i index) (within : index < xs.length) :
    binarySearchBy xs f = .ok index :=
  binarySearchBy_go_split xs f index around 0 _ (Nat.zero_le _) within (Nat.le_refl _)

theorem binarySearchBy_last (ys : List α) (x : α) (f : α → Ordering)
    (smaller : ∀ y ∈ ys, f y = .lt) (hit : f x = .eq) :
    binarySearchBy (ys ++ [x]) f = .ok ys.length := by
  refine binarySearchBy_split _ f ys.length (fun i z probe => ?_) (by simp)
  rcases getElem?_append_singleton probe with ⟨member, early⟩ | ⟨rfl, rfl⟩
  · rw [smaller z member, eq_comm, Nat.compare_eq_lt]
    exact early
  · rw [hit, eq_comm, Nat.compare_eq_eq]

end P2p

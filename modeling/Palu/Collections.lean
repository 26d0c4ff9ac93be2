import Mathlib

namespace Palu.Collections

/-- Remove the greatest element of a queue kept as an unordered list. -/
def pop {α : Type*} (cmp : α → α → Ordering) : List α → Option (α × List α)
  | [] => none
  | x :: xs =>
    match pop cmp xs with
    | none => some (x, [])
    | some (m, rest) => if cmp x m = .lt then some (m, x :: rest) else some (x, xs)

variable {α : Type*} {cmp : α → α → Ordering} {xs rest : List α} {m : α}

@[simp] theorem pop_eq_none : pop cmp xs = none ↔ xs = [] := by
  cases xs with
  | nil => simp [pop]
  | cons x xs =>
    simp only [pop]
    split
    · simp
    · split <;> simp

/-- Popping takes out one element and leaves the others. -/
theorem pop_perm (h : pop cmp xs = some (m, rest)) : xs.Perm (m :: rest) := by
  induction xs generalizing m rest with
  | nil => simp [pop] at h
  | cons x xs ih =>
    simp only [pop] at h
    split at h
    · rename_i hn
      obtain rfl := pop_eq_none.mp hn
      cases h
      exact .refl _
    · rename_i y ys hy
      split at h
      · cases h
        exact ((ih hy).cons x).trans (.swap _ _ _)
      · cases h
        exact .refl _

/-- The popped element is greatest. -/
theorem pop_greatest [Std.TransCmp cmp] (h : pop cmp xs = some (m, rest)) :
    ∀ x ∈ xs, (cmp x m).isLE := by
  induction xs generalizing m rest with
  | nil => simp
  | cons x xs ih =>
    simp only [pop] at h
    split at h
    · rename_i hn
      obtain rfl := pop_eq_none.mp hn
      cases h
      simpa using Std.ReflCmp.isLE_rfl
    · rename_i y ys hy
      split at h
      · rename_i hlt
        cases h
        intro z hz
        rcases List.mem_cons.mp hz with rfl | hz
        · simp [hlt]
        · exact ih hy z hz
      · rename_i hge
        cases h
        intro z hz
        have hyx : (cmp y x).isLE := by
          rw [@Std.OrientedCmp.eq_swap _ cmp _ y x]
          cases hc : cmp x y <;> simp_all
        rcases List.mem_cons.mp hz with rfl | hz
        · exact Std.ReflCmp.isLE_rfl
        · exact Std.TransCmp.isLE_trans (ih hy z hz) hyx

/-- Write a vector at one of its own positions. -/
def put {n : ℕ} (xs : Vector α n) (i : Fin n) (x : α) : Vector α n := xs.set i x

@[simp] theorem get_put_same {n : ℕ} (xs : Vector α n) (i : Fin n) (x : α) :
    (put xs i x).get i = x := by
  change (xs.set i x)[(i : ℕ)] = x
  simp

theorem get_put_other {n : ℕ} (xs : Vector α n) {i j : Fin n} (x : α) (h : j ≠ i) :
    (put xs i x).get j = xs.get j := by
  change (xs.set i x)[(j : ℕ)] = xs[(j : ℕ)]
  simp [Fin.ext_iff.not.mp h.symm]

/-- A stable sort by a comparison. -/
def sortBy {α : Type*} (cmp : α → α → Ordering) (xs : List α) : List α :=
  xs.insertionSort fun x y => cmp x y ≠ .gt

theorem sortBy_perm (cmp : α → α → Ordering) (xs : List α) : (sortBy cmp xs).Perm xs :=
  List.perm_insertionSort _ xs

theorem sortBy_sorted [Std.TransCmp cmp] (xs : List α) :
    (sortBy cmp xs).Pairwise fun x y => (cmp x y).isLE := by
  have : Std.Total fun x y => cmp x y ≠ .gt := ⟨fun x y => by
    rw [@Std.OrientedCmp.eq_swap _ cmp _ y x]
    cases cmp x y <;> simp⟩
  have : IsTrans α fun x y => cmp x y ≠ .gt := ⟨fun x y z hxy hyz =>
    Ordering.isLE_iff_ne_gt.mp (Std.TransCmp.isLE_trans (Ordering.isLE_iff_ne_gt.mpr hxy)
      (Ordering.isLE_iff_ne_gt.mpr hyz))⟩
  exact (List.pairwise_insertionSort _ xs).imp Ordering.isLE_iff_ne_gt.mpr

/-- Sorting what is made of the items is sorting the items by what is made of them. -/
theorem sortBy_map {β : Type*} (f : β → α) (ys : List β) :
    sortBy cmp (ys.map f) = (sortBy (fun a b => cmp (f a) (f b)) ys).map f :=
  (List.map_insertionSort _ _ f ys fun _ _ _ _ => Iff.rfl).symm

/-- Sorting by a key puts the keys in order. -/
theorem sortBy_key {κ : Type*} [LinearOrder κ] (f : α → κ) (xs : List α) :
    (sortBy (fun a b => compare (f a) (f b)) xs).Pairwise fun a b => f a ≤ f b := by
  have : Std.TransCmp fun a b : α => compare (f a) (f b) :=
    inferInstanceAs (Std.TransCmp (compareOn f))
  apply (sortBy_sorted xs).imp
  intro a b h
  by_contra hlt
  exact Ordering.isLE_iff_ne_gt.mp h (compare_gt_iff_gt.mpr (not_le.mp hlt))

/-- Comparing by one key and then by another is the lexicographic order. -/
theorem then_isLE {κ ι : Type*} [LinearOrder κ] [LinearOrder ι] {a b : κ} {c d : ι} :
    ((compare a b).then (compare c d)).isLE ↔ toLex (a, c) ≤ toLex (b, d) := by
  rw [Prod.Lex.toLex_le_toLex]
  rcases lt_trichotomy a b with h | h | h
  · simp [compare_lt_iff_lt.mpr h, h]
  · simp [h, Ordering.isLE_iff_ne_gt, compare_gt_iff_gt]
  · simp [compare_gt_iff_gt.mpr h, h.not_gt, h.ne']

section Traversals
universe u
variable {ε : Type*} {α β : Type u} {f : α → Except ε β} {xs : List α} {ys : List β}

theorem bind_ok {x : Except ε α} {k : α → Except ε β} {b : β} :
    x >>= k = .ok b ↔ ∃ a, x = .ok a ∧ k a = .ok b := by
  cases x with
  | error e => simp [bind, Except.bind]
  | ok a => simp [bind, Except.bind]

theorem bind_error {x : Except ε α} {k : α → Except ε β} {e : ε} :
    x >>= k = .error e ↔ x = .error e ∨ ∃ a, x = .ok a ∧ k a = .error e := by
  cases x with
  | error e => simp [bind, Except.bind]
  | ok a => simp [bind, Except.bind]

theorem map_ok {γ : Type*} {x : Except ε α} {k : α → γ} {c : γ} :
    x.map k = .ok c ↔ ∃ a, x = .ok a ∧ k a = c := by
  cases x <;> simp [Except.map]

/-- A fallible traversal answers element by element. -/
theorem mapM_ok : xs.mapM f = .ok ys ↔ List.Forall₂ (fun x y => f x = .ok y) xs ys := by
  induction xs generalizing ys with
  | nil => simp [pure, Except.pure, eq_comm]
  | cons x xs ih =>
    simp only [List.mapM_cons, bind_ok, ih, pure, Except.pure, Except.ok.injEq,
      List.forall₂_cons_left_iff]
    grind

theorem mem_of_mapM (h : xs.mapM f = .ok ys) (y : β) : y ∈ ys ↔ ∃ x ∈ xs, f x = .ok y := by
  replace h := mapM_ok.mp h
  induction h with
  | nil => simp
  | cons hxy _ ih => simp [ih, hxy, eq_comm]

theorem exists_mapM : (∃ ys, xs.mapM f = .ok ys) ↔ ∀ x ∈ xs, ∃ y, f x = .ok y := by
  simp only [mapM_ok]
  induction xs with
  | nil => simp
  | cons x xs ih =>
    simp only [List.forall₂_cons_left_iff, List.forall_mem_cons, ← ih]
    grind

theorem mapM_error {e : ε} (h : xs.mapM f = .error e) : ∃ x ∈ xs, f x = .error e := by
  induction xs with
  | nil => cases h
  | cons x xs ih =>
    rw [List.mapM_cons, bind_error] at h
    rcases h with h | ⟨y, _, h⟩
    · exact ⟨x, by simp, h⟩
    · rcases bind_error.mp h with h | ⟨zs, _, h⟩
      · obtain ⟨z, hz, he⟩ := ih h
        exact ⟨z, List.mem_cons_of_mem _ hz, he⟩
      · cases h

end Traversals

section Sorted
variable {α β : Type*} [LinearOrder β] {key : α → β} {xs ys : List α}

/-- The lower part of a sorted list is a prefix of it. -/
theorem prefix_of_lower (hx : xs.Pairwise fun a b => key a < key b)
    (hy : ys.Pairwise fun a b => key a < key b) (hsub : ∀ a ∈ xs, a ∈ ys)
    (hlower : ∀ a ∈ xs, ∀ b ∈ ys, key b < key a → b ∈ xs) : xs <+: ys := by
  induction xs generalizing ys with
  | nil => exact List.nil_prefix
  | cons x xs ih =>
    obtain ⟨hfirst, hxs⟩ := List.pairwise_cons.mp hx
    cases ys with
    | nil => exact absurd (hsub x (by simp)) (by simp)
    | cons y ys =>
      obtain ⟨hleast, hys⟩ := List.pairwise_cons.mp hy
      have heq : x = y := by
        by_contra hne
        have hmem : x ∈ ys := by simpa [hne] using hsub x (by simp)
        have hlt := hleast x hmem
        rcases List.mem_cons.mp (hlower x (by simp) y (by simp) hlt) with rfl | hm
        · exact lt_irrefl _ hlt
        · exact lt_asymm hlt (hfirst y hm)
      subst heq
      rw [List.prefix_cons_inj]
      refine ih hxs hys (fun a ha => ?_) fun a ha b hb hlt => ?_
      · rcases List.mem_cons.mp (hsub a (by simp [ha])) with rfl | hm
        · exact absurd (hfirst a ha) (lt_irrefl _)
        · exact hm
      · rcases List.mem_cons.mp (hlower a (by simp [ha]) b (by simp [hb]) hlt) with rfl | hm
        · exact absurd (hleast b hb) (lt_irrefl _)
        · exact hm

end Sorted

end Palu.Collections

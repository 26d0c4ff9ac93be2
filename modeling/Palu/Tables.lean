import Mathlib

namespace Palu.Tables

section Ends
variable {α : Type*} {p : α → Prop} {xs : List α} {x : α}

/-- The first item that satisfies `p`. -/
def First (p : α → Prop) (xs : List α) (x : α) : Prop :=
  ∃ i : Fin xs.length, IsLeast {j | p (xs.get j)} i ∧ xs.get i = x

/-- The last item that satisfies `p`. -/
def Last (p : α → Prop) (xs : List α) (x : α) : Prop :=
  ∃ i : Fin xs.length, IsGreatest {j | p (xs.get j)} i ∧ xs.get i = x

theorem First.holds (h : First p xs x) : x ∈ xs ∧ p x := by
  obtain ⟨i, hi, rfl⟩ := h
  exact ⟨List.get_mem _ _, hi.1⟩

theorem Last.holds (h : Last p xs x) : x ∈ xs ∧ p x := by
  obtain ⟨i, hi, rfl⟩ := h
  exact ⟨List.get_mem _ _, hi.1⟩

variable [DecidablePred p]

theorem find?_eq_some_first : xs.find? (fun x => p x) = some x ↔ First p xs x := by
  rw [List.find?_eq_some_iff_getElem]
  simp only [decide_eq_true_eq, Bool.not_eq_true', decide_eq_false_iff_not]
  constructor
  · intro ⟨hp, i, hi, he, hbefore⟩
    refine ⟨⟨i, hi⟩, ⟨?_, ?_⟩, he⟩
    · subst he
      exact hp
    · intro j hj
      by_contra hlt
      exact hbefore j (not_le.mp hlt) hj
  · intro ⟨i, hi, he⟩
    subst he
    refine ⟨hi.1, i, i.2, rfl, ?_⟩
    intro j hj hp
    exact absurd (hi.2 (show (⟨j, hj.trans i.2⟩ : Fin xs.length) ∈ _ from hp)) (not_le.mpr hj)

theorem find?_reverse_eq_some_last : xs.reverse.find? (fun x => p x) = some x ↔ Last p xs x := by
  rw [List.find?_eq_some_iff_getElem]
  simp only [decide_eq_true_eq, Bool.not_eq_true', decide_eq_false_iff_not, List.length_reverse,
    List.getElem_reverse]
  constructor
  · intro ⟨hp, i, hi, he, hafter⟩
    refine ⟨⟨xs.length - 1 - i, by omega⟩, ⟨?_, ?_⟩, he⟩
    · subst he
      exact hp
    · intro j hj
      by_contra hlt
      rw [Fin.le_def, not_le] at hlt
      simp only at hlt
      refine hafter (xs.length - 1 - j) (by omega) ?_
      have hback : xs.length - 1 - (xs.length - 1 - j) = j := by omega
      simpa [hback] using hj
  · intro ⟨i, hi, he⟩
    subst he
    have hback : xs.length - 1 - (xs.length - 1 - i) = i := by omega
    refine ⟨hi.1, xs.length - 1 - i, by omega, by simp [hback], ?_⟩
    intro j hj hp
    have hle := hi.2 (show (⟨xs.length - 1 - j, by omega⟩ : Fin xs.length) ∈ _ from hp)
    rw [Fin.le_def] at hle
    simp only at hle
    omega

omit [DecidablePred p] in
/-- There is a last item as soon as there is one. -/
theorem exists_last : (∃ x, Last p xs x) ↔ ∃ x ∈ xs, p x := by
  classical
  simp only [← find?_reverse_eq_some_last, ← Option.isSome_iff_exists, List.find?_isSome,
    List.mem_reverse, decide_eq_true_eq]

omit [DecidablePred p] in
theorem Last.congr {q : α → Prop} (h : Last p xs x) (hpq : ∀ y, p y ↔ q y) : Last q xs x := by
  rwa [← funext fun y => propext (hpq y)]

/-- The last item that gives something, and what it gives. -/
theorem findSome?_reverse_eq_some_last {β : Type*} {f : α → Option β} {b : β} :
    xs.reverse.findSome? f = some b ↔
      ∃ x, Last (fun x => ∃ b, f x = some b) xs x ∧ f x = some b := by
  classical
  have hbind : ∀ ys : List α, ys.findSome? f =
      (ys.find? fun x => decide (∃ b, f x = some b)).bind f := by
    intro ys
    induction ys with
    | nil => rfl
    | cons y ys ih => cases hy : f y <;> simp [hy, ih]
  rw [hbind, Option.bind_eq_some_iff]
  simp only [find?_reverse_eq_some_last]

end Ends

section Newest
variable {α κ β : Type*} [DecidableEq κ] {key : α → κ} {xs : List α} {k : κ} {x : α}

/-- The last item with a key. -/
def newest (key : α → κ) (xs : List α) (k : κ) : Option α := xs.reverse.find? fun x => key x = k

theorem newest_append_singleton (key : α → κ) (xs : List α) (x : α) :
    newest key (xs ++ [x]) = Function.update (newest key xs) (key x) (some x) := by
  funext k
  simp only [newest, List.reverse_append, List.reverse_singleton, List.singleton_append,
    List.find?_cons]
  by_cases h : key x = k
  · subst h
    simp
  · rw [Function.update_of_ne (Ne.symm h)]
    simp [h, newest]

theorem newest_eq_some : newest key xs k = some x ↔ Last (fun x => key x = k) xs x :=
  find?_reverse_eq_some_last

/-- The last item with a key, among those that satisfy `p`. -/
theorem newest_filter {p : α → Bool} :
    newest key (xs.filter p) k = some x ↔ Last (fun x => p x = true ∧ key x = k) xs x := by
  rw [newest, ← List.filter_reverse, List.find?_filter, ← find?_reverse_eq_some_last]
  simp

/-- The last item with a key, among those made of other items. -/
theorem newest_filterMap {γ : Type*} {f : γ → Option α} {ys : List γ} :
    newest key (ys.filterMap f) k = some x ↔
      ∃ y, Last (fun y => ∃ x, f y = some x ∧ key x = k) ys y ∧ f y = some x := by
  rw [newest, ← List.filterMap_reverse, List.find?_filterMap, Option.bind_eq_some_iff]
  have hany : (fun y => (f y).any fun x => decide (key x = k)) =
      fun y => decide (∃ x, f y = some x ∧ key x = k) := by
    funext y
    cases f y <;> simp
  simp only [hany, find?_reverse_eq_some_last]

/-- Storing each item at its key, in a table that may be a part of what the loop
carries, leaves the last item of every key. -/
theorem foldl_stored {σ : Type*} {value : α → β} {s : σ} {step : σ → α → σ}
    (table : σ → κ → Option β) (hs : table s = fun _ => none)
    (hstep : ∀ s x, table (step s x) = Function.update (table s) (key x) (some (value x)))
    (xs : List α) : table (xs.foldl step s) = fun k => (newest key xs k).map value := by
  induction xs using List.reverseRecOn with
  | nil => exact hs
  | append_singleton xs x ih =>
    rw [List.foldl_append, List.foldl_cons, List.foldl_nil, hstep, ih, newest_append_singleton]
    funext k
    by_cases h : k = key x
    · subst h
      simp
    · simp [Function.update_of_ne h]

end Newest

section Missing
variable {α κ β : Type*} [DecidableEq κ] {key : α → κ} {xs : List α} {table : κ → Option β}
  {o : Option β}

/-- A table that misses the keys without an item still does when a new item fills its key. -/
theorem missing_push (h : ∀ k, table k = none ↔ ∀ x ∈ xs, key x ≠ k) (x : α)
    (ho : o.isSome = true) (k : κ) :
    Function.update table (key x) o k = none ↔ ∀ y ∈ xs ++ [x], key y ≠ k := by
  by_cases hk : k = key x
  · subst hk
    rw [Function.update_self]
    simp [Option.ne_none_iff_isSome.mpr ho]
  · simp only [Function.update_of_ne hk, h, List.mem_append, List.mem_singleton, ne_eq,
      or_imp, forall_and, forall_eq]
    exact (and_iff_left (Ne.symm hk)).symm

end Missing

section Least
variable {β : Type*} [PartialOrder β] {s t : Set β} {m : β}

/-- A set has the least element of a larger one in which nothing lies below it. -/
theorem isLeast_congr (hst : s ⊆ t) (h : ∀ b ∈ t, ∃ a ∈ s, a ≤ b) : IsLeast s m ↔ IsLeast t m := by
  constructor
  · intro hm
    refine ⟨hst hm.1, fun b hb => ?_⟩
    obtain ⟨a, ha, hab⟩ := h b hb
    exact (hm.2 ha).trans hab
  · intro hm
    obtain ⟨a, ha, ham⟩ := h m hm.1
    obtain rfl := le_antisymm ham (hm.2 (hst ha))
    exact ⟨ha, fun b hb => hm.2 (hst hb)⟩

end Least

section Minima
variable {α κ β : Type*} [LinearOrder β] {key : α → κ} {value : α → β} {xs : List α}
  {table : κ → Option β}

/-- A table of the least value of every key. -/
structure Minima (key : α → κ) (value : α → β) (xs : List α) (table : κ → Option β) : Prop where
  least : ∀ k, ∀ m ∈ table k, IsLeast {v | ∃ x ∈ xs, key x = k ∧ value x = v} m
  missing : ∀ k, table k = none ↔ ∀ x ∈ xs, key x ≠ k

theorem Minima.nil (key : α → κ) (value : α → β) : Minima key value [] fun _ => none :=
  ⟨fun _ _ h => (Option.not_mem_none _ h).elim, by simp⟩

/-- The least value so far, once `v` has been seen. -/
def lowered (least : Option β) (v : β) : Option β :=
  match least with
  | some m => if v < m then some v else some m
  | none => some v

theorem lowered_none (v : β) : lowered none v = some v := rfl

theorem lowered_some (m v : β) : lowered (some m) v = some (min v m) := by
  change (if v < m then some v else some m) = _
  split
  · rename_i h
    rw [min_eq_left h.le]
  · rename_i h
    rw [min_eq_right (not_lt.mp h)]

theorem Minima.value_iff (h : Minima key value xs table) {k : κ} {m : β} :
    table k = some m ↔ IsLeast {v | ∃ x ∈ xs, key x = k ∧ value x = v} m := by
  constructor
  · exact h.least k m
  · intro hm
    cases ht : table k with
    | none =>
      obtain ⟨x, hx, hk, _⟩ := hm.1
      exact absurd hk ((h.missing k).mp ht x hx)
    | some m' => rw [(h.least k m' ht).unique hm]

omit [LinearOrder β] in
theorem values_push (k : κ) (x : α) :
    {v | ∃ y ∈ xs ++ [x], key y = k ∧ value y = v} =
      {v | ∃ y ∈ xs, key y = k ∧ value y = v} ∪ {v | key x = k ∧ value x = v} := by
  ext v
  simp [or_and_right, exists_or]

variable [DecidableEq κ]

/-- A new item lowers the least value of its key, or leaves it. -/
theorem Minima.push (h : Minima key value xs table) (x : α) :
    Minima key value (xs ++ [x])
      (Function.update table (key x) (lowered (table (key x)) (value x))) := by
  refine ⟨fun k m hm => ?_, missing_push h.missing x ?_⟩
  · rw [values_push]
    by_cases hk : k = key x
    · subst hk
      rw [Function.update_self] at hm
      have hnew : {v | key x = key x ∧ value x = v} = {value x} := by
        ext v
        simp [eq_comm]
      rw [hnew, Set.union_singleton]
      cases ht : table (key x) with
      | none =>
        rw [ht, lowered_none] at hm
        obtain rfl := Option.some.inj hm
        refine ⟨Set.mem_insert _ _, ?_⟩
        rintro v (rfl | ⟨y, hy, hyk, _⟩)
        · exact le_refl _
        · exact absurd hyk ((h.missing _).mp ht y hy)
      | some m' =>
        rw [ht, lowered_some] at hm
        obtain rfl := Option.some.inj hm
        exact (h.least _ m' ht).insert (value x)
    · rw [Function.update_of_ne hk] at hm
      have hold : {v | key x = k ∧ value x = v} = ∅ := by
        ext v
        simp [Ne.symm hk]
      rw [hold, Set.union_empty]
      exact h.least k m hm
  · cases table (key x) with
    | none => rfl
    | some m => rw [lowered_some]; rfl

end Minima

section Tallies
variable {α κ : Type*} [DecidableEq κ] {xs : List α} {k : κ} {n : ℕ}

/-- How many items there are of every key, one after another. -/
def tally (key : α → κ) (xs : List α) : κ → Option ℕ :=
  xs.foldl (fun table x => Function.update table (key x) (some ((table (key x)).getD 0 + 1)))
    fun _ => none

theorem tally_getD (key : α → κ) (xs : List α) (k : κ) :
    (tally key xs k).getD 0 = xs.countP fun x => key x = k := by
  induction xs using List.reverseRecOn with
  | nil => rfl
  | append_singleton xs x ih =>
    rw [tally, List.foldl_append, ← tally, List.countP_append, List.foldl_cons, List.foldl_nil]
    by_cases h : k = key x
    · subst h
      simp [ih]
    · simp [Function.update_of_ne h, ih, Ne.symm h]

theorem tally_ne_zero (key : α → κ) (xs : List α) (k : κ) : tally key xs k ≠ some 0 := by
  induction xs using List.reverseRecOn with
  | nil => simp [tally]
  | append_singleton xs x ih =>
    rw [tally, List.foldl_append, ← tally, List.foldl_cons, List.foldl_nil]
    by_cases h : k = key x
    · subst h
      simp
    · rwa [Function.update_of_ne h]

/-- A key is counted exactly when it has an item. -/
theorem tally_eq_some (key : α → κ) :
    tally key xs k = some n ↔ n ≠ 0 ∧ xs.countP (fun x => key x = k) = n := by
  rw [← tally_getD]
  have hzero := tally_ne_zero key xs k
  cases h : tally key xs k with
  | none => simp [eq_comm]
  | some m =>
    rw [h] at hzero
    constructor
    · intro he
      cases he
      exact ⟨fun hn => hzero (congrArg some hn), rfl⟩
    · intro ⟨_, he⟩
      exact congrArg some he

end Tallies

section Positions
variable {α κ : Type*} {key : α → κ} {xs : List α} {lookup : κ → Option ℕ}

/-- A lookup that answers the greatest position of a key. -/
structure Indexes (key : α → κ) (xs : List α) (lookup : κ → Option ℕ) : Prop where
  greatest : ∀ k, ∀ i ∈ lookup k, IsGreatest {j | ∃ x, xs[j]? = some x ∧ key x = k} i
  missing : ∀ k, lookup k = none ↔ ∀ x ∈ xs, key x ≠ k

theorem Indexes.nil (key : α → κ) : Indexes key [] fun _ => none :=
  ⟨fun _ _ h => (Option.not_mem_none _ h).elim, by simp⟩

variable [DecidableEq κ]

/-- A new last item takes over its key. -/
theorem Indexes.push (h : Indexes key xs lookup) (x : α) :
    Indexes key (xs ++ [x]) (Function.update lookup (key x) (some xs.length)) := by
  refine ⟨fun k i hi => ?_, missing_push h.missing x rfl⟩
  · by_cases hk : k = key x
    · subst hk
      obtain rfl : xs.length = i := by simpa using hi
      refine ⟨⟨x, by simp, rfl⟩, ?_⟩
      intro j ⟨y, hy, _⟩
      have := (List.getElem?_eq_some_iff.mp hy).1
      simp only [List.length_append, List.length_singleton] at this
      exact Nat.lt_succ_iff.mp this
    · rw [Function.update_of_ne hk] at hi
      obtain ⟨⟨y, hy, hyk⟩, hmax⟩ := h.greatest k i hi
      have hlt := (List.getElem?_eq_some_iff.mp hy).1
      refine ⟨⟨y, by rw [List.getElem?_append_left hlt, hy], hyk⟩, ?_⟩
      intro j ⟨z, hz, hzk⟩
      rcases Nat.lt_or_ge j xs.length with hj | hj
      · rw [List.getElem?_append_left hj] at hz
        exact hmax ⟨z, hz, hzk⟩
      · rw [List.getElem?_append_right hj] at hz
        obtain rfl : z = x := List.mem_singleton.mp (List.mem_of_getElem? hz)
        exact absurd hzk.symm hk

omit [DecidableEq κ] in
theorem Indexes.lt (h : Indexes key xs lookup) {k : κ} {i : ℕ} (hi : i ∈ lookup k) :
    i < xs.length := by
  obtain ⟨⟨x, hx, _⟩, _⟩ := h.greatest k i hi
  exact (List.getElem?_eq_some_iff.mp hx).1

end Positions

section Keeping
variable {ρ α κ : Type*} {item : ρ → Option α} {key : α → κ} {rows : List ρ} {seen : Finset κ}
  {kept : List α} {row : ρ} {x : α}

/-- A pass over rows that has kept one item for each key of theirs. -/
structure Keeps (item : ρ → Option α) (key : α → κ) (rows : List ρ) (seen : Finset κ)
    (kept : List α) : Prop where
  seen_iff : ∀ k, k ∈ seen ↔ ∃ row ∈ rows, ∃ x, item row = some x ∧ key x = k
  kept_iff : ∀ k, k ∈ seen ↔ ∃ x ∈ kept, key x = k
  nodup : (kept.map key).Nodup

theorem Keeps.nil (item : ρ → Option α) (key : α → κ) : Keeps item key [] ∅ [] :=
  ⟨by simp, by simp, by simp⟩

/-- A row whose item has nothing new to offer is passed over. -/
theorem Keeps.skip (h : Keeps item key rows seen kept)
    (hseen : ∀ x, item row = some x → key x ∈ seen) :
    Keeps item key (rows ++ [row]) seen kept := by
  refine ⟨fun k => ?_, h.kept_iff, h.nodup⟩
  rw [h.seen_iff]
  constructor
  · intro ⟨r, hr, hx⟩
    exact ⟨r, List.mem_append_left _ hr, hx⟩
  · intro ⟨r, hr, x, hx, hk⟩
    rcases List.mem_append.mp hr with hr | hr
    · exact ⟨r, hr, x, hx, hk⟩
    · rw [List.mem_singleton.mp hr] at hx
      subst hk
      exact (h.seen_iff _).mp (hseen x hx)

variable [DecidableEq κ]

theorem Keeps.push (h : Keeps item key rows seen kept) (hrow : item row = some x)
    (hx : key x ∉ seen) :
    Keeps item key (rows ++ [row]) (insert (key x) seen) (kept ++ [x]) := by
  refine ⟨fun k => ?_, fun k => ?_, ?_⟩
  · simp [h.seen_iff, hrow, or_and_right, exists_or, or_comm, eq_comm (a := k)]
  · simp [h.kept_iff, or_and_right, exists_or, or_comm, eq_comm (a := k)]
  · rw [List.map_append, List.map_singleton]
    apply List.nodup_append.mpr
    refine ⟨h.nodup, List.nodup_singleton _, ?_⟩
    intro k hk j hj he
    obtain ⟨y, hy, rfl⟩ := List.mem_map.mp hk
    rw [List.mem_singleton] at hj
    exact hx ((h.kept_iff _).mpr ⟨y, hy, he.trans hj⟩)

/-- A key that is seen has one item. -/
theorem Keeps.countP_eq_one (h : Keeps item key rows seen kept) {k : κ} (hk : k ∈ seen) :
    kept.countP (fun x => key x = k) = 1 := by
  obtain ⟨x, hx, rfl⟩ := (h.kept_iff k).mp hk
  have hone := List.count_eq_one_of_mem h.nodup (List.mem_map_of_mem hx)
  rw [List.count, List.countP_map] at hone
  rw [← hone]
  exact List.countP_congr fun y _ => by simp

end Keeping

section Ordered
variable {α : Type*} [LinearOrder α] {p q : α × α}

/-- A pair with its lesser end first. -/
def ordered (p : α × α) : α × α := if p.1 ≤ p.2 then (p.1, p.2) else (p.2, p.1)

theorem ordered_le (p : α × α) : (ordered p).1 ≤ (ordered p).2 := by
  unfold ordered
  split
  · assumption
  · exact le_of_not_ge ‹_›

theorem ordered_of_le (h : p.1 ≤ p.2) : ordered p = p := if_pos h

theorem ordered_swap (p : α × α) : ordered p.swap = ordered p := by
  obtain ⟨a, b⟩ := p
  rcases lt_trichotomy a b with h | rfl | h
  · simp [ordered, h.le, h.not_ge]
  · rfl
  · simp [ordered, h.le, h.not_ge]

theorem ordered_eq_or (p : α × α) : ordered p = p ∨ ordered p = p.swap := by
  unfold ordered
  split
  · exact .inl rfl
  · exact .inr rfl

/-- Two pairs with the same ends, one way round or the other. -/
theorem ordered_eq_iff : ordered p = ordered q ↔ p = q ∨ p = q.swap := by
  constructor
  · intro h
    rcases ordered_eq_or p with hp | hp <;> rcases ordered_eq_or q with hq | hq <;>
      rw [hp, hq] at h
    · exact .inl h
    · exact .inr h
    · exact .inr (by rw [← h, Prod.swap_swap])
    · exact .inl (Prod.swap_injective h)
  · intro h
    rcases h with rfl | rfl
    · rfl
    · exact ordered_swap q

end Ordered

end Palu.Tables

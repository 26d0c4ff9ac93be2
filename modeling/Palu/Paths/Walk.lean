import Mathlib

namespace Palu.Paths

/-- A directed network in which every edge costs at least one. -/
structure Network (V : Type*) where
  edge : V → V → Prop
  weight : V → V → ℕ
  weight_pos : ∀ {u v}, edge u v → 0 < weight u v

/-- The consecutive pairs of a node sequence. -/
def steps {V : Type*} : List V → List (V × V)
  | u :: v :: p => (u, v) :: steps (v :: p)
  | _ => []

section Steps
variable {V : Type*}

@[simp] theorem steps_nil : steps ([] : List V) = [] := rfl

@[simp] theorem steps_singleton (v : V) : steps [v] = [] := rfl

@[simp] theorem steps_cons_cons (u v : V) (p : List V) :
    steps (u :: v :: p) = (u, v) :: steps (v :: p) := rfl

/-- A sequence cut at one of its nodes keeps all its steps. -/
theorem steps_append_cons (p : List V) (v : V) (r : List V) :
    steps (p ++ v :: r) = steps (p ++ [v]) ++ steps (v :: r) := by
  induction p with
  | nil => simp
  | cons u p ih =>
    cases p with
    | nil => simp
    | cons w p => simpa using ih

theorem steps_snoc {p : List V} {u : V} (hl : p.getLast? = some u) (v : V) :
    steps (p ++ [v]) = steps p ++ [(u, v)] := by
  obtain ⟨q, rfl⟩ := List.getLast?_eq_some_iff.mp hl
  rw [List.append_assoc, List.singleton_append, steps_append_cons]
  rfl

theorem map_snd_steps (p : List V) : (steps p).map Prod.snd = p.tail := by
  induction p with
  | nil => rfl
  | cons u p ih =>
    cases p with
    | nil => rfl
    | cons v p => simpa using ih

theorem length_steps (p : List V) : (steps p).length = p.length - 1 := by
  simpa using congrArg List.length (map_snd_steps p)

theorem mem_steps_iff {a b : V} {p : List V} :
    (a, b) ∈ steps p ↔ ∃ s t, p = s ++ a :: b :: t := by
  constructor
  · intro h
    induction p with
    | nil => simp at h
    | cons u p ih =>
      cases p with
      | nil => simp at h
      | cons v p =>
        rcases List.mem_cons.mp h with he | h
        · cases he
          exact ⟨[], p, rfl⟩
        · obtain ⟨s, t, he⟩ := ih h
          exact ⟨u :: s, t, by rw [he, List.cons_append]⟩
  · rintro ⟨s, t, rfl⟩
    rw [steps_append_cons]
    simp

/-- A step out of the first node of a simple sequence is its first step. -/
theorem first_step {a b v : V} {p : List V} (hn : p.Nodup) (hh : p.head? = some v)
    (h : (a, b) ∈ steps p) : b ≠ v ∧ (a = v → ∃ t, p = a :: b :: t) := by
  obtain ⟨s, t, rfl⟩ := mem_steps_iff.mp h
  cases s with
  | nil =>
    cases hh
    simp only [List.nil_append, List.nodup_cons, List.mem_cons, not_or] at hn
    exact ⟨fun he => hn.1.1 he.symm, fun _ => ⟨t, rfl⟩⟩
  | cons u s =>
    cases hh
    simp only [List.cons_append, List.nodup_cons, List.mem_append, List.mem_cons, not_or] at hn
    exact ⟨fun he => hn.1.2.2.1 he.symm, fun he => absurd he.symm hn.1.2.1⟩

/-- A step into the last node of a simple sequence is its last step. -/
theorem last_step {a b v : V} {p : List V} (hn : p.Nodup) (hl : p.getLast? = some v)
    (h : (a, b) ∈ steps p) : a ≠ v ∧ (b = v → ∃ s, p = s ++ [a, b]) := by
  obtain ⟨s, t, rfl⟩ := mem_steps_iff.mp h
  have hab := (List.nodup_append.mp hn).2.1
  rw [List.getLast?_append_of_ne_nil _ (by simp), List.getLast?_cons_cons] at hl
  have hv := List.mem_of_getLast? hl
  refine ⟨fun he => (List.nodup_cons.mp hab).1 (he ▸ hv), fun he => ?_⟩
  subst he
  cases t with
  | nil => exact ⟨s, rfl⟩
  | cons w t =>
    rw [List.getLast?_cons_cons] at hl
    have hb := (List.nodup_cons.mp (List.nodup_cons.mp hab).2).1
    exact absurd (List.mem_of_getLast? hl) hb

theorem isChain_iff_steps (R : V → V → Prop) (p : List V) :
    p.IsChain R ↔ ∀ e ∈ steps p, R e.1 e.2 := by
  induction p with
  | nil => simp
  | cons u p ih =>
    cases p with
    | nil => simp
    | cons v p => simp [ih]

end Steps

variable {V : Type*} {N : Network V} {a b c u v : V} {p q : List V}

/-- The nodes visited from `a`, in order, each joined to the one before it. -/
inductive Walk (N : Network V) (a : V) : V → List V → Prop where
  | start : Walk N a a [a]
  | snoc {u v : V} {p : List V} (walk : Walk N a u p) (step : N.edge u v) :
      Walk N a v (p ++ [v])

/-- What a node sequence costs, as the sum of the weights of its steps. -/
def cost (N : Network V) (p : List V) : ℕ :=
  ((steps p).map fun e => N.weight e.1 e.2).sum

theorem Walk.getLast (h : Walk N a v p) : p.getLast? = some v := by
  cases h <;> simp

theorem Walk.head (h : Walk N a v p) : p.head? = some a := by
  induction h with
  | start => rfl
  | snoc walk _ ih => simp [List.head?_append, ih]

theorem Walk.steps_edge (h : Walk N a v p) : ∀ e ∈ steps p, N.edge e.1 e.2 := by
  induction h with
  | start => simp
  | snoc walk step ih =>
    intro e he
    rw [steps_snoc walk.getLast] at he
    rcases List.mem_append.mp he with he | he
    · exact ih e he
    · rw [List.mem_singleton.mp he]
      exact step

/-- A walk is a sequence with the right ends whose consecutive pairs are edges. -/
theorem walk_iff : Walk N a b p ↔
    p.head? = some a ∧ p.getLast? = some b ∧ p.IsChain N.edge := by
  constructor
  · intro h
    exact ⟨h.head, h.getLast, (isChain_iff_steps _ _).mpr h.steps_edge⟩
  · intro ⟨hh, hl, hc⟩
    obtain ⟨q, rfl⟩ := List.getLast?_eq_some_iff.mp hl
    clear hl
    -- The walk is built node by node from the left, so the last node comes off first.
    induction q using List.reverseRecOn generalizing b with
    | nil =>
      simp only [List.nil_append, List.head?_cons, Option.some.injEq] at hh
      exact hh ▸ .start
    | append_singleton q u ih =>
      have hparts := List.isChain_append.mp hc
      refine .snoc (ih ?_ hparts.1) (hparts.2.2 u (by simp) b (by simp))
      simpa [List.head?_append] using hh

theorem cost_snoc (h : Walk N a u p) (v : V) :
    cost N (p ++ [v]) = cost N p + N.weight u v := by
  simp [cost, steps_snoc h.getLast]

theorem Walk.prefix (h : Walk N a b (p ++ v :: q)) : Walk N a v (p ++ [v]) := by
  obtain ⟨hh, _, hc⟩ := walk_iff.mp h
  refine walk_iff.mpr ⟨?_, by simp, ?_⟩
  · cases p <;> simpa using hh
  · rw [List.append_cons] at hc
    exact (List.isChain_append.mp hc).1

/-- Cutting out loops leaves a walk without repetition that takes no step the
original does not take. -/
theorem Walk.exists_simple (h : Walk N a b p) :
    ∃ q, Walk N a b q ∧ q.Nodup ∧ (steps q).Sublist (steps p) := by
  induction h with
  | start => exact ⟨[a], .start, by simp, List.Sublist.refl _⟩
  | @snoc u v p walk step ih =>
    obtain ⟨q, hq, hn, hs⟩ := ih
    rw [steps_snoc walk.getLast]
    by_cases hv : v ∈ q
    · obtain ⟨s, t, rfl⟩ := List.append_of_mem hv
      refine ⟨s ++ [v], hq.prefix, ?_, ?_⟩
      · rw [List.append_cons] at hn
        exact (List.nodup_append.mp hn).1
      · rw [steps_append_cons] at hs
        exact (List.sublist_append_left _ _).trans (hs.trans (List.sublist_append_left _ _))
    · refine ⟨q ++ [v], .snoc hq step, ?_, ?_⟩
      · simpa [List.nodup_append] using ⟨hn, fun x hx he => hv (he ▸ hx)⟩
      · rw [steps_snoc hq.getLast]
        exact hs.append (List.Sublist.refl _)

end Palu.Paths

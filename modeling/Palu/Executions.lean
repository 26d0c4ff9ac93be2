import Mathlib

namespace Palu.Executions

/-- A stretch of a system's life: its states at the moments `0` to `length`, and
the event that leads from each moment to the next. -/
structure Execution {σ α : Type*} (Step : σ → α → σ → Prop) where
  length : ℕ
  state : ℕ → σ
  event : ℕ → α
  step : ∀ i < length, Step (state i) (event i) (state (i + 1))

namespace Execution
variable {σ α β : Type*} {Step : σ → α → σ → Prop}

/-- No event. -/
def still (s : σ) (e : α) : Execution Step where
  length := 0
  state _ := s
  event _ := e
  step := by simp

/-- One event more, at the start. -/
def cons (s : σ) (e : α) (x : Execution Step) (h : Step s e (x.state 0)) : Execution Step where
  length := x.length + 1
  state
    | 0 => s
    | i + 1 => x.state i
  event
    | 0 => e
    | i + 1 => x.event i
  step
    | 0, _ => h
    | i + 1, hi => x.step i (Nat.lt_of_succ_lt_succ hi)

variable (x : Execution Step)

/-- What holds at the start and is passed on by each event holds at every moment.
It may speak of the moment, and so of what came before it. -/
theorem along {I : ℕ → σ → Prop} (hstart : I 0 (x.state 0))
    (hstep : ∀ i < x.length, I i (x.state i) → I (i + 1) (x.state (i + 1))) :
    ∀ k ≤ x.length, I k (x.state k) := by
  intro k
  induction k with
  | zero => exact fun _ => hstart
  | succ k ih => exact fun hk => hstep k hk (ih (Nat.le_of_succ_le hk))

/-- What every step keeps holds at every moment, once it holds at the start. -/
theorem invariant {I : σ → Prop} (hstart : I (x.state 0))
    (hstep : ∀ s e t, Step s e t → I s → I t) : ∀ k ≤ x.length, I (x.state k) := by
  apply x.along (I := fun _ s => I s) hstart
  intro i hi
  exact hstep _ _ _ (x.step i hi)

/-- A relation that holds over each event of a stretch holds over the stretch. -/
theorem stretch {r : σ → σ → Prop} (hrefl : ∀ s, r s s) (htrans : ∀ s t u, r s t → r t u → r s u)
    {a b : ℕ} (hab : a ≤ b) (hstep : ∀ i, a ≤ i → i < b → r (x.state i) (x.state (i + 1))) :
    r (x.state a) (x.state b) := by
  induction b, hab using Nat.le_induction with
  | base => exact hrefl _
  | succ b hab ih =>
    apply htrans _ _ _ (ih fun i ha hb => hstep i ha (Nat.lt_succ_of_lt hb))
    exact hstep b hab (Nat.lt_succ_self b)

/-- What the events before a moment have to say, the earliest first. -/
def heard (f : α → Option β) (k : ℕ) : List β := (List.range k).filterMap fun i => f (x.event i)

@[simp] theorem heard_zero (f : α → Option β) : x.heard f 0 = [] := rfl

theorem heard_succ (f : α → Option β) (k : ℕ) :
    x.heard f (k + 1) = x.heard f k ++ (f (x.event k)).toList := by
  unfold heard
  rw [List.range_succ, List.filterMap_append]
  cases h : f (x.event k) <;> simp [h]

end Execution

section Notes
variable {σ α β δ : Type*}

/-- Steps that note down what their events say, beside the state. -/
def Noting (Step : σ → α → σ → Prop) (tell : α → Option δ) (s : σ × List δ) (e : α)
    (t : σ × List δ) : Prop :=
  Step s.1 e t.1 ∧ t.2 = s.2 ++ (tell e).toList

/-- The notes taken of an execution are what has been heard of it. -/
def Execution.noting {Step : σ → α → σ → Prop} (x : Execution Step) (tell : α → Option δ) :
    Execution (Noting Step tell) where
  length := x.length
  state i := (x.state i, x.heard tell i)
  event := x.event
  step i hi := ⟨x.step i hi, x.heard_succ tell i⟩

end Notes

section Refinement
variable {σ α β γ τ : Type*}

/-- A system refines a fold in which each operation is one step. An operation is
asked for by an event, and takes effect with that event or a later one. `R` relates
the two, with the operation under way, over the steps that stay within `L`. -/
structure Refines (Step : σ → α → σ → Prop) (L : σ → Prop) (asks : α → Option γ) (ask : β → γ)
    (op : τ → β → τ) (R : σ → τ → Option γ → Prop) : Prop where
  quiet : ∀ {s e s' t o}, Step s e s' → L s' → asks e = none → R s t o →
    R s' t o ∨ ∃ b, o = some (ask b) ∧ R s' (op t b) none
  asked : ∀ {s e s' t o c}, Step s e s' → L s' → asks e = some c → R s t o →
    o = none ∧ (R s' t (some c) ∨ ∃ b, ask b = c ∧ R s' (op t b) none)

/-- The operations take effect in the order in which they are asked for, each once,
but for the one under way. -/
theorem Execution.refines {Step : σ → α → σ → Prop} {L : σ → Prop} {asks : α → Option γ}
    {ask : β → γ} {op : τ → β → τ} {R : σ → τ → Option γ → Prop} (x : Execution Step)
    (h : Refines Step L asks ask op R) {t : τ} (hstart : R (x.state 0) t none) :
    ∀ k ≤ x.length, (∀ i ≤ k, L (x.state i)) → ∃ (bs : List β) (o : Option γ),
      x.heard asks k = bs.map ask ++ o.toList ∧ R (x.state k) (bs.foldl op t) o := by
  apply x.along (I := fun k s => (∀ i ≤ k, L (x.state i)) → ∃ (bs : List β) (o : Option γ),
    x.heard asks k = bs.map ask ++ o.toList ∧ R s (bs.foldl op t) o)
  · exact fun _ => ⟨[], none, rfl, hstart⟩
  · intro k hk ih hlive
    obtain ⟨bs, o, hheard, hr⟩ := ih fun i hi => hlive i (Nat.le_succ_of_le hi)
    have hs := x.step k hk
    have hl := hlive (k + 1) le_rfl
    rw [x.heard_succ, hheard]
    cases he : asks (x.event k) with
    | none =>
      rcases h.quiet hs hl he hr with hr' | ⟨b, rfl, hr'⟩
      · exact ⟨bs, o, by simp, hr'⟩
      · exact ⟨bs ++ [b], none, by simp, by simpa using hr'⟩
    | some c =>
      obtain ⟨rfl, hr' | ⟨b, rfl, hr'⟩⟩ := h.asked hs hl he hr
      · exact ⟨bs, some c, by simp, hr'⟩
      · exact ⟨bs ++ [b], none, by simp, by simpa using hr'⟩

end Refinement

end Palu.Executions

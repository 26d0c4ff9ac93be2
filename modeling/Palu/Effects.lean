import Mathlib

namespace Palu.Effects

/-- What becomes of one effect. It is done, or it is stopped after `k` units of
its work: by an error that the program sees, or together with the program. -/
inductive Fate (ε : Type) where
  | done
  | failed (k : ℕ) (e : ε)
  | cut (k : ℕ)
  deriving DecidableEq

/-- How a program is stopped before it returns. -/
inductive Stop (ε : Type) where
  | error (e : ε)
  | crash
  deriving DecidableEq

/-- A program over a state that outlives it. -/
abbrev Prog (ε σ : Type) := ExceptT (Stop ε) (StateM σ)

section Programs
variable {ε σ α : Type}

def run (x : Prog ε σ α) (s : σ) : Except (Stop ε) α × σ := x s

/-- One effect, of which `partly k` is what is left when it is stopped after `k`
units. -/
def perform (fate : Fate ε) (effect : σ → σ) (partly : ℕ → σ → σ) : Prog ε σ Unit := fun s =>
  match fate with
  | .done => (.ok (), effect s)
  | .failed k e => (.error (.error e), partly k s)
  | .cut k => (.error .crash, partly k s)

/-- An effect that happens as a whole or not at all. -/
def atomically (fate : Fate ε) (effect : σ → σ) : Prog ε σ Unit :=
  perform fate effect fun _ s => s

def fail (e : ε) : Prog ε σ α := fun s => (.error (.error e), s)

def ofExcept : Except ε α → Prog ε σ α
  | .ok a => pure a
  | .error e => fail e

/-- Turn an error into a value. A crash is not an error. -/
def attempt (x : Prog ε σ α) : Prog ε σ (Except ε α) := fun s =>
  match run x s with
  | (.ok a, s) => (.ok (.ok a), s)
  | (.error (.error e), s) => (.ok (.error e), s)
  | (.error .crash, s) => (.error .crash, s)

/-- Add to an error what the program was about. -/
def context (f : ε → ε) (x : Prog ε σ α) : Prog ε σ α := fun s =>
  match run x s with
  | (.error (.error e), s) => (.error (.error (f e)), s)
  | r => r

theorem run_bind {β : Type} (y : Prog ε σ β) (f : β → Prog ε σ α) (s : σ) :
    run (y >>= f) s = match run y s with
      | (.ok b, t) => run (f b) t
      | (.error stop, t) => (.error stop, t) := by
  simp only [run, Bind.bind, ExceptT.bind, ExceptT.mk, StateT.bind]
  match y s with
  | (.ok b, t) => rfl
  | (.error stop, t) => rfl

/-- A program that returns has gone through each of its parts. -/
theorem run_bind_ok {β : Type} {y : Prog ε σ β} {f : β → Prog ε σ α} {s t : σ} {a : α} :
    run (y >>= f) s = (.ok a, t) ↔ ∃ b u, run y s = (.ok b, u) ∧ run (f b) u = (.ok a, t) := by
  rw [run_bind]
  match hr : run y s with
  | (.ok b, u) => simp
  | (.error stop, u) => simp

theorem run_get_bind (f : σ → Prog ε σ α) (s : σ) : run (get >>= f) s = run (f s) s := rfl

theorem run_attempt (x : Prog ε σ α) (s : σ) :
    run (attempt x) s = match run x s with
      | (.ok a, s) => (.ok (.ok a), s)
      | (.error (.error e), s) => (.ok (.error e), s)
      | (.error .crash, s) => (.error .crash, s) := rfl

theorem run_attempt_state (x : Prog ε σ α) (s : σ) : (run (attempt x) s).2 = (run x s).2 := by
  rw [run_attempt]
  match run x s with
  | (.ok a, t) | (.error (.error e), t) | (.error .crash, t) => rfl

theorem run_attempt_ok {x : Prog ε σ α} {s t : σ} {a : α}
    (h : run (attempt x) s = (.ok (.ok a), t)) : run x s = (.ok a, t) := by
  rw [run_attempt] at h
  match hr : run x s with
  | (.ok b, u) =>
    rw [hr] at h
    cases h
    rfl
  | (.error (.error e), u) | (.error .crash, u) =>
    rw [hr] at h
    cases h

theorem run_context_ok {f : ε → ε} {x : Prog ε σ α} {s t : σ} {a : α} :
    run (context f x) s = (.ok a, t) ↔ run x s = (.ok a, t) := by
  unfold context
  change (match run x s with
    | (.error (.error e), s) => (.error (.error (f e)), s)
    | r => r) = (.ok a, t) ↔ _
  match run x s with
  | (.ok b, u) => rfl
  | (.error (.error e), u) | (.error .crash, u) => simp

end Programs

section Triples
variable {ε σ α β : Type} {P P' : σ → Prop} {Q Q' : α → σ → Prop} {E E' C C' : σ → Prop}
  {x : Prog ε σ α}

/-- How a run may end: with a value, with an error, or in a crash. -/
def Ends (Q : α → σ → Prop) (E C : σ → Prop) : Except (Stop ε) α × σ → Prop
  | (.ok a, s) => Q a s
  | (.error (.error _), s) => E s
  | (.error .crash, s) => C s

/-- From a state with `P`, the program ends in `Q`, `E` or `C`. -/
def Triple (P : σ → Prop) (x : Prog ε σ α) (Q : α → σ → Prop) (E C : σ → Prop) : Prop :=
  ∀ s, P s → Ends Q E C (run x s)

theorem Ends.imp {r : Except (Stop ε) α × σ} (h : Ends Q E C r) (hQ : ∀ a s, Q a s → Q' a s)
    (hE : ∀ s, E s → E' s) (hC : ∀ s, C s → C' s) : Ends Q' E' C' r := by
  match r, h with
  | (.ok a, s), h => exact hQ a s h
  | (.error (.error _), s), h => exact hE s h
  | (.error .crash, s), h => exact hC s h

/-- A loop without an accumulator is one with a trivial accumulator. -/
theorem forM_eq_foldlM (f : β → Prog ε σ PUnit) (xs : List β) :
    ForM.forM xs f = xs.foldlM (fun _ x => f x) () := by
  induction xs with
  | nil => rfl
  | cons x xs ih =>
    rw [List.forM_cons, List.foldlM_cons]
    exact congrArg (f x >>= ·) (funext fun _ => ih)

namespace Triple

theorem imp (h : Triple P x Q E C) (hP : ∀ s, P' s → P s) (hQ : ∀ a s, Q a s → Q' a s)
    (hE : ∀ s, E s → E' s) (hC : ∀ s, C s → C' s) : Triple P' x Q' E' C' :=
  fun s hs => (h s (hP s hs)).imp hQ hE hC

theorem pre (h : Triple P x Q E C) (hP : ∀ s, P' s → P s) : Triple P' x Q E C :=
  h.imp hP (fun _ _ => id) (fun _ => id) fun _ => id

/-- What holds however the program ends. -/
theorem final {s : σ} (h : Triple P x (fun _ => P') P' P') (hs : P s) : P' (run x s).2 := by
  have hends := h s hs
  match run x s, hends with
  | (.ok _, t), hends => exact hends
  | (.error (.error _), t), hends => exact hends
  | (.error .crash, t), hends => exact hends

theorem pure {a : α} (h : ∀ s, P s → Q a s) : Triple (ε := ε) P (pure a) Q E C := h

/-- What is known of the state may be used to choose the rule. -/
theorem of_state (h : ∀ s, P s → Triple (fun t => t = s) x Q E C) : Triple P x Q E C :=
  fun s hs => h s hs s rfl

theorem bind {R : β → σ → Prop} {y : Prog ε σ β} {f : β → Prog ε σ α} (hy : Triple P y R E C)
    (hf : ∀ b, Triple (R b) (f b) Q E C) : Triple P (y >>= f) Q E C := by
  intro s hs
  have h := hy s hs
  rw [run_bind]
  match run y s, h with
  | (.ok b, t), h => exact hf b t h
  | (.error (.error _), t), h => exact h
  | (.error .crash, t), h => exact h

/-- A first step with posts of its own. -/
theorem andThen {R : β → σ → Prop} {y : Prog ε σ β} {f : β → Prog ε σ α}
    (hy : Triple P y R E' C') (hE : ∀ s, E' s → E s) (hC : ∀ s, C' s → C s)
    (hf : ∀ b s, R b s → Triple (fun t => t = s) (f b) Q E C) : Triple P (y >>= f) Q E C :=
  (hy.imp (fun _ => id) (fun _ _ => id) hE hC).bind fun b => of_state (hf b)

section At
variable {s : σ} {fate : Fate ε} {effect : σ → σ}

theorem pure_at {a : α} (h : Q a s) : Triple (ε := ε) (fun t => t = s) (Pure.pure a) Q E C := by
  intro t ht
  subst ht
  exact h

theorem fail_at {e : ε} (h : E s) : Triple (fun t => t = s) (fail e) Q E C := by
  intro t ht
  subst ht
  exact h

theorem ofExcept_bind {r : Except ε β} {f : β → Prog ε σ α}
    (hok : ∀ b, r = .ok b → Triple (fun t => t = s) (f b) Q E C)
    (herror : ∀ e, r = .error e → E s) : Triple (fun t => t = s) (ofExcept r >>= f) Q E C := by
  cases r with
  | ok b => exact hok b rfl
  | error e =>
    intro t ht
    subst ht
    exact herror e rfl

theorem get_bind {f : σ → Prog ε σ α} (h : Triple (fun t => t = s) (f s) Q E C) :
    Triple (fun t => t = s) (get >>= f) Q E C := by
  intro t ht
  subst ht
  exact h t rfl

theorem perform {Q : Unit → σ → Prop} {partly : ℕ → σ → σ}
    (hdone : fate = .done → Q () (effect s)) (hfailed : ∀ k e, fate = .failed k e → E (partly k s))
    (hcut : ∀ k, fate = .cut k → C (partly k s)) :
    Triple (fun t => t = s) (perform fate effect partly) Q E C := by
  intro t ht
  subst ht
  cases fate with
  | done => exact hdone rfl
  | failed k e => exact hfailed k e rfl
  | cut k => exact hcut k rfl

theorem atomically {Q : Unit → σ → Prop} (hdone : fate = .done → Q () (effect s))
    (hfailed : fate ≠ .done → E s) (hcut : ∀ k, fate = .cut k → C s) :
    Triple (fun t => t = s) (atomically fate effect) Q E C :=
  perform hdone (fun _ _ he => hfailed (by simp [he])) hcut

end At

theorem attempt {Q : Except ε α → σ → Prop}
    (h : Triple P x (fun a => Q (.ok a)) (fun s => ∀ e, Q (.error e) s) C) :
    Triple P (attempt x) Q E C := by
  intro s hs
  have h := h s hs
  unfold run Effects.attempt
  match run x s, h with
  | (.ok a, t), h => exact h
  | (.error (.error e), t), h => exact h e
  | (.error .crash, t), h => exact h

theorem context {f : ε → ε} (h : Triple P x Q E C) : Triple P (context f x) Q E C := by
  intro s hs
  have h := h s hs
  unfold run Effects.context
  match run x s, h with
  | (.ok a, t), h => exact h
  | (.error (.error e), t), h => exact h
  | (.error .crash, t), h => exact h

/-- A loop with an accumulator: the invariant is about the items gone through. -/
theorem foldlM {I : List β → α → σ → Prop} {f : α → β → Prog ε σ α} {xs : List β} {a : α}
    (h : ∀ front x back acc, xs = front ++ x :: back →
      Triple (I front acc) (f acc x) (I (front ++ [x])) E C) :
    Triple (I [] a) (xs.foldlM f a) (I xs) E C := by
  have hgo : ∀ front back acc, xs = front ++ back →
      Triple (I front acc) (back.foldlM f acc) (I xs) E C := by
    intro front back
    induction back generalizing front with
    | nil =>
      intro acc he
      rw [List.append_nil] at he
      subst he
      exact pure fun _ => id
    | cons x back ih =>
      intro acc he
      rw [List.foldlM_cons]
      exact (h front x back acc he).bind fun b => ih (front ++ [x]) b (by simp [he])
  exact hgo [] xs a rfl

theorem forM {I : List β → σ → Prop} {f : β → Prog ε σ PUnit} {xs : List β}
    (h : ∀ front x back, xs = front ++ x :: back →
      Triple (I front) (f x) (fun _ => I (front ++ [x])) E C) :
    Triple (I []) (ForM.forM xs f) (fun _ => I xs) E C := by
  rw [forM_eq_foldlM]
  exact foldlM fun front x back _ => h front x back

end Triple

end Triples

section NeverCrashes
variable {ε σ α β : Type}

def NeverCrashes (x : Prog ε σ α) : Prop := ∀ s, (run x s).1 ≠ .error .crash

namespace NeverCrashes

theorem pure (a : α) : NeverCrashes (ε := ε) (σ := σ) (pure a) := fun _ h => by cases h

theorem get : NeverCrashes (get : Prog ε σ σ) := fun _ h => by cases h

theorem fail (e : ε) : NeverCrashes (fail e : Prog ε σ α) := fun _ h => by cases h

theorem ofExcept (r : Except ε α) : NeverCrashes (ofExcept r : Prog ε σ α) := by
  cases r with
  | ok a => exact pure a
  | error e => exact fail e

theorem bind {y : Prog ε σ β} {f : β → Prog ε σ α} (hy : NeverCrashes y)
    (hf : ∀ b, NeverCrashes (f b)) : NeverCrashes (y >>= f) := by
  intro s
  rw [run_bind]
  match hr : run y s with
  | (.ok b, t) => exact hf b t
  | (.error stop, t) =>
    have := hy s
    rw [hr] at this
    intro h
    cases h
    exact this rfl

theorem perform {fate : Fate ε} (h : ∀ k, fate ≠ .cut k) (effect : σ → σ) (partly : ℕ → σ → σ) :
    NeverCrashes (perform fate effect partly) := by
  intro s he
  cases fate with
  | done => cases he
  | failed k e => cases he
  | cut k => exact h k rfl

theorem attempt {x : Prog ε σ α} (h : NeverCrashes x) : NeverCrashes (attempt x) := by
  intro s
  have h := h s
  unfold run Effects.attempt
  match hr : run x s with
  | (.ok a, t) => exact fun he => by cases he
  | (.error (.error e), t) => exact fun he => by cases he
  | (.error .crash, t) => exact absurd (congrArg Prod.fst hr) h

theorem context {f : ε → ε} {x : Prog ε σ α} (h : NeverCrashes x) : NeverCrashes (context f x) := by
  intro s
  have h := h s
  unfold run Effects.context
  match hr : run x s with
  | (.ok a, t) => exact fun he => by cases he
  | (.error (.error e), t) => exact fun he => by cases he
  | (.error .crash, t) => exact absurd (congrArg Prod.fst hr) h

theorem foldlM {f : α → β → Prog ε σ α} (h : ∀ a x, NeverCrashes (f a x)) (xs : List β) (a : α) :
    NeverCrashes (xs.foldlM f a) := by
  induction xs generalizing a with
  | nil => exact pure a
  | cons x xs ih =>
    rw [List.foldlM_cons]
    exact (h a x).bind ih

theorem forM {f : β → Prog ε σ PUnit} (h : ∀ x, NeverCrashes (f x)) (xs : List β) :
    NeverCrashes (ForM.forM xs f) := by
  rw [forM_eq_foldlM]
  exact foldlM (fun _ => h) xs ()

end NeverCrashes

end NeverCrashes

section Keeps
variable {ε σ α β : Type} {I : σ → Prop} {x : Prog ε σ α}

/-- Wherever the program is stopped, if it is, it leaves `I` as it was. -/
def Keeps (I : σ → Prop) (x : Prog ε σ α) : Prop := ∀ s, I s → I (run x s).2

namespace Keeps

theorem pure (a : α) : Keeps (ε := ε) I (pure a) := fun _ => id

theorem fail (e : ε) : Keeps I (fail e : Prog ε σ α) := fun _ => id

theorem ofExcept (r : Except ε α) : Keeps I (ofExcept r) := by
  cases r with
  | ok a => exact pure a
  | error e => exact fail e

theorem of_run {s t : σ} {r : Except (Stop ε) α} (h : Keeps I x) (hs : I s)
    (hrun : run x s = (r, t)) : I t := by
  have ht := h s hs
  rwa [hrun] at ht

/-- The rest of the program need only keep `I` for the values that it is given. -/
theorem bind_of {y : Prog ε σ β} {f : β → Prog ε σ α} (hy : Keeps I y)
    (hf : ∀ b, (∃ s t, run y s = (.ok b, t)) → Keeps I (f b)) : Keeps I (y >>= f) := by
  intro s hs
  have ht := hy s hs
  rw [run_bind]
  match hr : run y s with
  | (.ok b, t) =>
    rw [hr] at ht
    exact hf b ⟨s, t, hr⟩ t ht
  | (.error stop, t) =>
    rw [hr] at ht
    exact ht

theorem bind {y : Prog ε σ β} {f : β → Prog ε σ α} (hy : Keeps I y) (hf : ∀ b, Keeps I (f b)) :
    Keeps I (y >>= f) :=
  hy.bind_of fun b _ => hf b

theorem get_bind {f : σ → Prog ε σ α} (hf : ∀ s, Keeps I (f s)) : Keeps I (get >>= f) := by
  intro s hs
  rw [run_get_bind]
  exact hf s s hs

theorem perform {fate : Fate ε} {effect : σ → σ} {partly : ℕ → σ → σ}
    (heffect : ∀ s, I s → I (effect s)) (hpartly : ∀ k s, I s → I (partly k s)) :
    Keeps I (perform fate effect partly) := by
  intro s hs
  cases fate with
  | done => exact heffect s hs
  | failed k e => exact hpartly k s hs
  | cut k => exact hpartly k s hs

theorem atomically {fate : Fate ε} {effect : σ → σ} (h : ∀ s, I s → I (effect s)) :
    Keeps I (atomically fate effect) :=
  perform h fun _ _ => id

theorem attempt (h : Keeps I x) : Keeps I (attempt x) := by
  intro s hs
  have ht := h s hs
  unfold run Effects.attempt
  match hr : run x s with
  | (.ok a, t) | (.error (.error e), t) | (.error .crash, t) =>
    rw [hr] at ht
    exact ht

theorem context {f : ε → ε} (h : Keeps I x) : Keeps I (context f x) := by
  intro s hs
  have ht := h s hs
  unfold run Effects.context
  match hr : run x s with
  | (.ok a, t) | (.error (.error e), t) | (.error .crash, t) =>
    rw [hr] at ht
    exact ht

theorem foldlM {f : α → β → Prog ε σ α} (h : ∀ a b, Keeps I (f a b)) (bs : List β) (a : α) :
    Keeps I (bs.foldlM f a) := by
  induction bs generalizing a with
  | nil => exact pure a
  | cons b bs ih =>
    rw [List.foldlM_cons]
    exact (h a b).bind ih

theorem forM {f : β → Prog ε σ PUnit} (h : ∀ b, Keeps I (f b)) (bs : List β) :
    Keeps I (ForM.forM bs f) := by
  rw [forM_eq_foldlM]
  exact foldlM (fun _ => h) bs ()

end Keeps

end Keeps

end Palu.Effects

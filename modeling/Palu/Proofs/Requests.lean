import Palu.Model.Route
import Palu.Proofs.Routes

namespace Palu

open Paths Collections

section Runs
variable {α β : Type} {m : Machine} {x : Run α} {a b : α} {b' : β} {n k : ℕ}

/-- On the machine `m`, `x` gives `a` after `n` reads of the clock. -/
def Gives (x : Run α) (m : Machine) (a : α) (n : ℕ) : Prop :=
  ∃ scratch, x m = .ok (a, { m with scratch := scratch, reads := m.reads + n })

/-- With the clock standing at `now`, `x` gives `a` whatever else the machine holds. -/
def Yields (x : Run α) (now : Instant) (a : α) : Prop :=
  ∀ m : Machine, m.clock = (fun _ => now) → ∃ left, x m = .ok (a, left)

theorem gives_pure (a : α) (m : Machine) : Gives (pure a) m a 0 := ⟨m.scratch, rfl⟩

theorem gives_utcNow (m : Machine) : Gives utcNow m (m.clock m.reads) 1 := ⟨m.scratch, rfl⟩

theorem gives_withScratch {f : DijkstraScratch → Except Fault (α × DijkstraScratch)}
    (h : ∀ scratch, ∃ left, f scratch = .ok (a, left)) (m : Machine) :
    Gives (withScratch f) m a 0 := by
  obtain ⟨left, hl⟩ := h m.scratch
  exact ⟨left, by simp [withScratch, hl, Except.map]⟩

theorem Gives.bind {f : α → Run β} {b : β} (hx : Gives x m a n)
    (hf : ∀ scratch, Gives (f a) { m with scratch := scratch, reads := m.reads + n } b k) :
    Gives (x >>= f) m b (n + k) := by
  obtain ⟨scratch, hx⟩ := hx
  obtain ⟨left, hf⟩ := hf scratch
  refine ⟨left, ?_⟩
  simp only [Bind.bind, StateT.bind, hx, Except.bind, hf, add_assoc]

theorem Gives.map (hx : Gives x m a n) (f : α → β) :
    Gives (x >>= fun a => pure (f a)) m (f a) n :=
  hx.bind (k := 0) fun _ => gives_pure (f a) _

/-- Runs that read the clock once, and only where `p` holds, one after another. -/
theorem gives_mapM {f : α → Run β} {out : α → Instant → β} {p : α → Bool}
    (h : ∀ x m, Gives (f x) m (out x (m.clock m.reads)) (p x).toNat) (xs : List α)
    (m : Machine) :
    Gives (xs.mapM f) m
      (xs.mapIdx fun i x => out x (m.clock (m.reads + (xs.take i).countP p)))
      (xs.countP p) := by
  induction xs generalizing m with
  | nil => exact gives_pure [] m
  | cons x xs ih =>
    have hcount : ∀ ys : List α, (x :: ys).countP p = (p x).toNat + ys.countP p := by
      intro ys
      cases hp : p x <;> simp [hp, add_comm]
    simp only [List.mapM_cons, List.mapIdx_cons, List.take_zero, List.take_succ_cons,
      List.countP_nil, hcount, add_zero, ← add_assoc]
    apply (h x m).bind
    intro scratch
    exact (ih _).map _

/-- What `x` gives, and how often it reads the clock, does not depend on what the
search buffers hold. -/
def Steady (x : Run α) : Prop :=
  ∀ clock reads, ∃ a n, ∀ scratch, Gives x ⟨scratch, clock, reads⟩ a n

namespace Steady

theorem pure (a : α) : Steady (Pure.pure a : Run α) := fun _ _ => ⟨a, 0, fun _ => gives_pure a _⟩

theorem utcNow : Steady utcNow := fun clock reads => ⟨clock reads, 1, fun _ => gives_utcNow _⟩

theorem withScratch {f : DijkstraScratch → Except Fault (α × DijkstraScratch)}
    (h : ∀ scratch, ∃ left, f scratch = .ok (a, left)) : Steady (withScratch f) :=
  fun _ _ => ⟨a, 0, fun _ => gives_withScratch h _⟩

theorem bind {f : α → Run β} (hx : Steady x) (hf : ∀ a, Steady (f a)) : Steady (x >>= f) := by
  intro clock reads
  obtain ⟨a, n, hx⟩ := hx clock reads
  obtain ⟨b, k, hf⟩ := hf a clock (reads + n)
  exact ⟨b, n + k, fun scratch => (hx scratch).bind hf⟩

theorem map (hx : Steady x) (f : α → β) : Steady (f <$> x) := by
  rw [map_eq_pure_bind]
  exact hx.bind fun a => pure (f a)

theorem mapM {f : α → Run β} (h : ∀ a, Steady (f a)) (xs : List α) : Steady (xs.mapM f) := by
  induction xs with
  | nil => exact pure []
  | cons x xs ih =>
    rw [List.mapM_cons]
    exact (h x).bind fun b => ih.bind fun bs => pure (b :: bs)

/-- A steady run never faults, and gives on any buffers what it gives on empty ones. -/
theorem fresh (hx : Steady x) (m : Machine) :
    ∃ a left, x m = .ok (a, left) ∧ ∃ left', x { m with scratch := {} } = .ok (a, left') := by
  obtain ⟨a, n, h⟩ := hx m.clock m.reads
  obtain ⟨left, hl⟩ := h m.scratch
  obtain ⟨left', hl'⟩ := h {}
  exact ⟨a, _, hl, _, hl'⟩

/-- What a steady run gives, it gives on empty buffers. -/
theorem of_map {f : α → β} {left : Machine} (hx : Steady x) (h : (f <$> x) m = .ok (b', left)) :
    ∃ a left', x { m with scratch := {} } = .ok (a, left') ∧ b' = f a := by
  obtain ⟨a, _, hm, left', hl⟩ := hx.fresh m
  refine ⟨a, left', hl, ?_⟩
  simp only [Functor.map, StateT.map, hm] at h
  cases h
  rfl

end Steady

end Runs

section Resolving
variable {g : GraphData}

def resolves (g : GraphData) (r : SystemRef) : Bool := (resolveSystem g r).toBool

theorem resolves_iff {r : SystemRef} :
    resolves g r = true ↔ ∃ v, resolveSystem g r = .ok v := by
  unfold resolves
  cases resolveSystem g r <;> simp [Except.toBool]

theorem resolveSystem_error {r : SystemRef} {e : AppError} (h : resolveSystem g r = .error e) :
    ∃ s, e = .unknownSystem s := by
  cases r with
  | id id =>
    simp only [resolveSystem] at h
    split at h
    · cases h
    · exact ⟨_, (Except.error.inj h).symm⟩
  | name name =>
    simp only [resolveSystem] at h
    split at h
    · cases h
    · exact ⟨_, (Except.error.inj h).symm⟩

theorem resolveConnection_ok {c : Connection} :
    (∃ e, resolveConnection g c = .ok e) ↔ resolves g c.src = true ∧ resolves g c.dst = true := by
  rw [resolves_iff, resolves_iff]
  simp only [resolveConnection, bind_ok]
  constructor
  · intro ⟨_, a, ha, b, hb, _⟩
    exact ⟨⟨a, ha⟩, b, hb⟩
  · intro ⟨⟨a, ha⟩, b, hb⟩
    exact ⟨_, a, ha, b, hb, rfl⟩

theorem resolveConnections_ok {inputs : OverlayInputs} :
    (∃ conns, resolveConnections g inputs = .ok conns) ↔
      ∀ c ∈ inputs.connections, resolves g c.src = true ∧ resolves g c.dst = true := by
  rw [resolveConnections, exists_mapM]
  exact forall₂_congr fun c _ => resolveConnection_ok

theorem resolveConnections_error {inputs : OverlayInputs} {e : AppError}
    (h : resolveConnections g inputs = .error e) : ∃ s, e = .unknownSystem s := by
  obtain ⟨c, _, hc⟩ := mapM_error h
  rcases bind_error.mp hc with hc | ⟨a, _, hc⟩
  · exact resolveSystem_error hc
  · rcases bind_error.mp hc with hc | ⟨b, _, hc⟩
    · exact resolveSystem_error hc
    · cases hc

/-- What a request excludes from transit: the systems it avoids, and Zarzakh
unless it opts in. -/
def excluded (g : GraphData) (inputs : OverlayInputs) : Set g.NodeIndex :=
  {v | (∃ r ∈ inputs.avoid, resolveSystem g r = .ok v) ∨
    inputs.includeZarzakh = false ∧ g.idToIdx ZARZAKH_SYSTEM_ID = some v}

theorem assembleAvoidSet_ok {inputs : OverlayInputs} :
    (∃ avoid, assembleAvoidSet g inputs = .ok avoid) ↔
      ∀ r ∈ inputs.avoid, resolves g r = true := by
  simp only [resolves_iff, ← exists_mapM, assembleAvoidSet, bind_ok]
  constructor
  · intro ⟨_, vs, hvs, _⟩
    exact ⟨vs, hvs⟩
  · intro ⟨vs, hvs⟩
    exact ⟨_, vs, hvs, rfl⟩

theorem assembleAvoidSet_error {inputs : OverlayInputs} {e : AppError}
    (h : assembleAvoidSet g inputs = .error e) : ∃ s, e = .unknownSystem s := by
  rcases bind_error.mp h with h | ⟨vs, _, h⟩
  · obtain ⟨r, _, hr⟩ := mapM_error h
    exact resolveSystem_error hr
  · cases h

theorem mem_assembleAvoidSet {inputs : OverlayInputs} {avoid : Finset g.NodeIndex}
    (h : assembleAvoidSet g inputs = .ok avoid) (v : g.NodeIndex) :
    v ∈ avoid ↔ v ∈ excluded g inputs := by
  obtain ⟨vs, hvs, h⟩ := bind_ok.mp h
  have hm := mem_of_mapM hvs v
  cases Except.ok.inj h
  cases hz : inputs.includeZarzakh with
  | true => simp [excluded, hm, hz]
  | false =>
    cases hi : g.idToIdx ZARZAKH_SYSTEM_ID with
    | none => simp [excluded, hm, hz, hi]
    | some zar => simp [excluded, hm, hz, hi, or_comm, eq_comm]

end Resolving

end Palu

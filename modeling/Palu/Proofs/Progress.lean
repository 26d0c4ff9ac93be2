import Palu.Proofs.Isolation

namespace Palu

open Executions

variable {w : Deployment} {s t : Server} {e : Event} {p p' : Process} {id : ℕ} {req : Request}
  {h h' : Handling}

section Fits

/-- How many cells a handler loads. -/
def Request.loads : Request → ℕ
  | .routeSystem _ | .routeBlops _ => 2
  | .routeRange _ => 1
  | .health => 3

theorem Request.loads_le (req : Request) : req.loads ≤ 3 := by
  cases req <;> simp [Request.loads]

def Handling.loaded : Handling → ℕ
  | .entered => 0
  | .withGraph _ => 1
  | .withReload .. | .withScout .. => 2
  | .withAll .. => 3

/-- The handler of such a request gets there. -/
def Handling.Fits : Request → Handling → Prop
  | _, .entered | _, .withGraph _ => True
  | .routeSystem _, .withScout .. | .routeBlops _, .withScout .. => True
  | .health, .withReload .. | .health, .withAll .. => True
  | _, _ => False

theorem Handling.Fits.loaded_le (hf : h.Fits req) : h.loaded ≤ req.loads := by
  cases h with
  | entered => exact Nat.zero_le _
  | withGraph => cases req <;> simp [Handling.loaded, Request.loads]
  | withReload | withAll =>
    cases req with
    | health => simp [Handling.loaded, Request.loads]
    | _ => exact hf.elim
  | withScout =>
    cases req with
    | routeSystem | routeBlops => exact le_rfl
    | _ => exact hf.elim

theorem Handling.Fits.load (hf : h.Fits req) {app : AppState} (hl : h.load app req = some h') :
    h'.Fits req ∧ h'.loaded = h.loaded + 1 ∧ h.loaded < req.loads := by
  unfold Handling.load at hl
  split at hl
  · cases hl
    exact ⟨trivial, rfl, by cases req <;> simp [Handling.loaded, Request.loads]⟩
  · cases hl
    exact ⟨trivial, rfl, Nat.lt_succ_self 1⟩
  · cases hl
    exact ⟨trivial, rfl, Nat.lt_succ_self 1⟩
  · cases hl
    exact ⟨trivial, rfl, by simp [Handling.loaded, Request.loads]⟩
  · cases hl
    exact ⟨trivial, rfl, Nat.lt_succ_self 2⟩
  · cases hl

/-- A handler can load its next cell or respond. -/
theorem Handling.Fits.goes_on (hf : h.Fits req) (app : AppState) (env : Env) :
    (∃ h', h.load app req = some h') ∨ ∃ rest, h.respond w.within env req = some rest := by
  cases h with
  | entered => exact .inl ⟨_, rfl⟩
  | withGraph graph =>
    cases req with
    | routeSystem req => exact .inl ⟨_, rfl⟩
    | routeBlops req => exact .inl ⟨_, rfl⟩
    | routeRange req => exact .inr ⟨_, rfl⟩
    | health => exact .inl ⟨_, rfl⟩
  | withReload graph lastReloadAt =>
    cases req with
    | health => exact .inl ⟨_, rfl⟩
    | _ => exact hf.elim
  | withScout graph scout =>
    cases req with
    | routeSystem req => exact .inr ⟨_, rfl⟩
    | routeBlops req => exact .inr ⟨_, rfl⟩
    | _ => exact hf.elim
  | withAll graph lastReloadAt scout =>
    cases req with
    | health => exact .inr ⟨_, rfl⟩
    | _ => exact hf.elim

end Fits

section Steps

theorem Step.arrived (hs : Step w s e t) :
    t.arrived = s.arrived ∨ ∃ req, e = .arrive req ∧ t.arrived = s.arrived + 1 := by
  cases hs with
  | start =>
    left
    unfold Server.started
    split <;> rfl
  | arrive => exact .inr ⟨_, rfl, rfl⟩
  | stop | reloadTick | check | swap | stamp | poll | store | load | reply => exact .inl rfl

/-- The handlers are those of requests that have come, and fit them. -/
def InOrder (s : Server) : Prop := ∀ p, s.process = some p → ∀ id req h,
  p.handling id = some (req, h) → id < s.arrived ∧ h.Fits req

theorem Step.inOrder (hs : Step w s e t) (hi : InOrder s) : InOrder t := by
  intro p' hp' id req h' hh'
  have harrived : s.arrived ≤ t.arrived := by
    rcases hs.arrived with ha | ⟨_, _, ha⟩ <;> omega
  rcases hs.inFlight hp' hh' with ⟨rfl, rfl, rfl, _⟩ | ⟨p, h, hp, hh, hnext⟩
  · rcases hs.arrived with ha | ⟨_, _, ha⟩
    · cases hs
      simp at ha
    · exact ⟨by omega, trivial⟩
  · obtain ⟨hlt, hfits⟩ := hi p hp id req h hh
    rcases hnext with rfl | hload
    · exact ⟨by omega, hfits⟩
    · exact ⟨by omega, (hfits.load hload).1⟩

/-- The steps of the handler of a request. -/
def Event.Of (id : ℕ) : Event → Prop
  | .load n | .reply n .. => n = id
  | _ => False

/-- No other party's step touches a handler, short of the end of the process. -/
theorem Step.others (hs : Step w s e t) (hi : InOrder s) (he : ¬ e.Of id)
    (hp : s.process = some p) (hh : p.handling id = some (req, h)) (hp' : t.process = some p') :
    p'.handling id = some (req, h) := by
  have hlt := (hi p hp id req h hh).1
  cases hs with
  | start hnone => exact absurd (hnone.symm.trans hp) (by simp)
  | stop => cases hp'
  | check hq =>
    cases hp.symm.trans hq
    obtain ⟨task, _, rfl⟩ := Option.map_eq_some_iff.mp hp'
    exact hh
  | arrive hq =>
    cases hp.symm.trans hq
    cases hp'
    dsimp only
    rw [Function.update_of_ne hlt.ne, hh]
  | @load _ n _ _ _ hq =>
    cases hp.symm.trans hq
    cases hp'
    dsimp only
    rw [Function.update_of_ne fun h => he h.symm, hh]
  | @reply _ n _ _ _ _ _ _ _ hq =>
    cases hp.symm.trans hq
    cases hp'
    dsimp only
    rw [Function.update_of_ne fun h => he h.symm, hh]
  | reloadTick hq | swap hq | stamp hq | poll hq | store hq =>
    cases hp.symm.trans hq
    cases hp'
    exact hh

end Steps

section Runs
variable {x : Execution (Step w)}

theorem inOrder_start (hstart : s.process = none) : InOrder s := by
  intro p hp
  exact absurd (hstart.symm.trans hp) (by simp)

/-- A handler comes to its reply by steps of its own. -/
theorem replies_alone (worker : ℕ) (clock : ℕ → Instant) (hp : s.process = some p)
    (hh : p.handling id = some (req, h)) (hf : h.Fits req) :
    ∃ n, n + h.loaded ≤ req.loads ∧ ∃ y : Execution (Step w), y.state 0 = s ∧ y.length = n + 1 ∧
      (∀ i < n, y.event i = .load id) ∧ ∃ reply, y.event n = .reply id worker clock reply := by
  induction hm : req.loads - h.loaded using Nat.strong_induction_on generalizing s p h with
  | h m ih =>
    rcases hf.goes_on (w := w) p.app p.env with ⟨h', hload⟩ | ⟨rest, hrest⟩
    · obtain ⟨hf', hloaded, hlt⟩ := hf.load hload
      have hs : Step w s (.load id) _ := .load hp hh hload
      obtain ⟨n, hn, y, hstate, hlen, hown, hreply⟩ := ih (req.loads - h'.loaded) (by omega)
        (s := s.put { p with handling := Function.update p.handling id (some (req, h')) }) rfl
        (Function.update_self ..) hf' rfl
      refine ⟨n + 1, by omega, y.cons s _ (hstate ▸ hs), rfl, by simp [Execution.cons, hlen], ?_, hreply⟩
      intro i hi
      cases i with
      | zero => rfl
      | succ i => exact hown i (Nat.lt_of_succ_lt_succ hi)
    · obtain ⟨reply, left, hx, _⟩ :=
        (respond_steady hrest).fresh { scratch := p.scratch worker, clock := clock }
      have hs : Step w s (.reply id worker clock reply) _ := .reply hp hh hrest hx
      have hle := hf.loaded_le
      exact ⟨0, by omega, (Execution.still _ .stop).cons s _ hs, rfl, rfl, by simp, reply, rfl⟩

/-- In every state of the parties, the handler of a request can go on to its reply
by at most four steps of its own, and no step of another party takes them away. -/
theorem handlers_never_wait (x : Execution (Step w)) (hstart : (x.state 0).process = none) {k : ℕ}
    (hk : k ≤ x.length) (hp : (x.state k).process = some p)
    (hh : p.handling id = some (req, h)) (worker : ℕ) (clock : ℕ → Instant) :
    (∃ n ≤ 3, ∃ y : Execution (Step w), y.state 0 = x.state k ∧ y.length = n + 1 ∧
      (∀ i < n, y.event i = .load id) ∧ ∃ reply, y.event n = .reply id worker clock reply) ∧
    ∀ e t p', Step w (x.state k) e t → ¬ e.Of id → t.process = some p' →
      p'.handling id = some (req, h) := by
  have hin := x.invariant (inOrder_start hstart) (fun _ _ _ => Step.inOrder) k hk
  constructor
  · obtain ⟨n, hn, y, hy⟩ := replies_alone worker clock hp hh (hin p hp id req h hh).2
    have hloads := req.loads_le
    exact ⟨n, by omega, y, hy⟩
  · intro e t p' hs he hp'
    exact hs.others hin he hp hh hp'

theorem handlers_never_wait_session : ∃ (x : Execution (Step twoBuildsSite)) (p : Process),
    (x.state 2).process = some p ∧
    (∃ n ≤ 3, ∃ y : Execution (Step twoBuildsSite), y.state 0 = x.state 2 ∧ y.length = n + 1 ∧
      (∀ i < n, y.event i = .load 0) ∧ ∃ reply, y.event n = .reply 0 0 (fun _ => 0) reply) ∧
    ∀ e t p', Step twoBuildsSite (x.state 2) e t → ¬ e.Of 0 → t.process = some p' →
      p'.handling 0 = some (.routeRange askRange, .entered) := by
  obtain ⟨x, _, _, _, hx⟩ := exists_session
  obtain ⟨p, hp, hh⟩ := hx.entered
  have hk : 2 ≤ x.length := by simp [hx.length]
  exact ⟨x, p, hp, handlers_never_wait x (by rw [hx.start]) hk hp hh 0 fun _ => 0⟩

/-- The request has come, and has no handler. -/
def Done (id : ℕ) (s : Server) : Prop :=
  id < s.arrived ∧ ∀ p, s.process = some p → p.handling id = none

theorem Step.done (hs : Step w s e t) (hd : Done id s) : Done id t := by
  constructor
  · have hlt := hd.1
    rcases hs.arrived with ha | ⟨_, _, ha⟩ <;> omega
  · intro p' hp'
    by_contra hne
    obtain ⟨⟨req, h'⟩, hh'⟩ := Option.ne_none_iff_exists'.mp hne
    rcases hs.inFlight hp' hh' with ⟨_, hid, _⟩ | ⟨p, h, hp, hh, _⟩
    · exact absurd hd.1 (by omega)
    · rw [hd.2 p hp] at hh
      cases hh

theorem Step.reply_done {worker : ℕ} {clock : ℕ → Instant} {reply : Reply}
    (hs : Step w s (.reply id worker clock reply) t) (hi : InOrder s) : Done id t := by
  cases hs with
  | reply hp hh =>
    refine ⟨(hi _ hp _ _ _ hh).1, fun p' hp' => ?_⟩
    cases hp'
    exact Function.update_self ..

/-- A request is answered at most once. -/
theorem replies_apart (hstart : (x.state 0).process = none) {i j : ℕ} (hij : i < j)
    (hj : j < x.length) {worker worker' : ℕ} {clock clock' : ℕ → Instant} {reply reply' : Reply}
    (he : x.event i = .reply id worker clock reply) :
    x.event j ≠ .reply id worker' clock' reply' := by
  intro he'
  have hin := x.invariant (inOrder_start hstart) (fun _ _ _ => Step.inOrder) i (by omega)
  have hdone : Done id (x.state (i + 1)) := (he ▸ x.step i (by omega)).reply_done hin
  have hstill := x.stretch (r := fun s t => Done id s → Done id t) (fun _ h => h)
    (fun _ _ _ h h' => h' ∘ h) hij fun m _ hm => (x.step m (by omega)).done
  obtain ⟨p, req, h, _, _, hp, hh, _⟩ := (he' ▸ x.step j hj).replied
  rw [(hstill hdone).2 p hp] at hh
  cases hh

/-- Whatever the parties do in between, every reply is the answer on one graph, one
time and one list of signatures, each in its cell at some moment since the request
came, and on no one else's search buffers. No request has another reply. -/
theorem replies_isolated (x : Execution (Step w)) (hstart : (x.state 0).process = none) {k : ℕ}
    (hk : k < x.length) {worker : ℕ} {clock : ℕ → Instant} {reply : Reply}
    (he : x.event k = .reply id worker clock reply) :
    (∃ req a i l j, Answered x k id clock reply req a i l j) ∧
    ∀ k' < x.length, ∀ worker' clock' reply', x.event k' = .reply id worker' clock' reply' →
      k' = k := by
  refine ⟨replies_answered x hstart hk he, fun k' hk' worker' clock' reply' he' => ?_⟩
  rcases Nat.lt_trichotomy k' k with hlt | heq | hgt
  · exact absurd he (replies_apart hstart hlt hk he')
  · exact heq
  · exact absurd he' (replies_apart hstart hgt hk' he)

theorem replies_isolated_session : ∃ (x : Execution (Step twoBuildsSite)) (r : Reply),
    x.event 12 = .reply 1 0 (fun _ => 0) r ∧ r.lists [30002813, 30002537] ∧
    (∃ req a i l j, Answered x 12 1 (fun _ => 0) r req a i l j) ∧
    ∀ k' < x.length, ∀ worker' clock' reply', x.event k' = .reply 1 worker' clock' reply' →
      k' = 12 := by
  obtain ⟨x, r, r', g, hx⟩ := exists_session
  have he : x.event 12 = .reply 1 0 (fun _ => 0) r' := hx.event 12
  have hk : 12 < x.length := by simp [hx.length]
  exact ⟨x, r', he, hx.reply', replies_isolated x (by rw [hx.start]) hk he⟩

end Runs

end Palu

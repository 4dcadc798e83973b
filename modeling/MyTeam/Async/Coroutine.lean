import Mathlib.Logic.Basic

/-!
# Coroutines over shared state

A coroutine runs on a shared state until it returns, raises, or gives up control at an
`await`; once the awaited condition holds it continues from whatever state it then finds.
Only finitely many `await`s lie on each path, so a resumed coroutine always comes to an end.

`Coroutine.wp` is the weakest precondition of such a program in an environment that acts
only while the program waits. Besides the current state it carries the state in which the
current segment began, the point of the last resumption. The environment's moves and the
condition at a wait may depend on both, so that statements about single segments and about
whole runs have the same rules.
-/

namespace MyTeam.Async

variable {σ ε α β : Type}

/-- How far a coroutine got. -/
inductive Outcome (σ ε α : Type) where
  | returned (value : α) (state : σ)
  | raised (error : ε) (state : σ)
  | waiting (state : σ) (ready : σ → Bool) (resume : σ → Outcome σ ε α)

/-- A program over the state `σ` that may raise `ε` and may wait. -/
def Coroutine (σ ε α : Type) : Type := σ → Outcome σ ε α

/-- Continue with `f` once the coroutine has returned. -/
def Outcome.bind (f : α → Coroutine σ ε β) : Outcome σ ε α → Outcome σ ε β
  | returned value state => f value state
  | raised error state => raised error state
  | waiting state ready resume => waiting state ready fun s => (resume s).bind f

/-- Continue with a handler if the coroutine raises; its effects so far stay. -/
def Outcome.handle (handler : ε → Coroutine σ ε α) : Outcome σ ε α → Outcome σ ε α
  | returned value state => returned value state
  | raised error state => handler error state
  | waiting state ready resume => waiting state ready fun s => (resume s).handle handler

instance : Monad (Coroutine σ ε) where
  pure value := fun s => .returned value s
  bind m f := fun s => (m s).bind f

namespace Coroutine

/-- Read the state. -/
def get : Coroutine σ ε σ := fun s => .returned s s

/-- Change the state. -/
def modify (f : σ → σ) : Coroutine σ ε Unit := fun s => .returned () (f s)

/-- Raise. -/
def raise (error : ε) : Coroutine σ ε α := fun s => .raised error s

/-- Give up control until `ready`. -/
def await (ready : σ → Bool) : Coroutine σ ε Unit :=
  fun s => .waiting s ready fun s' => .returned () s'

/-- `try: m except e: handler(e)`. -/
def catching (m : Coroutine σ ε α) (handler : ε → Coroutine σ ε α) : Coroutine σ ε α :=
  fun s => (m s).handle handler

/-- A computation that reads nothing and may raise. -/
def ofExcept (x : Except ε α) : Coroutine σ ε α :=
  match x with
  | .ok value => pure value
  | .error error => raise error

/-- Run `m` for each element in turn. -/
def forEach (xs : List β) (m : β → Coroutine σ ε Unit) : Coroutine σ ε Unit :=
  match xs with
  | [] => pure ()
  | x :: rest => do m x; forEach rest m

end Coroutine

/-- What may happen while a coroutine waits, and what it promises when it starts to wait.
Both see the state at the beginning of the segment and the state of the wait. -/
structure Contract (σ : Type) where
  rely : σ → σ → σ → Prop
  wait : σ → σ → Prop

/-- All ways to continue end in `Q`, and every wait on the way keeps the contract. -/
def Outcome.Holds (c : Contract σ) (Q : σ → Except ε α → σ → Prop) : σ → Outcome σ ε α → Prop
  | start, returned value state => Q start (.ok value) state
  | start, raised error state => Q start (.error error) state
  | start, waiting state ready resume =>
    c.wait start state ∧ ∀ s, c.rely start state s → ready s → (resume s).Holds c Q s

/-- What always holds, holds at the end. -/
theorem Outcome.Holds.of_forall {c : Contract σ} {Q : σ → Except ε α → σ → Prop}
    (hwait : ∀ start s, c.wait start s) (hQ : ∀ start r s, Q start r s) (start : σ) (o : Outcome σ ε α) :
    o.Holds c Q start := by
  induction o generalizing start with
  | returned value state => exact hQ start _ state
  | raised error state => exact hQ start _ state
  | waiting state ready resume ih => exact ⟨hwait start state, fun s _ _ => ih s s⟩

/-- Stronger conclusions may replace weaker ones. -/
theorem Outcome.Holds.imp {c : Contract σ} {Q Q' : σ → Except ε α → σ → Prop} {start : σ}
    {o : Outcome σ ε α} (h : o.Holds c Q start) (hQ : ∀ s r s', Q s r s' → Q' s r s') :
    o.Holds c Q' start := by
  induction o generalizing start with
  | returned value state => exact hQ _ _ _ h
  | raised error state => exact hQ _ _ _ h
  | waiting state ready resume ih => exact ⟨h.1, fun s hs hr => ih s (h.2 s hs hr)⟩

/-- A predicate of the states in which segments begin may be assumed in them, if it lasts
from one segment to the next; a changed contract may rely on it too. -/
theorem Outcome.Holds.strengthen {c c' : Contract σ} {Q Q' : σ → Except ε α → σ → Prop}
    {P : σ → Prop} {start : σ} {o : Outcome σ ε α} (h : o.Holds c Q start) (hP : P start)
    (hwait : ∀ s w, P s → c.wait s w → c'.wait s w)
    (hrely : ∀ s w s', P s → c.wait s w → c'.rely s w s' → c.rely s w s' ∧ P s')
    (hQ : ∀ s r s', P s → Q s r s' → Q' s r s') : o.Holds c' Q' start := by
  induction o generalizing start with
  | returned value state => exact hQ _ _ _ hP h
  | raised error state => exact hQ _ _ _ hP h
  | waiting state ready resume ih =>
    refine ⟨hwait _ _ hP h.1, fun s hs hr => ?_⟩
    obtain ⟨hc, hs⟩ := hrely _ _ _ hP h.1 hs
    exact ih s (h.2 s hc hr) hs

/-- Where the first segment began matters only to the contract and the conclusion. -/
theorem Outcome.Holds.restart {c : Contract σ} {Q : σ → Except ε α → σ → Prop} {start start' : σ}
    {o : Outcome σ ε α} (h : o.Holds c Q start) (hwait : ∀ w, c.wait start w → c.wait start' w)
    (hrely : ∀ w s, c.rely start' w s → c.rely start w s) (hQ : ∀ r s, Q start r s → Q start' r s) :
    o.Holds c Q start' := by
  cases o with
  | returned value state => exact hQ _ _ h
  | raised error state => exact hQ _ _ h
  | waiting state ready resume => exact ⟨hwait _ h.1, fun s hs hr => h.2 s (hrely _ _ hs) hr⟩

/-- The ways in which a coroutine can come to its end, where `rely` tells what may happen while
it waits. -/
inductive Outcome.Ends (rely : σ → σ → Prop) : Outcome σ ε α → Except ε α → σ → Prop where
  | returned {value : α} {s : σ} : Ends rely (.returned value s) (.ok value) s
  | raised {error : ε} {s : σ} : Ends rely (.raised error s) (.error error) s
  | resumed {w s s' : σ} {ready : σ → Bool} {resume : σ → Outcome σ ε α} {r : Except ε α}
      (meanwhile : rely w s) (awaited : ready s = true) (ends : Ends rely (resume s) r s') :
      Ends rely (.waiting w ready resume) r s'

/-- What holds of all ways to continue holds at each end. -/
theorem Outcome.Holds.ends {c : Contract σ} {Q : σ → Except ε α → σ → Prop} {rely : σ → σ → Prop}
    {start s : σ} {o : Outcome σ ε α} {r : Except ε α} (h : o.Holds c Q start) (hends : o.Ends rely r s)
    (hrely : ∀ start w s, rely w s → c.rely start w s) : ∃ start, Q start r s := by
  induction hends generalizing start with
  | returned => exact ⟨start, h⟩
  | raised => exact ⟨start, h⟩
  | resumed meanwhile awaited _ ih => exact ih (h.2 _ (hrely _ _ _ meanwhile) awaited)

/-- Bring a coroutine to its end, with a function to be applied to the state during each wait. -/
def Outcome.conclude : Outcome σ ε α → List (σ → Option σ) → Option (Except ε α × σ)
  | returned value state, _ => some (.ok value, state)
  | raised error state, _ => some (.error error, state)
  | waiting _ _ _, [] => none
  | waiting state ready resume, act :: rest =>
    match act state with
    | some s => if ready s then (resume s).conclude rest else none
    | none => none

/-- A coroutine that is brought to its end has come to its end. -/
theorem Outcome.ends_of_conclude {rely : σ → σ → Prop} {o : Outcome σ ε α} {acts : List (σ → Option σ)}
    {r : Except ε α} {s : σ} (hacts : ∀ act ∈ acts, ∀ w s, act w = some s → rely w s)
    (h : o.conclude acts = some (r, s)) : o.Ends rely r s := by
  induction o generalizing acts with
  | returned value state =>
    obtain ⟨rfl, rfl⟩ := Prod.mk.inj (Option.some.inj h)
    exact .returned
  | raised error state =>
    obtain ⟨rfl, rfl⟩ := Prod.mk.inj (Option.some.inj h)
    exact .raised
  | waiting w ready resume ih =>
    cases acts with
    | nil => simp [conclude] at h
    | cons act rest =>
      simp only [conclude] at h
      split at h
      next s' hact =>
        split at h
        next hready =>
          exact .resumed (hacts act (by simp) w s' hact) hready
            (ih s' (fun other hmem => hacts other (by simp [hmem])) h)
        · simp at h
      · simp at h

/-- A continuation is judged from the states in which it starts. -/
theorem Outcome.holds_bind {c : Contract σ} {Q : σ → Except ε β → σ → Prop}
    {f : α → Coroutine σ ε β} {start : σ} {o : Outcome σ ε α} :
    (o.bind f).Holds c Q start ↔ o.Holds c (fun s r s' => match r with
      | .ok value => (f value s').Holds c Q s
      | .error error => Q s (.error error) s') start := by
  induction o generalizing start with
  | returned value state => rfl
  | raised error state => rfl
  | waiting state ready resume ih =>
    exact and_congr_right fun _ => forall_congr' fun s =>
      imp_congr_right fun _ => imp_congr_right fun _ => ih s

/-- A handler is judged from the states in which it starts. -/
theorem Outcome.holds_handle {c : Contract σ} {Q : σ → Except ε α → σ → Prop}
    {handler : ε → Coroutine σ ε α} {start : σ} {o : Outcome σ ε α} :
    (o.handle handler).Holds c Q start ↔ o.Holds c (fun s r s' => match r with
      | .ok value => Q s (.ok value) s'
      | .error error => (handler error s').Holds c Q s) start := by
  induction o generalizing start with
  | returned value state => rfl
  | raised error state => rfl
  | waiting state ready resume ih =>
    exact and_congr_right fun _ => forall_congr' fun s =>
      imp_congr_right fun _ => imp_congr_right fun _ => ih s

namespace Coroutine

/-- Started in state `s` of a segment begun in `start`, the program keeps the contract and
ends in `Q`. -/
def wp (c : Contract σ) (m : Coroutine σ ε α) (Q : σ → Except ε α → σ → Prop) (start s : σ) : Prop :=
  (m s).Holds c Q start

variable {c : Contract σ} {start s : σ}

@[simp] theorem wp_pure {value : α} {Q : σ → Except ε α → σ → Prop} :
    wp c (pure value) Q start s ↔ Q start (.ok value) s := Iff.rfl

@[simp] theorem wp_bind {m : Coroutine σ ε α} {f : α → Coroutine σ ε β}
    {Q : σ → Except ε β → σ → Prop} :
    wp c (m >>= f) Q start s ↔ wp c m (fun s r s' => match r with
      | .ok value => wp c (f value) Q s s'
      | .error error => Q s (.error error) s') start s := Outcome.holds_bind

@[simp] theorem wp_get {Q : σ → Except ε σ → σ → Prop} :
    wp c get Q start s ↔ Q start (.ok s) s := Iff.rfl

@[simp] theorem wp_modify {f : σ → σ} {Q : σ → Except ε Unit → σ → Prop} :
    wp c (modify f) Q start s ↔ Q start (.ok ()) (f s) := Iff.rfl

@[simp] theorem wp_raise {error : ε} {Q : σ → Except ε α → σ → Prop} :
    wp c (raise error) Q start s ↔ Q start (.error error) s := Iff.rfl

@[simp] theorem wp_await {ready : σ → Bool} {Q : σ → Except ε Unit → σ → Prop} :
    wp c (await ready) Q start s ↔
      c.wait start s ∧ ∀ s', c.rely start s s' → ready s' → Q s' (.ok ()) s' := Iff.rfl

@[simp] theorem wp_catching {m : Coroutine σ ε α} {handler : ε → Coroutine σ ε α}
    {Q : σ → Except ε α → σ → Prop} :
    wp c (catching m handler) Q start s ↔ wp c m (fun s r s' => match r with
      | .ok value => Q s (.ok value) s'
      | .error error => wp c (handler error) Q s s') start s := Outcome.holds_handle

@[simp] theorem wp_ofExcept {x : Except ε α} {Q : σ → Except ε α → σ → Prop} :
    wp c (ofExcept x) Q start s ↔ Q start x s := by
  cases x <;> rfl

/-- Consequence. -/
theorem wp_imp {m : Coroutine σ ε α} {Q Q' : σ → Except ε α → σ → Prop}
    (h : wp c m Q start s) (hQ : ∀ s r s', Q s r s' → Q' s r s') : wp c m Q' start s :=
  Outcome.Holds.imp h hQ

/-- A sequence: what the first part guarantees when it returns is enough for the second. -/
theorem wp_seq {m : Coroutine σ ε α} {f : α → Coroutine σ ε β} {R : σ → Except ε α → σ → Prop}
    {Q : σ → Except ε β → σ → Prop} (h : wp c m R start s)
    (hraised : ∀ s error s', R s (.error error) s' → Q s (.error error) s')
    (hreturned : ∀ s value s', R s (.ok value) s' → wp c (f value) Q s s') :
    wp c (m >>= f) Q start s := by
  rw [wp_bind]
  refine wp_imp h fun s r s' hR => ?_
  cases r with
  | error error => exact hraised s error s' hR
  | ok value => exact hreturned s value s' hR

/-- A sequence that begins with a computation. -/
theorem wp_ofExcept_bind {x : Except ε α} {f : α → Coroutine σ ε β} {Q : σ → Except ε β → σ → Prop}
    (herror : ∀ error, x = .error error → Q start (.error error) s)
    (hok : ∀ value, x = .ok value → wp c (f value) Q start s) : wp c (ofExcept x >>= f) Q start s := by
  rw [wp_bind, wp_ofExcept]
  cases x with
  | error error => exact herror error rfl
  | ok value => exact hok value rfl

/-- A computation that succeeds is no step. -/
theorem ofExcept_ok_bind (value : α) (f : α → Coroutine σ ε β) : (ofExcept (.ok value) >>= f) = f value :=
  rfl

/-- A loop whose body keeps `I` for the elements it visits keeps `I`, also when it raises. -/
theorem wp_forEach {xs : List β} {m : β → Coroutine σ ε Unit}
    {I : σ → σ → Prop} (h : I start s)
    (hstep : ∀ x ∈ xs, ∀ start s, I start s → wp c (m x) (fun s _ s' => I s s') start s) :
    wp c (forEach xs m) (fun s _ s' => I s s') start s := by
  induction xs generalizing start s with
  | nil => exact h
  | cons x rest ih =>
    rw [forEach, wp_bind]
    refine wp_imp (hstep x List.mem_cons_self start s h) fun s r s' hI => ?_
    cases r with
    | ok _ => exact ih hI fun y hy => hstep y (List.mem_cons_of_mem _ hy)
    | error _ => exact hI

/-- What was raised was not returned. -/
theorem absurd_error {P : Prop} {error : ε} {value : α} (h : (Except.error error : Except ε α) = .ok value) : P := by
  cases h

/-- A loop whose body keeps `I` if it returns keeps `I` if it returns. -/
theorem wp_forEach_ok {xs : List β} {m : β → Coroutine σ ε Unit} {I : σ → Prop} (h : I s)
    (hstep : ∀ x ∈ xs, ∀ start s, I s → wp c (m x) (fun _ r s' => r = .ok () → I s') start s) :
    wp c (forEach xs m) (fun _ r s' => r = .ok () → I s') start s := by
  induction xs generalizing start s with
  | nil => exact fun _ => h
  | cons x rest ih =>
    rw [forEach]
    exact wp_seq (hstep x List.mem_cons_self start s h) (fun _ _ _ _ => absurd_error) fun _ _ _ h' =>
      ih (h' rfl) fun y hy => hstep y (List.mem_cons_of_mem _ hy)

/-- A loop that returns has visited all elements; `I` may speak of those it has visited. -/
theorem wp_forEach_visited {xs : List β} {m : β → Coroutine σ ε Unit}
    {I : List β → σ → σ → Prop} {visited : List β} (h : I visited start s)
    (hstep : ∀ visited x start s, I visited start s →
      wp c (m x) (fun s r s' => match r with
        | .ok _ => I (visited ++ [x]) s s'
        | .error _ => True) start s) :
    wp c (forEach xs m) (fun s r s' => match r with
      | .ok _ => I (visited ++ xs) s s'
      | .error _ => True) start s := by
  induction xs generalizing visited start s with
  | nil => simpa [forEach] using h
  | cons x rest ih =>
    rw [forEach]
    refine wp_seq (hstep visited x start s h) (fun _ _ _ _ => trivial) fun s _ s' hI => ?_
    simpa using ih hI

end Coroutine

/-- Anything may happen while a coroutine waits, and it promises nothing. -/
def Contract.any : Contract σ where
  rely _ _ _ := True
  wait _ _ := True

/-- Two conclusions about the same coroutine, the second under a weaker contract. -/
theorem Outcome.Holds.and {c c' : Contract σ} {Q Q' : σ → Except ε α → σ → Prop} {start : σ}
    {o : Outcome σ ε α} (h : o.Holds c Q start) (h' : o.Holds c' Q' start)
    (hrely : ∀ s w s', c.rely s w s' → c'.rely s w s') :
    o.Holds c (fun s r s' => Q s r s' ∧ Q' s r s') start := by
  induction o generalizing start with
  | returned value state => exact ⟨h, h'⟩
  | raised error state => exact ⟨h, h'⟩
  | waiting state ready resume ih =>
    exact ⟨h.1, fun s hs hr => ih s (h.2 s hs hr) (h'.2 s (hrely _ _ _ hs) hr)⟩

namespace Coroutine

section RaisesOnly

variable {P : ε → Prop}

end RaisesOnly

end Coroutine

end MyTeam.Async

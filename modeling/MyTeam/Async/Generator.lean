import Mathlib.Data.List.Infix

/-!
# Generators that have run

What an asynchronous generator does for the one that iterates over it: it yields, one after the
other, and then returns or raises. A loop over another generator reads all that it has yielded and
then ends as it did. What is asked of a loop is asked of what it has read, the state it is in and
what it has yielded, and is kept by every round.
-/

namespace MyTeam.Async

variable {ε ι ο σ α β : Type}

/-- What was yielded, and what was returned or raised in the end. -/
structure Gen (ε ο α : Type) where
  yielded : List ο
  result : Except ε α

namespace Gen

/-- Continue with `f` where nothing was raised. -/
def bind (x : Gen ε ο α) (f : α → Gen ε ο β) : Gen ε ο β :=
  match x.result with
  | .ok a => ⟨x.yielded ++ (f a).yielded, (f a).result⟩
  | .error error => ⟨x.yielded, .error error⟩

instance : Monad (Gen ε ο) where
  pure a := ⟨[], .ok a⟩
  bind := bind

/-- `yield`. -/
def emit (event : ο) : Gen ε ο Unit := ⟨[event], .ok ()⟩

/-- `raise`. -/
def raise (error : ε) : Gen ε ο α := ⟨[], .error error⟩

/-- A computation that yields nothing. -/
def ofExcept (x : Except ε α) : Gen ε ο α := ⟨[], x⟩

/-- `for event in events: yield event`. -/
def emitAll (events : List ο) : Gen ε ο Unit := ⟨events, .ok ()⟩

/-- A loop over a list, with a state. -/
def forEach (body : σ → ι → Gen ε ο σ) : σ → List ι → Gen ε ο σ
  | s, [] => pure s
  | s, item :: rest => body s item >>= fun s' => forEach body s' rest

/-- `async for item in source`, with a state. -/
def consume (source : Gen ε ι Unit) (body : σ → ι → Gen ε ο σ) (s : σ) : Gen ε ο σ :=
  forEach body s source.yielded >>= fun s' => ofExcept (source.result.map fun _ => s')

variable {f : α → Gen ε ο β} {a : α} {error : ε} {out : List ο}

@[simp] theorem pure_yielded : (pure a : Gen ε ο α).yielded = [] := rfl

@[simp] theorem pure_result : (pure a : Gen ε ο α).result = .ok a := rfl

@[simp] theorem emit_eq {event : ο} : (emit event : Gen ε ο Unit) = ⟨[event], .ok ()⟩ := rfl

@[simp] theorem emitAll_eq : (emitAll out : Gen ε ο Unit) = ⟨out, .ok ()⟩ := rfl

@[simp] theorem raise_eq : (raise error : Gen ε ο α) = ⟨[], .error error⟩ := rfl

@[simp] theorem ofExcept_eq {y : Except ε α} : (ofExcept y : Gen ε ο α) = ⟨[], y⟩ := rfl

/-- A return without anything yielded. -/
theorem pure_eq : (pure a : Gen ε ο α) = ⟨[], .ok a⟩ := rfl

/-- What was yielded and returned, together. -/
theorem eq_of_result {x : Gen ε ο α} (h : x.result = .ok a) : x = ⟨x.yielded, .ok a⟩ := by
  rw [← h]

/-- What follows is yielded after what was yielded before. -/
@[simp] theorem ok_bind : (⟨out, .ok a⟩ : Gen ε ο α) >>= f = ⟨out ++ (f a).yielded, (f a).result⟩ := rfl

/-- Nothing follows an exception. -/
@[simp] theorem error_bind : (⟨out, .error error⟩ : Gen ε ο α) >>= f = ⟨out, .error error⟩ := rfl

variable {body : σ → ι → Gen ε ο σ} {s : σ}

@[simp] theorem forEach_nil : forEach body s [] = pure s := rfl

@[simp] theorem forEach_cons {item : ι} {rest : List ι} :
    forEach body s (item :: rest) = body s item >>= fun s' => forEach body s' rest := rfl

/-- One part of a loop after the other. -/
theorem forEach_append {items : List ι} {s' : σ} (more : List ι) (h : forEach body s items = ⟨out, .ok s'⟩) :
    forEach body s (items ++ more) = (⟨out, .ok s'⟩ : Gen ε ο σ) >>= fun s' => forEach body s' more := by
  induction items generalizing s out with
  | nil =>
    cases h
    rfl
  | cons item rest ih =>
    rw [forEach_cons] at h
    rw [List.cons_append, forEach_cons]
    rcases hround : body s item with ⟨first, _ | next⟩
    · rw [hround] at h
      cases h
    · rw [hround, ok_bind] at h
      obtain ⟨hout, hresult⟩ := Gen.mk.inj h
      rw [ok_bind, ih (eq_of_result hresult), ok_bind, ok_bind, ← hout, List.append_assoc]

/-- If no round raises and every round keeps a relation between what was read, the state and what was yielded, then the
loop keeps it. -/
theorem forEach_invariant {R : List ι → σ → List ο → Prop} {read : List ι} (start : R read s out)
    (round : ∀ read s out item, R read s out → ∃ out' s', body s item = ⟨out', .ok s'⟩ ∧
      R (read ++ [item]) s' (out ++ out'))
    (items : List ι) : ∃ out' s', forEach body s items = ⟨out', .ok s'⟩ ∧ R (read ++ items) s' (out ++ out') := by
  induction items generalizing read s out with
  | nil => exact ⟨[], s, rfl, by simpa using start⟩
  | cons item rest ih =>
    obtain ⟨first, s', hround, hkept⟩ := round read s out item start
    obtain ⟨second, s'', hrest, hall⟩ := ih hkept
    refine ⟨first ++ second, s'', ?_, ?_⟩
    · rw [forEach_cons, hround, ok_bind, hrest]
    · rw [List.append_assoc, List.singleton_append, List.append_assoc] at hall
      exact hall

/-- A loop over a generator keeps what its rounds keep, and ends as the generator does. -/
theorem consume_invariant {R : List ι → σ → List ο → Prop} (start : R [] s [])
    (round : ∀ read s out item, R read s out → ∃ out' s', body s item = ⟨out', .ok s'⟩ ∧
      R (read ++ [item]) s' (out ++ out'))
    (source : Gen ε ι Unit) :
    ∃ out s', consume source body s = ⟨out, source.result.map fun _ => s'⟩ ∧ R source.yielded s' out := by
  obtain ⟨out, s', hloop, hkept⟩ := forEach_invariant start round source.yielded
  refine ⟨out, s', ?_, by simpa using hkept⟩
  rw [consume, hloop, ok_bind, ofExcept_eq, List.append_nil]

end Gen

/-- A protocol lets a sequence of events pass, from one state to another. -/
def Passes (step : σ → ο → σ → Prop) : σ → List ο → σ → Prop
  | s, [], t => t = s
  | s, event :: rest, t => ∃ next, step s event next ∧ Passes step next rest t

section Passes

variable {step : σ → ο → σ → Prop} {s t u : σ} {event : ο} {events more : List ο}

@[simp] theorem passes_nil : Passes step s [] t ↔ t = s := Iff.rfl

@[simp] theorem passes_cons :
    Passes step s (event :: events) t ↔ ∃ next, step s event next ∧ Passes step next events t :=
  Iff.rfl

/-- One event after the other. -/
theorem passes_append : Passes step s (events ++ more) t ↔ ∃ u, Passes step s events u ∧ Passes step u more t := by
  induction events generalizing s with
  | nil => simp
  | cons event events ih =>
    simp only [List.cons_append, passes_cons, ih]
    constructor
    · rintro ⟨next, hstep, u, hevents, hmore⟩
      exact ⟨u, ⟨next, hstep, hevents⟩, hmore⟩
    · rintro ⟨u, ⟨next, hstep, hevents⟩, hmore⟩
      exact ⟨next, hstep, u, hevents, hmore⟩

/-- What passes after what passed passes with it. -/
theorem Passes.append (h : Passes step s events t) (hmore : Passes step t more u) : Passes step s (events ++ more) u :=
  passes_append.mpr ⟨t, h, hmore⟩

end Passes

/-- A generator that returns, and yields what the protocol lets pass. -/
def Gen.Keeps (step : σ → ο → σ → Prop) (s : σ) (x : Gen ε ο α) (Q : α → σ → Prop) : Prop :=
  ∃ a t, x.result = .ok a ∧ Passes step s x.yielded t ∧ Q a t

namespace Gen.Keeps

variable {step : σ → ο → σ → Prop} {s t : σ} {event : ο} {x : Gen ε ο α} {f : α → Gen ε ο β} {a : α}
  {Q Q' : α → σ → Prop} {P : β → σ → Prop}

/-- A return yields nothing. -/
theorem pure (h : Q a s) : Keeps step s (Pure.pure a : Gen ε ο α) Q :=
  ⟨a, s, rfl, rfl, h⟩

/-- One event is yielded. -/
theorem emit {R : Unit → σ → Prop} (hstep : step s event t) (h : R () t) :
    Keeps step s (Gen.emit event : Gen ε ο Unit) R :=
  ⟨(), t, rfl, ⟨t, hstep, rfl⟩, h⟩

/-- One part after the other. -/
theorem bind (hx : Keeps step s x Q) (hf : ∀ a t, Q a t → Keeps step t (f a) P) : Keeps step s (x >>= f) P := by
  obtain ⟨a, t, hresult, hpasses, hq⟩ := hx
  obtain ⟨b, u, hresult', hpasses', hp⟩ := hf a t hq
  rw [eq_of_result hresult, ok_bind]
  exact ⟨b, u, hresult', hpasses.append hpasses', hp⟩

/-- One event, and then the rest. -/
theorem emit_bind {g : Unit → Gen ε ο β} (hstep : step s event t) (hg : Keeps step t (g ()) P) :
    Keeps step s (Gen.emit event >>= g) P :=
  .bind (.emit hstep (R := fun _ u => u = t) rfl) fun _ _ heq => heq ▸ hg

/-- What is weaker is kept too. -/
theorem weaken (hx : Keeps step s x Q) (h : ∀ a t, Q a t → Q' a t) : Keeps step s x Q' := by
  obtain ⟨a, t, hresult, hpasses, hq⟩ := hx
  exact ⟨a, t, hresult, hpasses, h a t hq⟩

end Gen.Keeps

end MyTeam.Async

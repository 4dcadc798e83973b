import MyTeam.Async.Coroutine
import Mathlib.Logic.Relation

/-!
# An event loop with one handler at a time

The loop takes an item from the state, runs a handler on it and takes the next item only
when the handler has returned. While it is idle, and while a handler waits, other parts of
the system may act. An exception that leaves the handler stops the loop.

`Rules` restrict the runs that are considered: which items may be taken in which state, and
what a handler may do between two points where it gives up control.
-/

namespace MyTeam.Async

variable {σ ι ε : Type}

/-- Where the items come from, how one is handled, and what may happen in between. -/
structure EventLoop (σ ι ε : Type) where
  next : σ → Option (ι × σ)
  body : ι → Coroutine σ ε Unit
  background : σ → σ → Prop

/-- How far the handler of an item got. -/
inductive Progress (σ ε : Type) where
  | waiting (ready : σ → Bool) (resume : σ → Outcome σ ε Unit)
  | returned
  | raised (error : ε)

/-- What the loop is doing. `entry` is the state in which the handler of `item` began. -/
inductive Control (σ ι ε : Type) where
  | idle
  | handling (entry : σ) (item : ι) (progress : Progress σ ε)

/-- The shared state together with the loop's own. -/
structure LoopState (σ ι ε : Type) where
  state : σ
  control : Control σ ι ε

/-- Whether the loop is idle. -/
def LoopState.isIdle (l : LoopState σ ι ε) : Bool :=
  match l.control with
  | .idle => true
  | .handling _ _ _ => false

/-- What it is to be idle. -/
theorem LoopState.isIdle_iff {l : LoopState σ ι ε} : l.isIdle = true ↔ l.control = .idle := by
  unfold isIdle
  split
  next hidle => simp [hidle]
  next hhandling => simp [hhandling]

/-- The runs under consideration. -/
structure Rules (σ ι : Type) where
  take : σ → ι → Prop
  segment : σ → σ → Prop

/-- All runs. -/
def Rules.free : Rules σ ι := ⟨fun _ _ => True, fun _ _ => True⟩

/-- Runs in which only items satisfying `take` are taken. -/
def Rules.taking (take : σ → ι → Prop) : Rules σ ι := ⟨take, fun _ _ => True⟩

/-- Where a segment of the handler of `item` leaves the loop. -/
def Outcome.suspend (entry : σ) (item : ι) : Outcome σ ε Unit → LoopState σ ι ε
  | returned _ state => ⟨state, .handling entry item .returned⟩
  | raised error state => ⟨state, .handling entry item (.raised error)⟩
  | waiting state ready resume => ⟨state, .handling entry item (.waiting ready resume)⟩

namespace EventLoop

/-- One step of a run. -/
inductive Step (m : EventLoop σ ι ε) (rules : Rules σ ι) :
    LoopState σ ι ε → LoopState σ ι ε → Prop where
  | take {s entry : σ} {item : ι} (next : m.next s = some (item, entry))
      (allowed : rules.take entry item)
      (segment : rules.segment entry ((m.body item entry).suspend entry item).state) :
      Step m rules ⟨s, .idle⟩ ((m.body item entry).suspend entry item)
  | resume {s entry : σ} {item : ι} {ready : σ → Bool} {resume : σ → Outcome σ ε Unit}
      (awaited : ready s) (segment : rules.segment s ((resume s).suspend entry item).state) :
      Step m rules ⟨s, .handling entry item (.waiting ready resume)⟩
        ((resume s).suspend entry item)
  | settle {s entry : σ} {item : ι} :
      Step m rules ⟨s, .handling entry item .returned⟩ ⟨s, .idle⟩
  | idle {s s' : σ} (acts : m.background s s') : Step m rules ⟨s, .idle⟩ ⟨s', .idle⟩
  | meanwhile {s s' entry : σ} {item : ι} {ready : σ → Bool} {resume : σ → Outcome σ ε Unit}
      (acts : m.background s s') :
      Step m rules ⟨s, .handling entry item (.waiting ready resume)⟩
        ⟨s', .handling entry item (.waiting ready resume)⟩

/-- The states of the runs that begin idle in a state satisfying `init`. -/
inductive Reachable (m : EventLoop σ ι ε) (rules : Rules σ ι) (init : σ → Prop) :
    LoopState σ ι ε → Prop where
  | init {s : σ} (starts : init s) : Reachable m rules init ⟨s, .idle⟩
  | step {l l' : LoopState σ ι ε} (reached : Reachable m rules init l)
      (steps : Step m rules l l') : Reachable m rules init l'

section Play

variable {β : Type}

/-- A step that a scenario asks for; `β` names the background steps. -/
inductive Move (β : Type) where
  | take
  | resume
  | settle
  | act (b : β)

/-- Make one move, with `act` to perform background steps; none if it is not enabled. -/
def move (m : EventLoop σ ι ε) (act : β → σ → Option σ) :
    Move β → LoopState σ ι ε → Option (LoopState σ ι ε)
  | .take, ⟨s, .idle⟩ =>
    (m.next s).map fun taken => (m.body taken.1 taken.2).suspend taken.2 taken.1
  | .resume, ⟨s, .handling entry item (.waiting ready resume)⟩ =>
    if ready s then some ((resume s).suspend entry item) else none
  | .settle, ⟨s, .handling _ _ .returned⟩ => some ⟨s, .idle⟩
  | .act b, ⟨s, .idle⟩ => (act b s).map fun s' => ⟨s', .idle⟩
  | .act b, ⟨s, .handling entry item (.waiting ready resume)⟩ =>
    (act b s).map fun s' => ⟨s', .handling entry item (.waiting ready resume)⟩
  | _, _ => none

/-- Make one move after another. -/
def play (m : EventLoop σ ι ε) (act : β → σ → Option σ) :
    List (Move β) → LoopState σ ι ε → Option (LoopState σ ι ε)
  | [], l => some l
  | first :: rest, l => (m.move act first l).bind (m.play act rest)

/-- The item that a move takes, with the state in which its handler begins. -/
def takes (m : EventLoop σ ι ε) : Move β → LoopState σ ι ε → List (σ × ι)
  | .take, ⟨s, .idle⟩ => (m.next s).toList.map fun taken => (taken.2, taken.1)
  | _, _ => []

/-- The segment of a handler that a move runs: where it begins and ends. -/
def runs (m : EventLoop σ ι ε) : Move β → LoopState σ ι ε → List (σ × σ)
  | .take, ⟨s, .idle⟩ => (m.next s).toList.map fun taken =>
      (taken.2, ((m.body taken.1 taken.2).suspend taken.2 taken.1).state)
  | .resume, ⟨s, .handling entry item (.waiting _ resume)⟩ =>
    [(s, ((resume s).suspend entry item).state)]
  | _, _ => []

/-- What `f` observes of each move of a scenario. -/
def observed {γ : Type} (m : EventLoop σ ι ε) (act : β → σ → Option σ)
    (f : Move β → LoopState σ ι ε → List γ) : List (Move β) → LoopState σ ι ε → List γ
  | [], _ => []
  | first :: rest, l => f first l ++
    match m.move act first l with
    | some next => m.observed act f rest next
    | none => []

variable {m : EventLoop σ ι ε} {act : β → σ → Option σ} {init : σ → Prop} {rules : Rules σ ι}
  {l l' : LoopState σ ι ε}

/-- A move that obeys the rules is a step. -/
theorem step_of_move (hact : ∀ b s s', act b s = some s' → m.background s s') {move : Move β}
    (htakes : ∀ taken ∈ m.takes move l, rules.take taken.1 taken.2)
    (hruns : ∀ run ∈ m.runs move l, rules.segment run.1 run.2) (h : m.move act move l = some l') :
    Step m rules l l' := by
  unfold EventLoop.move at h
  split at h
  next s =>
    obtain ⟨⟨item, entry⟩, hnext, rfl⟩ := Option.map_eq_some_iff.mp h
    exact .take hnext (htakes (entry, item) (by simp [takes, hnext]))
      (hruns (entry, _) (by simp [runs, hnext]))
  next s entry item ready resume =>
    split at h
    next hready =>
      obtain rfl := Option.some.inj h
      exact .resume hready (hruns (s, _) (by simp [runs]))
    · simp at h
  next s entry item =>
    obtain rfl := Option.some.inj h
    exact .settle
  next b s =>
    obtain ⟨s', hs, rfl⟩ := Option.map_eq_some_iff.mp h
    exact .idle (hact b s s' hs)
  next b s entry item ready resume =>
    obtain ⟨s', hs, rfl⟩ := Option.map_eq_some_iff.mp h
    exact .meanwhile (hact b s s' hs)
  · simp at h

/-- A scenario that can be played and obeys the rules leads to a state of a run. -/
theorem Reachable.play (hact : ∀ b s s', act b s = some s' → m.background s s')
    {moves : List (Move β)} (h : Reachable m rules init l)
    (htakes : ∀ taken ∈ m.observed act m.takes moves l, rules.take taken.1 taken.2)
    (hruns : ∀ run ∈ m.observed act m.runs moves l, rules.segment run.1 run.2)
    (hplay : m.play act moves l = some l') : Reachable m rules init l' := by
  induction moves generalizing l with
  | nil =>
    obtain rfl := Option.some.inj hplay
    exact h
  | cons first rest ih =>
    obtain ⟨next, hmove, hrest⟩ := Option.bind_eq_some_iff.mp hplay
    have hstep := step_of_move hact (fun t ht => htakes t (List.mem_append_left _ ht))
      (fun t ht => hruns t (List.mem_append_left _ ht)) hmove
    simp only [observed, hmove] at htakes hruns
    exact ih (h.step hstep) (fun t ht => htakes t (List.mem_append_right _ ht))
      (fun t ht => hruns t (List.mem_append_right _ ht)) hrest

end Play

/-- What is known of a loop state when handlers run under contract `c` and end in `Q`: idle
states satisfy `I`, and a waiting handler has kept its part and will keep it when resumed. -/
def Within (rules : Rules σ ι) (I : σ → Prop) (c : σ → ι → Contract σ)
    (Q : σ → ι → σ → Except ε Unit → σ → Prop) (l : LoopState σ ι ε) : Prop :=
  match l.control with
  | .idle => I l.state
  | .handling entry item .returned =>
    ∃ start, Q entry item start (.ok ()) l.state ∧ rules.segment start l.state
  | .handling entry item (.raised error) =>
    ∃ start, Q entry item start (.error error) l.state ∧ rules.segment start l.state
  | .handling entry item (.waiting ready resume) =>
    ∃ start w, (c entry item).wait start w ∧ rules.segment start w ∧
      (c entry item).rely start w l.state ∧
      ∀ s, (c entry item).rely start w s → ready s → (resume s).Holds (c entry item) (Q entry item) s

/-- A segment that keeps the contract leaves the loop within its bounds. -/
theorem within_suspend {rules : Rules σ ι} {I : σ → Prop} {c : σ → ι → Contract σ}
    {Q : σ → ι → σ → Except ε Unit → σ → Prop} {entry start : σ} {item : ι}
    {o : Outcome σ ε Unit} (h : o.Holds (c entry item) (Q entry item) start)
    (hsegment : rules.segment start (o.suspend entry item).state)
    (hwait : ∀ w, (c entry item).wait start w → rules.segment start w →
      (c entry item).rely start w w) :
    Within rules I c Q (o.suspend entry item) := by
  cases o with
  | returned value state => exact ⟨start, h, hsegment⟩
  | raised error state => exact ⟨start, h, hsegment⟩
  | waiting state ready resume =>
    exact ⟨start, state, h.1, hsegment, hwait state h.1 hsegment, h.2⟩

/-- The rule for runs: if every handler that begins in a state satisfying `I` keeps its
contract, and background steps keep `I` and whatever the contracts rely on, then the whole
run stays within these bounds. -/
theorem Reachable.within {m : EventLoop σ ι ε} {rules : Rules σ ι} {init I : σ → Prop}
    {c : σ → ι → Contract σ} {Q : σ → ι → σ → Except ε Unit → σ → Prop} {l : LoopState σ ι ε}
    (h : m.Reachable rules init l) (hinit : ∀ s, init s → I s)
    (hidle : ∀ s s', I s → m.background s s' → I s')
    (hbody : ∀ s entry item, I s → m.next s = some (item, entry) → rules.take entry item →
      (m.body item entry).Holds (c entry item) (Q entry item) entry)
    (hrely : ∀ entry item start w s s', (c entry item).rely start w s → m.background s s' →
      (c entry item).rely start w s')
    (hwait : ∀ entry item start w, (c entry item).wait start w → rules.segment start w →
      (c entry item).rely start w w)
    (hreturn : ∀ entry item start s, Q entry item start (.ok ()) s → rules.segment start s → I s) :
    Within rules I c Q l := by
  induction h with
  | init starts => exact hinit _ starts
  | step _ steps ih =>
    cases steps with
    | take next allowed segment =>
      exact within_suspend (hbody _ _ _ ih next allowed) segment (hwait _ _ _)
    | resume awaited segment =>
      obtain ⟨start, w, -, -, hnow, hresume⟩ := ih
      exact within_suspend (hresume _ hnow awaited) segment (hwait _ _ _)
    | settle =>
      obtain ⟨start, hQ, hsegment⟩ := ih
      exact hreturn _ _ _ _ hQ hsegment
    | idle acts => exact hidle _ _ ih acts
    | meanwhile acts =>
      obtain ⟨start, w, hw, hsegment, hnow, hresume⟩ := ih
      exact ⟨start, w, hw, hsegment, hrely _ _ _ _ _ _ hnow acts, hresume⟩

end EventLoop

end MyTeam.Async

import MyTeam.Legacy.SharedKB
import MyTeam.Py.Format

/-!
# Leases of locks

A resource is locked for a number of ticks, under a token that only the holder knows. While the clock
does not go back, a lock is with one holder from when it is acquired until it is released or its lease
runs out: nobody else can take it, and one that was lost is never held again, whatever its former
holder still tries with the token.
-/

namespace MyTeam.Legacy

open MyTeam.Py

/-- `LockStatus`. -/
inductive LockStatus
  | active | expired | released
deriving DecidableEq

/-- `LockInfo`, with the lease. -/
structure Lease where
  lockId : String
  resource : String
  ownerAgentId : String
  acquiredAtTick : ℤ
  leaseUntilTick : ℤ
  status : LockStatus := .active
  lockToken : String
deriving DecidableEq

/-- `LockConflictError` and `LockTokenError`. -/
inductive LockError
  | conflict (resource owner : String)
  | token (resource operation : String)
deriving DecidableEq

/-- `str(exc)`. -/
def LockError.message : LockError → String
  | .conflict resource owner => s!"Cannot lock '{resource}': already held by '{owner}'"
  | .token resource operation => s!"Lock {operation} failed for '{resource}': invalid token"

/-- `LockManager`. -/
structure LockManager where
  locks : List (String × Lease) := []
  lockCounter : ℕ := 0
  defaultLeaseTicks : ℤ := 4

/-- What is asked of the locks. The token of a lock is drawn when it is acquired. -/
inductive LockCall
  | acquire (resource agentId newToken : String) (leaseTicks : Option ℤ)
  | release (resource agentId lockToken : String)
  | renew (resource agentId lockToken : String) (leaseTicks : Option ℤ)
  | checkExpired

namespace LockManager

variable (m : LockManager) (currentTick : ℤ)

/-- `lease_ticks or self._default_lease_ticks`. -/
def leaseOf (leaseTicks : Option ℤ) : ℤ := (leaseTicks.filter (· ≠ 0)).getD m.defaultLeaseTicks

/-- `get_lock`. -/
def getLock (resource : String) : Option Lease := (m.locks.lookup resource).filter fun lock => lock.status = .active

/-- `acquire`. -/
def acquire (resource agentId newToken : String) (leaseTicks : Option ℤ) : LockManager × Except LockError Lease :=
  match (m.getLock resource).filter fun existing => currentTick < existing.leaseUntilTick with
  | some existing => (m, .error (.conflict resource existing.ownerAgentId))
  | none =>
    let lock : Lease :=
      { lockId := s!"lock.{zeroPadded 6 (m.lockCounter + 1)}", resource := resource
        ownerAgentId := agentId, acquiredAtTick := currentTick, leaseUntilTick := currentTick + m.leaseOf leaseTicks
        lockToken := newToken }
    ({ m with locks := assign resource lock m.locks, lockCounter := m.lockCounter + 1 }, .ok lock)

/-- `release`. -/
def release (resource agentId lockToken : String) : LockManager × Except LockError Unit :=
  match m.getLock resource with
  | none => (m, .error (.token resource "release"))
  | some lock =>
    if lock.lockToken ≠ lockToken ∨ lock.ownerAgentId ≠ agentId then (m, .error (.token resource "release"))
    else ({ m with locks := assign resource { lock with status := .released } m.locks }, .ok ())

/-- `renew`. -/
def renew (resource agentId lockToken : String) (leaseTicks : Option ℤ) : LockManager × Except LockError Bool :=
  match m.getLock resource with
  | none => (m, .ok false)
  | some lock =>
    if lock.lockToken ≠ lockToken then (m, .error (.token resource "renew"))
    else if lock.ownerAgentId ≠ agentId ∨ lock.leaseUntilTick ≤ currentTick then (m, .ok false)
    else
      let lock := { lock with leaseUntilTick := currentTick + m.leaseOf leaseTicks }
      ({ m with locks := assign resource lock m.locks }, .ok true)

/-- `check_expired`, for a lock. -/
def expire (lock : Lease) : Lease :=
  if lock.status = .active ∧ lock.leaseUntilTick ≤ currentTick then { lock with status := .expired } else lock

/-- `check_expired`. -/
def checkExpired : LockManager × List Lease :=
  ({ m with locks := m.locks.map fun item => (item.1, expire currentTick item.2) },
    (m.locks.map Prod.snd).filterMap fun lock =>
      if lock.status = .active ∧ lock.leaseUntilTick ≤ currentTick then some (expire currentTick lock) else none)

/-- The locks after a call. -/
def step : LockCall → LockManager
  | .acquire resource agentId newToken leaseTicks => (m.acquire currentTick resource agentId newToken leaseTicks).1
  | .release resource agentId lockToken => (m.release resource agentId lockToken).1
  | .renew resource agentId lockToken leaseTicks => (m.renew currentTick resource agentId lockToken leaseTicks).1
  | .checkExpired => (m.checkExpired currentTick).1

/-- The locks after calls, each with its tick. -/
def run (calls : List (ℤ × LockCall)) : LockManager := calls.foldl (fun m call => m.step call.1 call.2) m

/-- Whether a resource is locked under a token at a tick. -/
def Holds (resource token : String) : Prop :=
  ∃ lock, m.getLock resource = some lock ∧ lock.lockToken = token ∧ currentTick < lock.leaseUntilTick

variable {m : LockManager} {currentTick tick : ℤ} {resource other token : String} {lock : Lease} {call : LockCall}

/-- The lock of a resource after a change of one lock. -/
theorem getLock_assign {counter : ℕ} :
    ({ m with locks := assign other lock m.locks, lockCounter := counter }).getLock resource =
    if resource = other then (some lock).filter fun lock => lock.status = .active else m.getLock resource := by
  unfold getLock
  rw [lookup_assign]
  split_ifs
  · rfl
  · rfl

/-- The lock of a resource after those that ran out were marked. -/
theorem getLock_checkExpired : (m.checkExpired currentTick).1.getLock resource =
    (m.getLock resource).filter fun lock => currentTick < lock.leaseUntilTick := by
  have hlookup : ((m.locks.map fun item => (item.1, expire currentTick item.2)).lookup resource) =
      (m.locks.lookup resource).map (expire currentTick) := by
    induction m.locks with
    | nil => rfl
    | cons item rest ih =>
      rw [List.map_cons, List.lookup_cons, List.lookup_cons]
      cases resource == item.1 with
      | true => rfl
      | false => exact ih
  unfold getLock checkExpired
  rw [hlookup]
  cases m.locks.lookup resource with
  | none => rfl
  | some lock =>
    simp only [Option.map_some, Option.filter_some, expire]
    by_cases hactive : lock.status = .active
    · by_cases hlease : lock.leaseUntilTick ≤ currentTick
      · simp [hactive, hlease, Option.filter_some]
      · simp [hactive, hlease, Option.filter_some]
    · simp [hactive]

/-- `acquire` finds the lock taken, or puts a new one. -/
theorem acquire_cases (m : LockManager) (currentTick : ℤ) (resource agentId newToken : String) (leaseTicks : Option ℤ) :
    (∃ lock, m.getLock resource = some lock ∧ currentTick < lock.leaseUntilTick ∧
      m.acquire currentTick resource agentId newToken leaseTicks = (m, .error (.conflict resource lock.ownerAgentId))) ∨
    ∃ lock, (∀ lock, m.getLock resource = some lock → lock.leaseUntilTick ≤ currentTick) ∧ lock.lockToken = newToken ∧
      m.acquire currentTick resource agentId newToken leaseTicks =
        ({ m with locks := assign resource lock m.locks, lockCounter := m.lockCounter + 1 }, .ok lock) := by
  unfold acquire
  cases hfound : (m.getLock resource).filter fun existing => currentTick < existing.leaseUntilTick with
  | some lock =>
    obtain ⟨hlock, hlease⟩ := Option.filter_eq_some_iff.mp hfound
    exact Or.inl ⟨lock, hlock, of_decide_eq_true hlease, rfl⟩
  | none =>
    refine Or.inr ⟨_, fun lock hlock => ?_, rfl, rfl⟩
    rw [hlock, Option.filter_some] at hfound
    simpa using hfound

/-- `release` finds the lock of the holder and takes it, or changes nothing. -/
theorem release_cases (m : LockManager) (resource agentId lockToken : String) :
    (m.release resource agentId lockToken).1 = m ∨ ∃ lock, m.getLock resource = some lock ∧
      lock.lockToken = lockToken ∧ lock.ownerAgentId = agentId ∧ (m.release resource agentId lockToken).1 =
        { m with locks := assign resource { lock with status := .released } m.locks } := by
  unfold release
  cases hlock : m.getLock resource with
  | none => exact Or.inl rfl
  | some lock =>
    dsimp only
    split_ifs with hrefused
    · exact Or.inl rfl
    · obtain ⟨htoken, howner⟩ := not_or.mp hrefused
      exact Or.inr ⟨lock, rfl, not_not.mp htoken, not_not.mp howner, rfl⟩

/-- `renew` finds the lock of the holder and changes its lease, or changes nothing. -/
theorem renew_cases (m : LockManager) (currentTick : ℤ) (resource agentId lockToken : String) (leaseTicks : Option ℤ) :
    (m.renew currentTick resource agentId lockToken leaseTicks).1 = m ∨ ∃ lock renewed, m.getLock resource = some lock ∧
      lock.lockToken = lockToken ∧ lock.ownerAgentId = agentId ∧ currentTick < lock.leaseUntilTick ∧
      renewed = { lock with leaseUntilTick := currentTick + m.leaseOf leaseTicks } ∧
      (m.renew currentTick resource agentId lockToken leaseTicks).1 =
        { m with locks := assign resource renewed m.locks } := by
  unfold renew
  cases hlock : m.getLock resource with
  | none => exact Or.inl rfl
  | some lock =>
    dsimp only
    split_ifs with htoken hrefused
    · exact Or.inl rfl
    · exact Or.inl rfl
    · obtain ⟨howner, hlease⟩ := not_or.mp hrefused
      exact Or.inr ⟨lock, _, rfl, not_not.mp htoken, not_not.mp howner, Int.not_le.mp hlease, rfl, rfl⟩

/-- A call that draws a token. -/
def Draws (token : String) : LockCall → Prop
  | .acquire _ _ newToken _ => newToken = token
  | _ => False

/-- A call with which the holder of a lock gives it back or changes its lease. -/
def ByHolder (lock : Lease) (resource : String) : LockCall → Prop
  | .release other agentId lockToken => other = resource ∧ lockToken = lock.lockToken ∧ agentId = lock.ownerAgentId
  | .renew other agentId lockToken _ => other = resource ∧ lockToken = lock.lockToken ∧ agentId = lock.ownerAgentId
  | _ => False

/-- A token that is not held is not held after a call, unless it is drawn. -/
theorem not_holds_step (h : ¬m.Holds currentTick resource token) (hdrawn : ¬Draws token call)
    (hle : currentTick ≤ tick) :
    ¬(m.step currentTick call).Holds tick resource token := by
  have hold {m' : LockManager} (hsame : m'.getLock resource = m.getLock resource) : ¬m'.Holds tick resource token := by
    rintro ⟨lock, hlock, htoken, hlease⟩
    exact h ⟨lock, hsame ▸ hlock, htoken, Int.lt_of_le_of_lt hle hlease⟩
  cases call with
  | acquire other agentId newToken leaseTicks =>
    rcases acquire_cases m currentTick other agentId newToken leaseTicks with ⟨_, -, -, heq⟩ | ⟨lock, -, rfl, heq⟩
    · exact hold (by rw [step, heq])
    by_cases hother : resource = other
    · rintro ⟨_, hlock, htoken, -⟩
      rw [step, heq, getLock_assign, if_pos hother] at hlock
      obtain ⟨hsame, -⟩ := Option.filter_eq_some_iff.mp hlock
      exact hdrawn (Option.some.inj hsame ▸ htoken)
    · exact hold (by rw [step, heq, getLock_assign, if_neg hother])
  | release other agentId lockToken =>
    rcases release_cases m other agentId lockToken with heq | ⟨lock, -, -, -, heq⟩
    · exact hold (by rw [step, heq])
    by_cases hother : resource = other
    · rintro ⟨_, hlock, -, -⟩
      rw [step, heq, getLock_assign, if_pos hother] at hlock
      simp [Option.filter_some] at hlock
    · exact hold (by rw [step, heq, getLock_assign, if_neg hother])
  | renew other agentId lockToken leaseTicks =>
    rcases renew_cases m currentTick other agentId lockToken leaseTicks with heq |
      ⟨lock, _, hlock, -, -, hlease, rfl, heq⟩
    · exact hold (by rw [step, heq])
    by_cases hother : resource = other
    · subst hother
      rintro ⟨_, hrenewed, htoken, -⟩
      rw [step, heq, getLock_assign, if_pos rfl] at hrenewed
      obtain ⟨hsame, -⟩ := Option.filter_eq_some_iff.mp hrenewed
      obtain rfl := Option.some.inj hsame
      exact h ⟨lock, hlock, htoken, hlease⟩
    · exact hold (by rw [step, heq, getLock_assign, if_neg hother])
  | checkExpired =>
    rintro ⟨lock, hlock, htoken, hlease⟩
    rw [step, getLock_checkExpired] at hlock
    exact h ⟨lock, (Option.filter_eq_some_iff.mp hlock).1, htoken, Int.lt_of_le_of_lt hle hlease⟩

/-- A lock stays as it is after a call before its lease runs out, unless its holder makes the call. -/
theorem getLock_step (h : m.getLock resource = some lock) (hlease : currentTick < lock.leaseUntilTick)
    (hholder : ¬ByHolder lock resource call) : (m.step currentTick call).getLock resource = some lock := by
  cases call with
  | acquire other agentId newToken leaseTicks =>
    rcases acquire_cases m currentTick other agentId newToken leaseTicks with ⟨_, -, -, heq⟩ | ⟨new, hfree, -, heq⟩
    · rw [step, heq, h]
    · have hother : resource ≠ other := by
        rintro rfl
        exact absurd (hfree lock h) (Int.not_le.mpr hlease)
      rw [step, heq, getLock_assign, if_neg hother, h]
  | release other agentId lockToken =>
    rcases release_cases m other agentId lockToken with heq | ⟨found, hfound, htoken, howner, heq⟩
    · rw [step, heq, h]
    · have hother : resource ≠ other := by
        rintro rfl
        obtain rfl := Option.some.inj (hfound.symm.trans h)
        exact hholder ⟨rfl, htoken.symm, howner.symm⟩
      rw [step, heq, getLock_assign, if_neg hother, h]
  | renew other agentId lockToken leaseTicks =>
    rcases renew_cases m currentTick other agentId lockToken leaseTicks with
      heq | ⟨found, _, hfound, htoken, howner, -, -, heq⟩
    · rw [step, heq, h]
    · have hother : resource ≠ other := by
        rintro rfl
        obtain rfl := Option.some.inj (hfound.symm.trans h)
        exact hholder ⟨rfl, htoken.symm, howner.symm⟩
      rw [step, heq, getLock_assign, if_neg hother, h]
  | checkExpired => rw [step, getLock_checkExpired, h, Option.filter_some, if_pos (decide_eq_true hlease)]

/-- While the clock does not go back, a lock that was lost is not held again, whatever is called, unless its token is
drawn once more. -/
theorem lost_forever (m : LockManager) (resource token : String) (currentTick tick : ℤ) (calls : List (ℤ × LockCall))
    (hclock : (currentTick :: (calls.map Prod.fst ++ [tick])).Pairwise (· ≤ ·))
    (hdrawn : ∀ call ∈ calls, ¬Draws token call.2)
    (h : ¬m.Holds currentTick resource token) : ¬(m.run calls).Holds tick resource token := by
  induction calls generalizing m currentTick with
  | nil =>
    rintro ⟨lock, hlock, htoken, hlease⟩
    have hle : currentTick ≤ tick := (List.pairwise_cons.mp hclock).1 tick (by simp)
    exact h ⟨lock, hlock, htoken, Int.lt_of_le_of_lt hle hlease⟩
  | cons call rest ih =>
    obtain ⟨hfirst, hrest⟩ := List.pairwise_cons.mp hclock
    have hle : currentTick ≤ call.1 := hfirst call.1 (by simp)
    have hbefore : ¬m.Holds call.1 resource token := by
      rintro ⟨lock, hlock, htoken, hlease⟩
      exact h ⟨lock, hlock, htoken, Int.lt_of_le_of_lt hle hlease⟩
    have hstep : ¬(m.step call.1 call.2).Holds call.1 resource token :=
      not_holds_step hbefore (hdrawn call List.mem_cons_self) (Int.le_refl _)
    exact ih _ _ hrest (fun call hcall => hdrawn call (List.mem_cons_of_mem _ hcall)) hstep

/-- A holder whose lease has run out, and who then tries to renew and to release it. -/
theorem lost_forever_stale : ¬(({ locks := [("kb", ⟨"lock.000001", "kb", "a", 0, 4, .active, "t"⟩)] } : LockManager).run
    [(5, .renew "kb" "a" "t" none), (5, .acquire "kb" "b" "u" none), (6, .release "kb" "a" "t")]).Holds 6 "kb" "t" :=
  lost_forever _ "kb" "t" 5 6 _ (by decide) (by simp [Draws]) fun ⟨lock, hlock, _, hlease⟩ => by
    obtain rfl : ⟨"lock.000001", "kb", "a", 0, 4, .active, "t"⟩ = lock := Option.some.inj hlock
    exact absurd hlease (by decide)

/-- Until its lease runs out a lock stays with its holder, who alone can end it, and all others are refused. -/
theorem held_until (m : LockManager) (resource : String) (lock : Lease) (calls : List (ℤ × LockCall))
    (hlock : m.getLock resource = some lock) (hlease : ∀ call ∈ calls, call.1 < lock.leaseUntilTick)
    (hholder : ∀ call ∈ calls, ¬ByHolder lock resource call.2) :
    (m.run calls).getLock resource = some lock ∧
      ∀ tick agentId newToken leaseTicks, tick < lock.leaseUntilTick →
        (m.run calls).acquire tick resource agentId newToken leaseTicks =
          (m.run calls, .error (.conflict resource lock.ownerAgentId)) := by
  have hkept : (m.run calls).getLock resource = some lock := by
    induction calls generalizing m with
    | nil => exact hlock
    | cons call rest ih =>
      refine ih (m.step call.1 call.2) ?_ (fun call hcall => hlease call (List.mem_cons_of_mem _ hcall))
        fun call hcall => hholder call (List.mem_cons_of_mem _ hcall)
      exact getLock_step hlock (hlease call List.mem_cons_self) (hholder call List.mem_cons_self)
  refine ⟨hkept, fun tick agentId newToken leaseTicks htick => ?_⟩
  rcases acquire_cases (m.run calls) tick resource agentId newToken leaseTicks with ⟨found, hfound, -, heq⟩ |
    ⟨_, hfree, -, -⟩
  · obtain rfl := Option.some.inj (hfound.symm.trans hkept)
    exact heq
  · exact absurd (hfree lock hkept) (Int.not_le.mpr htick)

/-- A lock that another agent tries to take, to release and to renew. -/
theorem held_until_refused : (({ locks := [("kb", ⟨"lock.000001", "kb", "a", 0, 4, .active, "t"⟩)] } : LockManager).run
    [(1, .acquire "kb" "b" "u" none), (2, .release "kb" "b" "t"), (3, .checkExpired)]).getLock "kb" =
      some ⟨"lock.000001", "kb", "a", 0, 4, .active, "t"⟩ :=
  (held_until _ "kb" ⟨"lock.000001", "kb", "a", 0, 4, .active, "t"⟩ _ rfl (by decide) (by simp [ByHolder])).1

end LockManager

end MyTeam.Legacy

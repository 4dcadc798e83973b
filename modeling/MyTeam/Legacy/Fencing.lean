import MyTeam.Legacy.Turns

/-!
# Results are fenced

An operation's result is to be written into a continuation at most once, while the continuation
awaits it, and only in the epoch the operation was submitted in. The first loop of Ingest checks
all of this; the second loop, for operations that a receipt completed in the same Ingest, does not
look at the epoch. So a result of an older epoch gets through exactly where the second loop meets a
completed operation of an older epoch that its agent still awaits.
-/

namespace MyTeam.Legacy

open MyTeam.Py MyTeam.Async

/-- A write as it should be. -/
def Write.Fenced (w : Write) : Prop :=
  w.awaited = some w.requestId ∧ w.opEpoch = w.stateEpoch

instance : DecidablePred Write.Fenced := fun _ => inferInstanceAs (Decidable (_ ∧ _))

/-- What was written is in the registry no more, and in no loop; every write is as required. -/
structure Spent (P : Write → Prop) (operations : List ℕ) (nextId : ℕ) (remaining : List ℕ) (writes : List Write) :
    Prop where
  nodup : operations.Nodup
  below : ∀ id ∈ operations, id < nextId
  rest_nodup : remaining.Nodup
  rest_below : ∀ id ∈ remaining, id < nextId
  gone : ∀ w ∈ writes, w.requestId ∉ operations ∧ w.requestId ∉ remaining ∧ w.requestId < nextId
  once : (writes.map Write.requestId).Nodup
  required : ∀ w ∈ writes, P w

namespace Spent

variable {P : Write → Prop} {operations remaining shorter rest : List ℕ} {nextId id : ℕ} {writes : List Write}
  {w : Write}

/-- Operations leave the registry, and the loops go on. -/
theorem shrink (h : Spent P operations nextId remaining writes) (hops : shorter.Sublist operations)
    (hrest : rest.Sublist remaining) : Spent P shorter nextId rest writes where
  nodup := h.nodup.sublist hops
  below id hid := h.below id (hops.subset hid)
  rest_nodup := h.rest_nodup.sublist hrest
  rest_below id hid := h.rest_below id (hrest.subset hid)
  gone w hw := by
    obtain ⟨hout, hskip, hlt⟩ := h.gone w hw
    exact ⟨fun hin => hout (hops.subset hin), fun hin => hskip (hrest.subset hin), hlt⟩
  once := h.once
  required := h.required

/-- A new operation. -/
theorem submit (h : Spent P operations nextId remaining writes) :
    Spent P (operations ++ [nextId]) (nextId + 1) remaining writes where
  nodup := by
    refine List.nodup_append.mpr ⟨h.nodup, List.nodup_singleton _, fun a ha b hb => ?_⟩
    have hlt := h.below a ha
    rw [List.mem_singleton] at hb
    omega
  below id hid := by
    rcases List.mem_append.mp hid with hid | hid
    · have hlt := h.below id hid
      omega
    · rw [List.mem_singleton] at hid
      omega
  rest_nodup := h.rest_nodup
  rest_below id hid := Nat.lt_succ_of_lt (h.rest_below id hid)
  gone w hw := by
    obtain ⟨hout, hskip, hlt⟩ := h.gone w hw
    refine ⟨fun hin => ?_, hskip, Nat.lt_succ_of_lt hlt⟩
    rcases List.mem_append.mp hin with hin | hin
    · exact hout hin
    · rw [List.mem_singleton] at hin
      omega
  once := h.once
  required := h.required

/-- A loop collects operations of the registry. -/
theorem collect (h : Spent P operations nextId remaining writes) (chosen : ℕ → Bool) :
    Spent P operations nextId (operations.filter chosen) writes where
  nodup := h.nodup
  below := h.below
  rest_nodup := h.nodup.sublist List.filter_sublist
  rest_below id hid := h.below id (List.mem_filter.mp hid).1
  gone w hw := by
    obtain ⟨hout, -, hlt⟩ := h.gone w hw
    exact ⟨hout, fun hin => hout (List.mem_filter.mp hin).1, hlt⟩
  once := h.once
  required := h.required

/-- The result of the next operation of a loop is written, and the operation leaves the registry. -/
theorem write (h : Spent P operations nextId (id :: rest) writes) (hw : w.requestId = id) (required : P w) :
    Spent P (operations.erase id) nextId rest (writes ++ [w]) where
  nodup := h.nodup.erase id
  below other hother := h.below other (List.mem_of_mem_erase hother)
  rest_nodup := (List.nodup_cons.mp h.rest_nodup).2
  rest_below other hother := h.rest_below other (List.mem_cons_of_mem id hother)
  gone v hv := by
    rcases List.mem_append.mp hv with hv | hv
    · obtain ⟨hout, hskip, hlt⟩ := h.gone v hv
      exact ⟨fun hin => hout (List.mem_of_mem_erase hin), fun hin => hskip (List.mem_cons_of_mem id hin), hlt⟩
    · rw [List.mem_singleton.mp hv, hw]
      exact ⟨h.nodup.not_mem_erase, (List.nodup_cons.mp h.rest_nodup).1, h.rest_below id List.mem_cons_self⟩
  once := by
    rw [List.map_append]
    refine List.nodup_append.mpr ⟨h.once, List.nodup_singleton _, fun a ha b hb => ?_⟩
    obtain ⟨v, hv, rfl⟩ := List.mem_map.mp ha
    obtain ⟨-, hskip, -⟩ := h.gone v hv
    rw [List.map_singleton, List.mem_singleton, hw] at hb
    rintro rfl
    exact hskip (hb ▸ List.mem_cons_self)
  required v hv := by
    rcases List.mem_append.mp hv with hv | hv
    · exact h.required v hv
    · exact List.mem_singleton.mp hv ▸ required

end Spent

namespace Simulation

variable {P : Write → Prop} {s t : Simulation} {move : Move} {id : ℕ}

/-- The second loop of Ingest writes no result of an older epoch. -/
def ReceiptsCurrent (s : Simulation) : Move → Prop
  | .ingest => match s.stage with
    | .receipted (id :: _) => s.Awaits id → (s.registry.op id).stateEpoch = s.stateEpoch
    | _ => True
  | _ => True

instance (s : Simulation) (move : Move) : Decidable (s.ReceiptsCurrent move) :=
  match move with
  | .ingest => match h : s.stage with
    | .receipted (id :: _) =>
      decidable_of_iff (s.Awaits id → (s.registry.op id).stateEpoch = s.stateEpoch) (by simp [ReceiptsCurrent, h])
    | .receipted [] => isTrue (by simp [ReceiptsCurrent, h])
    | .boundary | .expired _ | .failed _ | .completed _ | .receipts | .schedule | .decide _ _ | .act _ | .commit
    | .publish | .conclude _ | .finish => isTrue (by simp [ReceiptsCurrent, h])
  | .complete .. | .fail .. | .claim _ | .cancel _ | .wake _ | .route .. | .pause | .resume | .start | .receipt ..
  | .schedule _ | .decide .. | .act _ | .commit _ | .publish | .conclude | .crash => isTrue trivial

/-- The results written so far are spent and as required. -/
def Accounted (P : Write → Prop) (s : Simulation) : Prop :=
  Spent P s.registry.operations s.registry.nextId s.stage.remaining s.writes

/-- Every move accounts for what it writes. -/
theorem Accounted.step (h : s.Accounted P) (required : move = .ingest → ∀ id, s.Writes id → P (s.record id))
    (moves : s.step move = some t) : t.Accounted P := by
  unfold Accounted at h ⊢
  cases step_turn moves with
  | settle registry continuation writes remaining submissions =>
    rw [registry.operations, registry.nextId, writes]
    rcases remaining with hshorter | ⟨chosen, hcollected⟩
    · exact h.shrink (List.Sublist.refl _) hshorter
    · rw [hcollected]
      exact h.collect chosen
  | leave id registry continuation writes submissions =>
    rw [registry.operations, registry.nextId]
    rcases writes with ⟨hwrites, hremaining⟩ | ⟨hmove, hid, hwrites, hremaining⟩
    · rw [hwrites]
      exact h.shrink List.erase_sublist hremaining
    · rw [hwrites]
      rw [hremaining] at h
      exact h.write rfl (required hmove id hid)
  | submit agent op c c' known registry agentId pending results continuation writes remaining =>
    rw [registry, writes]
    exact (h.shrink (List.Sublist.refl _) remaining).submit
  | orphan op registry continuation writes remaining =>
    rw [registry, writes]
    exact (h.shrink (List.Sublist.refl _) remaining).submit
  | think agent f pending results phase registry continuation writes remaining submissions =>
    rw [registry, writes]
    exact h.shrink (List.Sublist.refl _) remaining
  | rollback allowed back =>
    subst back
    obtain ⟨hshorter, hnext⟩ := PendingOperationRegistry.foldl_removeForRollback (r := s.registry) s.tickPendingOps
    have hshrunk := h.shrink hshorter (List.nil_sublist _)
    rw [← hnext] at hshrunk
    exact hshrunk

/-- What is written was awaited. -/
theorem Writes.awaited (h : s.Writes id) : (s.record id).awaited = some (s.record id).requestId := by
  obtain ⟨⟨runtime, hruntime, hpending⟩, -⟩ := h
  simp [record, hruntime, hpending]

/-- Where the second loop meets only operations of the current epoch, so is what is written. -/
theorem Writes.epoch (h : s.Writes id) (current : s.ReceiptsCurrent .ingest) :
    (s.record id).opEpoch = (s.record id).stateEpoch := by
  obtain ⟨hawaits, ⟨-, hepoch⟩ | ⟨rest, hstage⟩⟩ := h
  · exact hepoch
  · simp only [ReceiptsCurrent, hstage] at current
    exact current hawaits

/-- Nothing is written before the first move. -/
theorem accounted_initial {agents : List String} {bootstrap human : String → Bool} {route : String → Route}
    {requests active : ℕ} : (initial agents bootstrap human route requests active).Accounted P :=
  ⟨List.nodup_nil, nofun, List.nodup_nil, nofun, nofun, List.nodup_nil, nofun⟩

/-- A result is written at most once, while it is awaited, and in the epoch of its operation, in every run in which
the second loop of Ingest meets no awaited operation of an older epoch. -/
theorem writes_fenced {agents : List String} {bootstrap human : String → Bool} {route : String → Route}
    {requests active : ℕ}
    (h : Reaches step ReceiptsCurrent (initial agents bootstrap human route requests active) s) :
    (s.writes.map Write.requestId).Nodup ∧
      ∀ w ∈ s.writes, w.awaited = some w.requestId ∧ w.opEpoch = w.stateEpoch := by
  have hinvariant : s.Accounted Write.Fenced := by
    refine h.invariant accounted_initial fun {t u move} ht keeps moves => ht.step (fun hmove id hwrites => ?_) moves
    subst hmove
    exact ⟨hwrites.awaited, hwrites.epoch keeps⟩
  exact ⟨hinvariant.once, hinvariant.required⟩

/-- Two agents, of whom the first asks a tool of an outside platform, in the first tick. -/
def requested : List Move :=
  Move.opening ++ Move.waking .bootstrap "a" 0 ++ Move.deciding (.submitToolRequest "r" "" "pay" 5 []) false

/-- The receipt of the first operation arrives in Ingest and is written by the second loop. -/
def receiptArrives : List Move :=
  [.start, .ingest, .ingest, .ingest, .receipt 0 [("ok", .bool true)], .ingest, .ingest]

/-- Two agents, the first of which starts. -/
def twoAgents : Simulation :=
  initial ["a", "b"] (· == "a") (fun _ => false) (fun _ => .integration) 4 8

/-- A receipt in the tick after the request is written once, as it should be. -/
theorem writes_fenced_receipt : ∃ s, Reaches step ReceiptsCurrent twoAgents s ∧ s.writes = [⟨0, some 0, 0, 0⟩] ∧
    (s.writes.map Write.requestId).Nodup ∧
      ∀ w ∈ s.writes, w.awaited = some w.requestId ∧ w.opEpoch = w.stateEpoch := by
  have hrun : (follow (within step ReceiptsCurrent) twoAgents (requested ++ receiptArrives)).map Simulation.writes =
      some [⟨0, some 0, 0, 0⟩] := by
    decide +kernel
  obtain ⟨s, hs, hwrites⟩ := Option.map_eq_some_iff.mp hrun
  exact ⟨s, .of_follow hs, hwrites, writes_fenced (.of_follow hs)⟩

/-- A tick of the other agent is rolled back in between: the receipt is written in the epoch after. -/
theorem receipt_after_rollback : ¬∀ (agents : List String) (bootstrap human : String → Bool) (route : String → Route)
    (requests active : ℕ) (s : Simulation),
    Reaches step (fun _ _ => True) (initial agents bootstrap human route requests active) s →
      (s.writes.map Write.requestId).Nodup ∧
        ∀ w ∈ s.writes, w.awaited = some w.requestId ∧ w.opEpoch = w.stateEpoch := by
  intro h
  have hrun : (follow (within step fun _ _ => True) twoAgents
      (requested ++ (Move.opening ++ Move.waking .newEmail "b" 1 ++ Move.deciding (.stage "") true) ++
        receiptArrives)).map
        Simulation.writes = some [⟨0, some 0, 0, 1⟩] := by
    decide +kernel
  obtain ⟨s, hs, hwrites⟩ := Option.map_eq_some_iff.mp hrun
  have hepoch := (h _ _ _ _ _ _ s (.of_follow hs)).2 ⟨0, some 0, 0, 1⟩
    (by rw [hwrites]; exact List.mem_singleton_self _)
  exact absurd hepoch.2 (by decide)

end Simulation

end MyTeam.Legacy

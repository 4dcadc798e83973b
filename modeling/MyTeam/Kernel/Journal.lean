import MyTeam.Kernel.Authority

/-!
# Journal

The table of what the kernel has seen. A row is written for every `journal_record`, whoever
asks for it. The event is written as JSON, which fails where an int has too many digits or where
it is nested too deep. The database binds `None`, numbers and strings, and refuses lists,
dictionaries and ints that are out of its range.
-/

namespace MyTeam.Kernel

open MyTeam.Py

/-- A row of the `events` table; its position is the `seq` column. -/
structure Row where
  ts : String
  source : Value
  target : Value
  kind : Value
  payload : String
  outcome : Value
  reason : Value

/-- What the interpreter and the database take: how many lists and dictionaries `json.dumps` can
enter, one in the other, on the kernel's stack, and which ints can be bound. What the kernel says
of its own is nested less deep than that. -/
structure Limits where
  room : ℕ
  binds : ℤ → Bool
  roomy : 8 ≤ room

/-- The usual limits: a stack of a thousand frames, most of them free, and ints of 64 bits. -/
def usualLimits : Limits := ⟨960, fun n => -0x8000000000000000 ≤ n ∧ n ≤ 0x7fffffffffffffff, by decide⟩

/-- The database. -/
structure Journal where
  rows : List Row
  limits : Limits

namespace Limits

variable (limits : Limits)

/-- The database can bind the value. -/
def accepts : Value → Bool
  | .int n => limits.binds n
  | v => v.hashable

/-- Bind a value to the parameter with this number. -/
def bindValue (parameter : ℕ) (v : Value) : Except Exc Value :=
  if limits.accepts v then .ok v
  else match v with
    | .int _ => .error (.other "Python int too large to convert to SQLite INTEGER")
    | v => .error (.other ("Error binding parameter " ++ toString parameter ++ ": type '" ++ v.typeName ++
        "' is not supported"))

/-- The event can be written, and its ends and kind can be bound; an empty event counts as an
empty dictionary. -/
def records (event : Value) : Bool :=
  let event := event.orElse (.dict [])
  event.isDict && event.writable limits.room && limits.accepts (event.field "source") &&
    limits.accepts (event.field "target") && limits.accepts (event.field "kind")

end Limits

namespace Journal

/-- `INSERT INTO events`: nothing is inserted when the event cannot be written or a value cannot be
bound. -/
def insert (j : Journal) (ts : String) (event outcome reason : Value) : Except Exc Journal := do
  let source ← event.get "source" .none
  let target ← event.get "target" .none
  let kind ← event.get "kind" .none
  let payload ← event.json j.limits.room
  let source ← j.limits.bindValue 2 source
  let target ← j.limits.bindValue 3 target
  let kind ← j.limits.bindValue 4 kind
  let outcome ← j.limits.bindValue 6 outcome
  let reason ← j.limits.bindValue 7 reason
  return { j with rows := j.rows ++ [⟨ts, source, target, kind, payload, outcome, reason⟩] }

/-- `respond` at time `ts`. The source of the request is not looked at. -/
def respond (j : Journal) (ts : String) (event : Value) : Except Exc (Journal × Value) := do
  let payload ← event.item "payload"
  let command ← payload.get "command" .none
  if command.isStr "journal_record" then
    let recorded ← payload.get "event" .none
    let outcome ← payload.get "outcome" .none
    let reason ← payload.get "reason" .none
    return (← j.insert ts (recorded.orElse (.dict [])) outcome reason, void)
  else return (j, void)

/-- The row for an event with this outcome. -/
def row (ts : String) (event outcome reason : Value) : Row where
  ts
  source := event.field "source"
  target := event.field "target"
  kind := event.field "kind"
  payload := event.dumps
  outcome
  reason

end Journal

end MyTeam.Kernel

import MyTeam.Kernel.Authority

/-!
# User-mode processes

A `ProcessHandle` is the host's proxy for one identity; it launches a process through the
closure it was given. A process has a channel to the host: the events delivered to it, of
which it has received a first part, and the values it has sent that its reader thread has
not received yet. Channels have unbounded buffers.

The reader checks that the process is alive, polls, receives, stamps the identity and puts
the event on the bus. The process may die, and close its end of the channel, at any moment;
a descendant that inherited the channel may keep it open after the death.
-/

namespace MyTeam.Kernel

open MyTeam.Py

/-- The device source a process was started with, and its options. -/
structure LoadSpec where
  identity : String
  path : String
  options : Value

/-- The closures that handles are created with. -/
inductive Spawn where
  | agent (identity : String) (options : Value)
  | device (identity path : String) (options : Value)
  | maintenance (actor target : String)

/-- The fields of a `UserModeProcess`. -/
structure Spec where
  identity : String
  maxConcurrentSources : Value
  loadSpec : Option LoadSpec
  maintenanceDevice : Option String

/-- Where the reader thread of a process is. -/
inductive Reader where
  | top
  | polling
  | receiving
  | holding (event : Value)
  | exited

/-- A process with its channel and its reader. `killed` records that the host killed it. -/
structure Proc where
  handle : ℕ
  spec : Spec
  alive : Bool
  killed : Bool
  connected : Bool
  delivered : List Value
  received : ℕ
  outbox : List Value
  reader : Reader

/-- A `ProcessHandle`. -/
structure Handle where
  identity : String
  spawn : Spawn
  process : Option ℕ

/-- `ProcessBase._validate_identity`. -/
def validateIdentity (identity : String) : Except Exc Unit :=
  if identity = "" ∨ '/' ∈ identity.toList ∨ ['.', '.'] <:+: identity.toList ∨ identity = "." ∨
      identity = "kernel" then
    .error (.valueError ("identity 非法: " ++ Value.reprStr identity))
  else .ok ()

/-- The check of identities that `register` and the command handlers make. -/
def illegal (identity : String) : Bool :=
  '/' ∈ identity.toList ∨ ['.', '.'] <:+: identity.toList ∨ identity = "." ∨ '@' ∈ identity.toList

/-- Call the closure of a handle: the process object, or the exception its constructor raises.
`Agent` takes `position` and `needs_network` as options and no others. -/
def Spawn.call : Spawn → Except Exc Spec
  | .agent identity options =>
    match options with
    | .dict kvs =>
      match kvs.find? fun kv => kv.1 ≠ "position" ∧ kv.1 ≠ "needs_network" with
      | some kv => .error (.typeError ("unexpected keyword argument " ++ Value.reprStr kv.1))
      | none => do
        validateIdentity identity
        return ⟨identity, .int 1, none, none⟩
    | v => .error (.typeError ("argument after ** must be a mapping, not " ++ v.typeName))
  | .device identity path options => do
    let maxConcurrentSources ← options.get "max_concurrent_sources" (.int 0)
    validateIdentity identity
    return ⟨identity, maxConcurrentSources, some ⟨identity, path, options⟩, none⟩
  | .maintenance actor target => do
    validateIdentity actor
    return ⟨actor, .int 0, none, some target⟩

/-- A slot of the process table that was never used. -/
def Proc.blank : Proc where
  handle := 0
  spec := ⟨"", .none, none, none⟩
  alive := false
  killed := false
  connected := false
  delivered := []
  received := 0
  outbox := []
  reader := .exited

/-- A process that has just been started, with its reader. -/
def Proc.started (handle : ℕ) (spec : Spec) : Proc :=
  { Proc.blank with handle, spec, alive := true, connected := true, reader := .top }

/-- `_parent.send` does not raise: the child's end is open, and the reader has not closed the
host's end. -/
def Proc.open (p : Proc) : Bool :=
  p.connected && match p.reader with
    | .exited => false
    | _ => true

/-- Whether the serve loop leaves on this event. -/
def terminates (event : Value) : Except Exc Bool := do
  let kind ← event.get "kind" .none
  if !kind.isStr "system" then return false
  let payload ← event.get "payload" (.dict [])
  let command ← payload.get "command" .none
  return command.isStr "terminate"

/-- Whether receiving this event ends the serve loop, by `break` or by an exception. -/
def stops (event : Value) : Bool :=
  match terminates event with
  | .ok stop => stop
  | .error _ => true

/-- One round of `_serve`: receive the next event; the loop ends, or the event goes to the
process's own dispatcher. -/
def Proc.serve (p : Proc) : Option Proc :=
  if p.alive then
    match p.delivered[p.received]? with
    | some event => some { p with received := p.received + 1, alive := !stops event }
    | none => none
  else none

/-- One step of `_read_loop`; a stamped event is handed over to the bus. -/
def Proc.read (p : Proc) : Option (Proc × Option Value) :=
  match p.reader with
  | .top => some ({ p with reader := if p.alive then .polling else .exited }, none)
  | .polling =>
    if p.outbox.isEmpty ∧ p.connected then some ({ p with reader := .top }, none)
    else some ({ p with reader := .receiving }, none)
  | .receiving =>
    match p.outbox with
    | [] => if p.connected then none else some ({ p with reader := .exited }, none)
    | event :: rest =>
      match event.setItem "source" (.str p.spec.identity) with
      | .ok stamped => some ({ p with outbox := rest, reader := .holding stamped }, none)
      -- not a dictionary: dropped with a message
      | .error _ => some ({ p with outbox := rest, reader := .top }, none)
  | .holding event => some ({ p with reader := .top }, some event)
  | .exited => none

end MyTeam.Kernel

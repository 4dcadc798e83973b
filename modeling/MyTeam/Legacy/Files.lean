import MyTeam.Py.Path
import MyTeam.Py.Value

/-!
# Private workspaces

The files of the agents. Every agent has a home below one base directory, and a path of an agent
is taken relative to its home. A path is resolved, links and `..` included, and rejected if it
leads out of the home.

Text is read with universal newlines and written as it is, so that reading a file and writing
back what was read replaces every carriage return.
-/

namespace MyTeam.Legacy

open MyTeam.Py

/-- What stands at a path: a directory, or a file with its bytes. -/
inductive FileNode
  | dir
  | file (bytes : ByteArray)

instance : DecidableEq FileNode
  | .dir, .dir => isTrue rfl
  | .dir, .file _ => isFalse (by simp)
  | .file _, .dir => isFalse (by simp)
  | .file bytes, .file other => decidable_of_iff (bytes.data = other.data) (by simp [ByteArray.ext_iff])

/-- A file system, by resolved paths; `resolve` is where a path leads, links and `..` followed. -/
structure FileSystem where
  node : List String → Option FileNode
  resolve : String → List String

/-- Text with `\r\n` and `\r` read as `\n`. -/
def universalNewlines : List Char → List Char
  | [] => []
  | '\r' :: '\n' :: rest => '\n' :: universalNewlines rest
  | '\r' :: rest => '\n' :: universalNewlines rest
  | c :: rest => c :: universalNewlines rest

/-- `read_text(encoding="utf-8")` of bytes; `none` is a `UnicodeDecodeError`. -/
def readText (bytes : ByteArray) : Option String :=
  (String.fromUTF8? bytes).map fun text => .ofList (universalNewlines text.toList)

/-- The value of a character of the base64 alphabet. -/
def base64Value (c : Char) : Option ℕ :=
  if 'A' ≤ c ∧ c ≤ 'Z' then some (c.toNat - 'A'.toNat)
  else if 'a' ≤ c ∧ c ≤ 'z' then some (c.toNat - 'a'.toNat + 26)
  else if '0' ≤ c ∧ c ≤ '9' then some (c.toNat - '0'.toNat + 52)
  else if c = '+' then some 62
  else if c = '/' then some 63
  else none

/-- The loop of `a2b_base64`: `quad` characters of a group have been read, `left` bits are over, and `pads` padding
characters came last. Other characters are skipped. -/
def decodeBase64 (quad left pads : ℕ) (out : List UInt8) : List Char → Option (List UInt8)
  | [] => if quad = 0 then some out else none
  | c :: rest =>
    if c = '=' then
      if 2 ≤ quad ∧ 4 ≤ quad + (pads + 1) then some out
      else decodeBase64 quad left (if 2 ≤ quad then pads + 1 else pads) out rest
    else
      match base64Value c with
      | none => decodeBase64 quad left pads out rest
      | some v =>
        match quad with
        | 0 => decodeBase64 1 v 0 out rest
        | 1 => decodeBase64 2 (v % 16) 0 (out ++ [.ofNat (left * 4 + v / 16)]) rest
        | 2 => decodeBase64 3 (v % 4) 0 (out ++ [.ofNat (left * 16 + v / 4)]) rest
        | _ => decodeBase64 0 0 0 (out ++ [.ofNat (left * 64 + v)]) rest

/-- `base64.b64decode`; `none` is any exception. -/
def b64decode : Value → Option ByteArray
  | .str s =>
    if s.toList.all fun c => c.toNat < 128 then (decodeBase64 0 0 0 [] s.toList).map fun bytes => ⟨bytes.toArray⟩
    else none
  | _ => none

namespace FileSystem

variable (fs : FileSystem)

/-- Whether a path is a file. -/
def isFile (path : List String) : Bool :=
  match fs.node path with
  | some (.file _) => true
  | _ => false

/-- Whether a path is a directory. -/
def isDir (path : List String) : Bool :=
  match fs.node path with
  | some .dir => true
  | _ => false

/-- Whether a path lies under a file. -/
def underFile (path : List String) : Bool :=
  path.inits.any fun above => decide (above ≠ path) && fs.isFile above

/-- `path.parent.mkdir(parents=True, exist_ok=True)`, where it does not raise. -/
def mkdirParents (path : List String) : FileSystem :=
  { fs with node := fun above =>
      if above <+: path ∧ above ≠ path ∧ fs.node above = none then some .dir else fs.node above }

/-- Puts a file at a path. -/
def write (path : List String) (bytes : ByteArray) : FileSystem :=
  { fs with node := Function.update fs.node path (some (.file bytes)) }

/-- `path.unlink(missing_ok=True)`, where it does not raise. -/
def unlink (path : List String) : FileSystem :=
  { fs with node := Function.update fs.node path none }

/-- Whether a file can be put at a path: the directories above it are there, and it is no directory. -/
def writable (path : List String) : Bool :=
  !fs.isDir path && path.inits.all fun above => decide (above = path) || fs.isDir above

end FileSystem

/-- `PrivateStore`, by its base path. -/
structure PrivateStore where
  basePath : String

namespace PrivateStore

variable (store : PrivateStore) (fs : FileSystem)

/-- `agent_home`. -/
def agentHome (agent : String) : String :=
  Path.join store.basePath agent

/-- The private directory of an agent. -/
def directory (agent : String) : List String :=
  fs.resolve (store.agentHome agent)

/-- `resolve_path`; `none` is an `AccessDeniedError`. -/
def resolvePath (agent path : String) : Except Exc (Option (List String)) :=
  let home := store.agentHome agent
  if '\x00' ∈ home.toList ∨ '\x00' ∈ path.toList then .error (.valueError "embedded null byte")
  else
    let candidate := fs.resolve (Path.join home path)
    .ok (if store.directory fs agent <+: candidate then some candidate else none)

end PrivateStore

end MyTeam.Legacy

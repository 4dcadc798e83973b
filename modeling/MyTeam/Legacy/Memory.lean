import MyTeam.Py.Value

/-!
# What an agent's memory holds

The entries of a memory, and the settings of its recall. The store of the entries is in `MemoryStore`.
-/

namespace MyTeam.Legacy

open MyTeam.Py

/-- `MemoryEntry`: an injected entry comes from elsewhere and is never stored. -/
structure MemoryEntry where
  entryId : String
  version : ℕ
  injected : Bool := false
  content : Value

/-- `RecallConfig`. -/
structure RecallConfig where
  persistentQueryTerms : List String := []
  tempOverrides : List String := []
deriving DecidableEq, Repr

end MyTeam.Legacy

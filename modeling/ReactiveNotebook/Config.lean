/-!
# Configuration of an engine

Limits of the script language, the modules scripts may import, the quiet period after which a burst of
writes is taken over, and whether scripts may run side by side.
-/
namespace ReactiveNotebook

/-- The modules that come with the library. -/
def builtinModules : List String := ["stats", "text"]

/-- The settings of an engine. A limit of zero is no limit. -/
structure Config where
  settleWindowMs : Nat
  parallelScripts : Bool
  maxOperations : Nat
  maxCallLevels : Nat
  maxStringSize : Nat
  maxArraySize : Nat
  modules : List String
  deriving DecidableEq, Repr

namespace Config

/-- The settings of a notebook without a configuration. -/
def standard : Config where
  settleWindowMs := 50
  parallelScripts := false
  maxOperations := 1000000
  maxCallLevels := 64
  maxStringSize := 1048576
  maxArraySize := 100000
  modules := builtinModules

instance : Inhabited Config := ⟨standard⟩

/-- The quiet period in nanoseconds. -/
def settleWindow (c : Config) : Nat := c.settleWindowMs * 1000000

end Config

end ReactiveNotebook

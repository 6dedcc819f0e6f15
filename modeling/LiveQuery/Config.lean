import LiveQuery.Backoff

/-!
# Configuration

The settings of an engine and of the client that drives it.
-/

namespace LiveQuery

/-- The settings, with the ones that hold when nothing is said. -/
structure Config where
  backoff : BackoffConfig := .standard
  /-- How many written batches may await their decision. -/
  maxWritesInFlight : Nat := 10
  /-- Whether complete views are kept in the store. -/
  persistViews : Bool := true
  /-- How many commands a client holds back for its engine. -/
  commandBuffer : Nat := 256

namespace Config

def withBackoff (config : Config) (backoff : BackoffConfig) : Config :=
  { config with backoff }

/-- At least one batch is always let through. -/
def withMaxWritesInFlight (config : Config) (limit : Nat) : Config :=
  { config with maxWritesInFlight := max limit 1 }

def withPersistViews (config : Config) (persist : Bool) : Config :=
  { config with persistViews := persist }

/-- At least one command can be held back. -/
def withCommandBuffer (config : Config) (capacity : Nat) : Config :=
  { config with commandBuffer := max capacity 1 }

/-- The settings of a test bench: no waits. -/
def bench : Config := Config.withBackoff {} .immediate

end Config

end LiveQuery

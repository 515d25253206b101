/-!
# The tracer cache

Tracers are made once for each name and kept. When making one fails, no further one is made and
callers get a tracer that does nothing, until the cache is reset; tracers made before stay
usable.
-/

namespace TsProject

/-- The tracers made so far. -/
structure TracerCache where
  /-- The names, in the order in which their tracers were made. -/
  names : List String := []
  /-- Making a tracer has failed. -/
  failed : Bool := false
  deriving DecidableEq, Repr

/-- What a caller gets. -/
inductive Tracer where
  | real (name : String)
  | idle
  deriving DecidableEq, Repr

namespace TracerCache

/-- **The tracer of a name.** `works` says whether a tracer can be made at the moment. -/
def get (cache : TracerCache) (works : Bool) (name : String) : Tracer × TracerCache :=
  if cache.names.contains name then (.real name, cache)
  else if cache.failed then (.idle, cache)
  else if works then (.real name, { cache with names := cache.names ++ [name] })
  else (.idle, { cache with failed := true })

/-- The empty cache. -/
def reset : TracerCache := {}

end TracerCache

end TsProject

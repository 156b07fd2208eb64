import DocumentMapper.Call.Arguments
import DocumentMapper.Config

/-!
# Configurations by name

The way to a local configuration under the names that scripts give to its parts.
-/

namespace DocumentMapper.Config

open Parameters

/-- The configuration of a server on this machine, all parts having defaults. -/
def localParameters : Parameters Value Config := do
  let database ← optional "database" (.text defaultDatabase)
  return forLocal database (← optional "port" (.int 27017))

end DocumentMapper.Config

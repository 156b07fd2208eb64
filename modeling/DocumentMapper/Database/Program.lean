import DocumentMapper.Action
import DocumentMapper.Database.Request

/-!
# Programs of requests

A program makes requests one after another, each one depending on the answers so far. Written down
as data it can be run in one piece, or request by request between those of other programs.
-/

namespace DocumentMapper.Database

inductive Program (α : Type) where
  | done (a : α)
  | fail (e : Error)
  | call (r : Request) (next : r.Answer → Program α)

/-- Runs a program in one piece. -/
def Program.run {σ α : Type} (execute : (r : Request) → Action σ r.Answer) :
    Program α → Action σ α
  | done a => return a
  | fail e => throw e
  | call r next => do
    let answer ← execute r
    run execute (next answer)

end DocumentMapper.Database

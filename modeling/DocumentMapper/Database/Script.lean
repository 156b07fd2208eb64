import DocumentMapper.Database.Connection

/-!
# Scripts on a connection

A script is a program of requests, raised errors, caught errors and transactions. It shows what
callers can do with a connection, and nothing else can be done with one.
-/

namespace DocumentMapper.Database

inductive Script where
  | request (r : Request)
  | raise (reason : String)
  /-- Whether a session is set. -/
  | session
  /-- The handle of a collection. -/
  | collection (name : String)
  | listCollections
  | drop
  | close
  | transaction (body : List Script)
  /-- Runs a body and goes on after an error. -/
  | attempt (body : List Script)

inductive Reply where
  | answer (r : Request) (a : r.Answer)
  | flag (b : Bool)
  | handle (h : Handle)
  | names (ns : List String)
  | nothing
  /-- The session of a transaction and the replies inside. -/
  | block (session : Nat) (inner : List Reply)
  | attempted (inner : List Reply)
  | failed (e : Error)

namespace Script

mutual

def run (db : Database) : Script → Action Connection Reply
  | request r => do return .answer r (← db.execute r)
  | raise reason => throw (.raised reason)
  | session => do return .flag (← get).session.isSome
  | collection name => return .handle (.collection db.name name)
  | listCollections => do return .names (← db.listCollections)
  | drop => do
    db.drop
    return .nothing
  | close => do
    Database.close
    return .nothing
  | transaction body => do
    let (s, inner) ← Database.transaction (runAll db body)
    return .block s inner
  | attempt body =>
    tryCatch (do return .attempted (← runAll db body)) fun e => return .failed e

def runAll (db : Database) : List Script → Action Connection (List Reply)
  | [] => return []
  | step :: rest => do
    let reply ← run db step
    return reply :: (← runAll db rest)

end

end Script

end DocumentMapper.Database

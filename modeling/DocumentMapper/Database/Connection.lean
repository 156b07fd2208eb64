import DocumentMapper.Action
import DocumentMapper.Config
import DocumentMapper.Database.Call
import DocumentMapper.Log.Basic
import DocumentMapper.Value.Access

/-!
# Connections and transactions

A connection keeps the session of the transaction it is in, if any, and a journal of the calls
made to the server. A transaction inside another one is part of it: only the outermost opens a
session, and only that one commits when it is left normally or aborts when an error leaves it.
-/

namespace DocumentMapper

structure Database.Connection where
  session : Option Nat
  /-- The number of sessions opened so far, which numbers the next one. -/
  opened : Nat
  calls : List Database.Call
  log : List Log.Record
  deriving Inhabited

/-- A server that has a right answer to every request. -/
structure Database.Server where
  answer : (r : Request) → r.Answer
  collections : List String

/-- A database of a server, with the size of its pages. -/
structure Database where
  server : Database.Server
  name : Value
  perPage : Value

namespace Database

namespace Connection

/-- A connection on which nothing has been done. -/
def fresh : Connection :=
  ⟨none, 0, [], []⟩

def record (calls : List Call) : Action Connection Unit :=
  modify fun c => { c with calls := c.calls ++ calls }

def logger : String := "mongolayer.Database"

def report (level : Log.Level) (message : String) : Action Connection Unit :=
  modify fun c => { c with log := c.log ++ [⟨logger, level, message⟩] }

end Connection

open Connection

/-- Whether and how a client has to be made. -/
inductive Client where
  /-- A client that is already there. -/
  | given
  /-- A client to make; the reason why its server does not answer, if it does not. -/
  | made (failure : Option String)

/-- Makes a client and asks its server for a sign of life. -/
def ping (config : Document) (failure : Option String) : Action Connection Unit := do
  let appName := config.fieldOrNull "app_name"
  let options : Document := if appName.isTruthy then [(.text "appname", appName)] else []
  let uri ← Action.ofExcept ((Value.dict config).field "uri")
  record [.makeClient uri options, .method .admin "command" [.text "ping"] [] none]
  match failure with
  | some reason =>
    report .error ("Failed to connect to " ++ uri.display ++ ": " ++ reason)
    throw (.connectionFailed reason)
  | none => return

/-- The entries of a configuration, those of the environment if there are none. -/
def settings (env : Environment) (config : Document) : Except Error Document :=
  if config.isEmpty then Config.toDocument <$> Config.ofEnvironment env else .ok config

/-- The database that a configuration names. -/
def connect (server : Server) (env : Environment) (config : Document) (client : Client) :
    Action Connection Database := do
  let config ← Action.ofExcept (settings env config)
  match client with
  | .given => pure ()
  | .made failure => ping config failure
  let name ← Action.ofExcept ((Value.dict config).field "database")
  report .info ("Connected to database " ++ name.display)
  return ⟨server, name, (config.field? "per_page").getD (.int Config.defaultPerPage)⟩

/-- Carries out a request. -/
def execute (db : Database) (r : Request) : Action Connection r.Answer := do
  record (calls db.name (← get).session r)
  return db.server.answer r

/-- The names of the collections. They are read outside of any transaction. -/
def listCollections (db : Database) : Action Connection (List String) := do
  record [.method (.database db.name) "list_collection_names" [] [] none]
  return db.server.collections

def drop (db : Database) : Action Connection Unit :=
  record [.dropDatabase db.name]

def close : Action Connection Unit :=
  record [.close]

/-- Runs a body as a transaction and gives the session it ran in with its result. -/
def transaction {α : Type} (body : Action Connection α) : Action Connection (Nat × α) where
  run c :=
    match c.session with
    | some s => ((fun a => (s, a)) <$> body).run c
    | none =>
      let s := c.opened
      let started := { c with
        session := some s
        opened := s + 1
        calls := c.calls ++ [.startSession s, .startTransaction s] }
      match body.run started with
      | (.ok a, c') =>
        (.ok (s, a), { c' with session := none, calls := c'.calls ++ [.commit s, .endSession s] })
      | (.error e, c') =>
        (.error e, { c' with
          session := none
          calls := c'.calls ++ [.abort s, .endSession s]
          log := c'.log ++ [⟨logger, .warning, "Transaction aborted"⟩] })

end Database

end DocumentMapper

import DocumentMapper.Database.Script

/-!
# Ambient transactions

What a program does on a connection is written down as moments: the calls to the server and, between
them, where a block is entered and left. `Conforms` says which moments belong to a program and knows
nothing of sessions. `Bracketed` says what sessions there have to be and knows nothing of programs:
it is a grammar in which a block that stands outside of all others opens a session and a
transaction, everything inside carries that session, and the end of the block commits or aborts as
the block was left. Every run conforms to its program and is bracketed. A request that is refused
is one after which an error is raised.
-/

namespace DocumentMapper.Database

inductive Moment where
  /-- A call that carries out a request. -/
  | call (c : Call)
  /-- A call that is no request, to list the collections, to drop the database or to close the
  connection. It takes no part in transactions. -/
  | aside (c : Call)
  /-- A call that begins or ends a session or a transaction. -/
  | control (c : Call)
  /-- A block is entered and is given a session. -/
  | enter (session : Nat)
  /-- A block is left, normally or by an error. -/
  | leave (failure : Option Error)
  /-- The program sees whether a session is set. -/
  | seen (isSet : Bool)

namespace Moment

def call? : Moment → Option Call
  | call c | aside c | control c => some c
  | enter _ | leave _ | seen _ => none

/-- The calls that begin a session and its transaction. -/
def opening (n : Nat) : List Moment :=
  [control (.startSession n), control (.startTransaction n)]

/-- The calls at the end of a transaction, which depend on how its block was left. -/
def closing (n : Nat) (failure : Option Error) : List Moment :=
  [control (if failure.isNone then .commit n else .abort n), control (.endSession n)]

end Moment

open Moment

/-- The calls among some moments, in their order. -/
def journal (moments : List Moment) : List Call :=
  moments.filterMap call?

/-- A call runs in a session, or outside of all of them. Reading a cursor to the end goes with the
call that gave the cursor. -/
def Carries (session : Option Nat) (c : Call) : Prop :=
  c.session? = some session ∨ c = .readAll

/-- The moments of a program that runs in a session, or outside of all of them, when `n` sessions
have been opened before, and how many have been opened then. -/
inductive Bracketed : Option Nat → Nat → List Moment → Nat → Prop
  | nil {session : Option Nat} {n : Nat} : Bracketed session n [] n
  | call {session : Option Nat} {n n' : Nat} {c : Call} {rest : List Moment} :
      Carries session c → Bracketed session n rest n' → Bracketed session n (.call c :: rest) n'
  | aside {session : Option Nat} {n n' : Nat} {c : Call} {rest : List Moment} :
      Bracketed session n rest n' → Bracketed session n (.aside c :: rest) n'
  | seen {session : Option Nat} {n n' : Nat} {rest : List Moment} :
      Bracketed session n rest n' → Bracketed session n (.seen session.isSome :: rest) n'
  /-- A block inside of another one yields its session and opens none. -/
  | inside {s n n' : Nat} {failure : Option Error} {inner rest : List Moment} :
      Bracketed (some s) n inner n → Bracketed (some s) n rest n' →
      Bracketed (some s) n (.enter s :: (inner ++ .leave failure :: rest)) n'
  /-- An outermost block opens the next session. -/
  | outermost {n n' : Nat} {failure : Option Error} {inner rest : List Moment} :
      Bracketed (some n) (n + 1) inner (n + 1) → Bracketed none (n + 1) rest n' →
      Bracketed none n
        (opening n ++ .enter n :: (inner ++ .leave failure :: (closing n failure ++ rest))) n'

mutual

/-- The moments that belong to a program and what it comes to. The session that a block is given
and the calls at its ends are left open. -/
inductive Conforms (db : Database) : Script → List Moment → Except Error Reply → Prop
  | request {r : Request} {session : Option Nat} :
      Conforms db (.request r) ((calls db.name session r).map .call)
        (.ok (.answer r (db.server.answer r)))
  | raise {reason : String} : Conforms db (.raise reason) [] (.error (.raised reason))
  | session {isSet : Bool} : Conforms db .session [.seen isSet] (.ok (.flag isSet))
  | collection {name : String} :
      Conforms db (.collection name) [] (.ok (.handle (.collection db.name name)))
  | listCollections :
      Conforms db .listCollections
        [.aside (.method (.database db.name) "list_collection_names" [] [] none)]
        (.ok (.names db.server.collections))
  | drop : Conforms db .drop [.aside (.dropDatabase db.name)] (.ok .nothing)
  | close : Conforms db .close [.aside .close] (.ok .nothing)
  | left {body : List Script} {before after : List Call} {s : Nat} {inner : List Moment}
      {replies : List Reply} :
      ConformsAll db body inner (.ok replies) →
      Conforms db (.transaction body)
        (before.map .control ++ .enter s :: (inner ++ .leave none :: after.map .control))
        (.ok (.block s replies))
  | escaped {body : List Script} {before after : List Call} {s : Nat} {inner : List Moment}
      {e : Error} :
      ConformsAll db body inner (.error e) →
      Conforms db (.transaction body)
        (before.map .control ++ .enter s :: (inner ++ .leave (some e) :: after.map .control))
        (.error e)
  | attempted {body : List Script} {inner : List Moment} {replies : List Reply} :
      ConformsAll db body inner (.ok replies) →
      Conforms db (.attempt body) inner (.ok (.attempted replies))
  | caught {body : List Script} {inner : List Moment} {e : Error} :
      ConformsAll db body inner (.error e) → Conforms db (.attempt body) inner (.ok (.failed e))

inductive ConformsAll (db : Database) :
    List Script → List Moment → Except Error (List Reply) → Prop
  | nil : ConformsAll db [] [] (.ok [])
  | cons {step : Script} {rest : List Script} {first later : List Moment} {reply : Reply}
      {replies : List Reply} :
      Conforms db step first (.ok reply) → ConformsAll db rest later (.ok replies) →
      ConformsAll db (step :: rest) (first ++ later) (.ok (reply :: replies))
  | later {step : Script} {rest : List Script} {first later : List Moment} {reply : Reply}
      {e : Error} :
      Conforms db step first (.ok reply) → ConformsAll db rest later (.error e) →
      ConformsAll db (step :: rest) (first ++ later) (.error e)
  | first {step : Script} {rest : List Script} {first : List Moment} {e : Error} :
      Conforms db step first (.error e) → ConformsAll db (step :: rest) first (.error e)

end

variable {db : Database} {session : Option Nat} {n n' n'' s : Nat} {moments later : List Moment}
  {c c' c'' : Connection} {failure : Option Error}

/-! ## The grammar of sessions -/

theorem journal_append (moments later : List Moment) :
    journal (moments ++ later) = journal moments ++ journal later :=
  List.filterMap_append

namespace Bracketed

theorem append (h : Bracketed session n moments n') (hlater : Bracketed session n' later n'') :
    Bracketed session n (moments ++ later) n'' := by
  induction h with
  | nil => exact hlater
  | call hc _ ih => exact .call hc (ih hlater)
  | aside _ ih => exact .aside (ih hlater)
  | seen _ ih => exact .seen (ih hlater)
  | inside hinner _ _ ih =>
    simp only [List.cons_append, List.append_assoc]
    exact .inside hinner (ih hlater)
  | outermost hinner _ _ ih =>
    simp only [List.cons_append, List.append_assoc]
    exact .outermost hinner (ih hlater)

/-- Nothing inside of a block opens a session. -/
theorem opened_eq (h : Bracketed session n moments n') (hs : session = some s) : n' = n := by
  induction h with
  | nil => rfl
  | call _ _ ih => exact ih hs
  | aside _ ih => exact ih hs
  | seen _ ih => exact ih hs
  | inside _ _ _ ih => exact ih hs
  | outermost => cases hs

theorem calls {cs : List Call} (h : ∀ c ∈ cs, Carries session c) :
    Bracketed session n (cs.map .call) n := by
  induction cs with
  | nil => exact .nil
  | cons c cs ih =>
    have hc := h c List.mem_cons_self
    exact .call hc (ih fun x hx => h x (List.mem_cons_of_mem _ hx))

end Bracketed

theorem carries_of_mem_calls {base : Value} {r : Request} {call : Call}
    (h : call ∈ calls base session r) : Carries session call := by
  obtain ⟨collection, operation⟩ := r
  cases operation with
  | aggregate =>
    simp only [calls, List.mem_cons, List.not_mem_nil, or_false] at h
    rcases h with rfl | rfl
    · exact .inl rfl
    · exact .inr rfl
  | findMany =>
    simp only [calls, List.mem_cons, List.not_mem_nil, or_false] at h
    rcases h with rfl | rfl
    · exact .inl rfl
    · exact .inr rfl
  | insertMany ds =>
    simp only [calls] at h
    split at h
    · cases h
    · rw [List.mem_singleton] at h
      exact .inl (by rw [h]; rfl)
  | _ =>
    simp only [calls, List.mem_singleton] at h
    exact .inl (by rw [h]; rfl)

/-! ## What a connection goes through -/

/-- A connection has gone through some moments. -/
structure Journaled (c : Connection) (moments : List Moment) (c' : Connection) : Prop where
  calls : c'.calls = c.calls ++ journal moments
  bracketed : Bracketed c.session c.opened moments c'.opened
  session : c'.session = c.session

/-- A connection at the beginning of an outermost block. -/
def Connection.begun (c : Connection) : Connection :=
  { c with
    session := some c.opened
    opened := c.opened + 1
    calls := c.calls ++ [.startSession c.opened, .startTransaction c.opened] }

namespace Journaled

theorem refl (c : Connection) : Journaled c [] c where
  calls := (List.append_nil _).symm
  bracketed := .nil
  session := rfl

theorem trans (h : Journaled c moments c') (hlater : Journaled c' later c'') :
    Journaled c (moments ++ later) c'' where
  calls := by rw [hlater.calls, h.calls, journal_append, List.append_assoc]
  bracketed := by
    have hrest := hlater.bracketed
    rw [h.session] at hrest
    exact h.bracketed.append hrest
  session := hlater.session.trans h.session

theorem seen (c : Connection) : Journaled c [.seen c.session.isSome] c where
  calls := (List.append_nil _).symm
  bracketed := .seen .nil
  session := rfl

theorem aside (c : Connection) (call : Call) :
    Journaled c [.aside call] { c with calls := c.calls ++ [call] } where
  calls := rfl
  bracketed := .aside .nil
  session := rfl

theorem request (base : Value) (r : Request) (c : Connection) :
    Journaled c ((Database.calls base c.session r).map .call)
      { c with calls := c.calls ++ Database.calls base c.session r } where
  calls := by
    have hcalls : ∀ cs : List Call, journal (cs.map .call) = cs := by
      intro cs
      rw [journal, List.filterMap_map]
      exact List.filterMap_some
    rw [hcalls]
  bracketed := .calls fun _ => carries_of_mem_calls
  session := rfl

/-- A block inside of a session goes through what its body does. -/
theorem inside (hs : c.session = some s) (h : Journaled c moments c')
    (failure : Option Error) :
    Journaled c (.enter s :: (moments ++ [.leave failure])) c' where
  calls := by
    have hjournal : journal (.enter s :: (moments ++ [.leave failure])) = journal moments := by
      rw [journal, List.filterMap_cons_none rfl, List.filterMap_append]
      exact List.append_nil _
    rw [hjournal, h.calls]
  bracketed := by
    have hinner := h.bracketed
    have hopened : c'.opened = c.opened := hinner.opened_eq hs
    rw [hs, hopened] at hinner
    rw [hs, hopened]
    exact .inside hinner .nil
  session := h.session

/-- An outermost block goes through what its body does in a session of its own. -/
theorem outermost (hs : c.session = none) (h : Journaled c.begun moments c')
    (failure : Option Error) (log : List Log.Record) :
    Journaled c
      (opening c.opened ++ .enter c.opened ::
        (moments ++ .leave failure :: closing c.opened failure))
      { c' with
        session := none
        calls := c'.calls ++ journal (closing c.opened failure)
        log := log } where
  calls := by
    have hbegun : c.begun.calls = c.calls ++ journal (opening c.opened) := rfl
    have hrest : journal (.enter c.opened ::
        (moments ++ .leave failure :: closing c.opened failure)) =
        journal moments ++ journal (closing c.opened failure) := by
      rw [journal, List.filterMap_cons_none rfl, List.filterMap_append,
        List.filterMap_cons_none rfl]
      rfl
    rw [h.calls, hbegun, journal_append, hrest, List.append_assoc, List.append_assoc]
  bracketed := by
    have hinner : Bracketed (some c.opened) (c.opened + 1) moments c'.opened := h.bracketed
    have hopened : c'.opened = c.opened + 1 := hinner.opened_eq rfl
    rw [hopened] at hinner
    rw [hs, hopened, ← List.append_nil (closing c.opened failure)]
    exact .outermost hinner .nil
  session := hs.symm

end Journaled

/-! ## Runs -/

/-- The error that an outcome is. -/
def failureOf {α : Type} : Except Error α → Option Error
  | .ok _ => none
  | .error e => some e

section Transaction

variable {α : Type} {body : Action Connection α} {outcome : Except Error α}

theorem run_transaction_inside (hs : c.session = some s) (h : body.run c = (outcome, c')) :
    (transaction body).run c = ((s, ·) <$> outcome, c') := by
  unfold transaction
  simp only [hs]
  rw [map_eq_pure_bind, Action.run_bind, h]
  cases outcome with
  | error e => rfl
  | ok a => rfl

theorem run_transaction_outermost (hs : c.session = none)
    (h : body.run c.begun = (outcome, c')) :
    ∃ log, (transaction body).run c =
      ((c.opened, ·) <$> outcome,
        { c' with
          session := none
          calls := c'.calls ++ journal (closing c.opened (failureOf outcome))
          log := log }) := by
  have hbegun : body.run
      { c with
        session := some c.opened
        opened := c.opened + 1
        calls := c.calls ++ [.startSession c.opened, .startTransaction c.opened] } =
      (outcome, c') := h
  unfold transaction
  simp only [hs, hbegun]
  cases outcome with
  | error e => exact ⟨_, rfl⟩
  | ok a => exact ⟨_, rfl⟩

/-- Wherever an action starts, it goes through moments that belong to it and its outcome. -/
def Passes (act : Action Connection α) (Belongs : List Moment → Except Error α → Prop) : Prop :=
  ∀ c, ∃ moments outcome c', act.run c = (outcome, c') ∧ Journaled c moments c' ∧
    Belongs moments outcome

/-- The moments of a block: those of its body between the ones in which it is entered and left. -/
theorem Passes.exists_transaction {Belongs : List Moment → Except Error α → Prop}
    (h : Passes body Belongs) (c : Connection) :
    ∃ (s : Nat) (before after : List Call) (inner : List Moment) (outcome : Except Error α)
      (c' : Connection), (transaction body).run c = ((s, ·) <$> outcome, c') ∧
      Journaled c (before.map .control ++ .enter s ::
        (inner ++ .leave (failureOf outcome) :: after.map .control)) c' ∧
      Belongs inner outcome := by
  cases hs : c.session with
  | some s =>
    obtain ⟨inner, outcome, c', hrun, hgone, hbelongs⟩ := h c
    have hblock := hgone.inside hs (failureOf outcome)
    exact ⟨s, [], [], inner, outcome, c', run_transaction_inside hs hrun, hblock, hbelongs⟩
  | none =>
    obtain ⟨inner, outcome, c', hrun, hgone, hbelongs⟩ := h c.begun
    obtain ⟨log, hrun⟩ := run_transaction_outermost hs hrun
    have hblock := hgone.outermost hs (failureOf outcome) log
    exact ⟨c.opened, journal (opening c.opened), journal (closing c.opened (failureOf outcome)),
      inner, outcome, _, hrun, hblock, hbelongs⟩

end Transaction

mutual

theorem passes_run (db : Database) :
    ∀ script : Script, Passes (script.run db) (Conforms db script)
  | .request r => fun c => ⟨_, _, _, rfl, .request db.name r c, .request⟩
  | .raise reason => fun c => ⟨_, _, _, rfl, .refl c, .raise⟩
  | .session => fun c => ⟨_, _, _, rfl, .seen c, .session⟩
  | .collection name => fun c => ⟨_, _, _, rfl, .refl c, .collection⟩
  | .listCollections => fun c => ⟨_, _, _, rfl, .aside c _, .listCollections⟩
  | .drop => fun c => ⟨_, _, _, rfl, .aside c _, .drop⟩
  | .close => fun c => ⟨_, _, _, rfl, .aside c _, .close⟩
  | .transaction body => by
    intro c
    obtain ⟨s, before, after, inner, outcome, c', hrun, hgone, hbody⟩ :=
      (passes_runAll db body).exists_transaction c
    cases outcome with
    | error e =>
      refine ⟨_, _, c', ?_, hgone, .escaped hbody⟩
      rw [Script.run]
      exact Action.run_bind_error hrun
    | ok replies =>
      refine ⟨_, _, c', ?_, hgone, .left hbody⟩
      rw [Script.run]
      exact Action.run_bind_ok hrun
  | .attempt body => by
    intro c
    obtain ⟨inner, outcome, c', hrun, hgone, hbody⟩ := passes_runAll db body c
    cases outcome with
    | error e =>
      refine ⟨inner, _, c', ?_, hgone, .caught hbody⟩
      rw [Script.run, Action.run_tryCatch_error (Action.run_bind_error hrun)]
      rfl
    | ok replies =>
      refine ⟨inner, _, c', ?_, hgone, .attempted hbody⟩
      rw [Script.run]
      exact Action.run_tryCatch_ok (Action.run_bind_ok hrun)

theorem passes_runAll (db : Database) :
    ∀ scripts : List Script, Passes (Script.runAll db scripts) (ConformsAll db scripts)
  | [] => fun c => ⟨[], _, c, rfl, .refl c, .nil⟩
  | step :: rest => by
    intro c
    obtain ⟨first, outcome, c₁, hrun, hgone, hstep⟩ := passes_run db step c
    cases outcome with
    | error e =>
      refine ⟨first, _, c₁, ?_, hgone, .first hstep⟩
      rw [Script.runAll]
      exact Action.run_bind_error hrun
    | ok reply =>
      obtain ⟨later, outcome, c', hlater, hpassed, hrest⟩ := passes_runAll db rest c₁
      have hrun : (Script.runAll db (step :: rest)).run c =
          ((reply :: ·) <$> outcome, c') := by
        rw [Script.runAll, Action.run_bind_ok hrun, Action.run_bind, hlater]
        cases outcome with
        | error e => rfl
        | ok replies => rfl
      cases outcome with
      | error e => exact ⟨first ++ later, _, c', hrun, hgone.trans hpassed, .later hstep hrest⟩
      | ok replies => exact ⟨first ++ later, _, c', hrun, hgone.trans hpassed, .cons hstep hrest⟩

end

/-- A server that has no documents and changes nothing. -/
def Server.empty : Server where
  answer
    | ⟨_, .aggregate _⟩ | ⟨_, .findMany ..⟩ => ([] : List Document)
    | ⟨_, .explain _⟩ => ([] : Document)
    | ⟨_, .insertOne _⟩ => Value.null
    | ⟨_, .insertMany _⟩ | ⟨_, .distinct ..⟩ => ([] : List Value)
    | ⟨_, .replaceOne ..⟩ | ⟨_, .updateOne ..⟩ | ⟨_, .updateMany ..⟩ | ⟨_, .deleteOne _⟩
    | ⟨_, .deleteMany _⟩ | ⟨_, .count _⟩ => (0 : Int)
    | ⟨_, .findOneAndUpdate ..⟩ | ⟨_, .findOne _⟩ => (none : Option Document)
  collections := []

def emptyShop : Database :=
  ⟨.empty, .text "shop", .null⟩

/-- A block with a block inside of it that an error leaves, which is caught before it could leave
the outer one. -/
def caughtInside : List Script :=
  [.transaction [.attempt [.transaction [.raise "boom"]], .request ⟨"orders", .deleteOne []⟩],
    .session]

example : ((Script.runAll emptyShop caughtInside).run .fresh).2.calls =
    [.startSession 0, .startTransaction 0,
      .method (.collection (.text "shop") "orders") "delete_one" [.dict []] [] (some 0),
      .commit 0, .endSession 0] := rfl

end DocumentMapper.Database

import DocumentMapper.Proofs.Log.Names

/-!
# Where records end up

Loggers are asked of a manager, and records are written with the loggers that it gave. What is then
in the files is told by the calls alone: a logger is the one that was made for the first pair with
its key, and a record goes to the file of that pair and, if it is an error, to the file of errors.
So every record reaches the file that its own pair determines, and reaches each of the two files
once, exactly if pairs with one key have one file, the files can be opened and no logger with an
error to write has the file of errors for its own.
-/

namespace DocumentMapper.Log

/-! ## Calls -/

/-- A name and a component, which a logger is asked for by. -/
structure Pair where
  name : String
  component : Option String
  deriving DecidableEq

namespace Pair

variable (p : Pair)

def key : String := loggerKey p.name p.component

/-- The file that the pair determines. -/
def file (directory : Place) : Place := loggerFile directory p.name p.component

/-- The directory that the file of the pair should be in. -/
def home (directory : Place) : Place := Log.home directory p.component

/-- The logger that a manager makes for the pair. -/
def made (m : Manager) : Logger := m.make p.name p.component

theorem made_name (m : Manager) : (p.made m).name = "mongolayer." ++ p.key := by
  rw [made, Manager.make, key]

theorem made_file (m : Manager) : (p.made m).file = p.file m.directory := by
  rw [made, Manager.make, file]

theorem made_level (m : Manager) : (p.made m).level = m.level := by
  rw [made, Manager.make]

end Pair

/-- What is asked of a manager. A record is written with the `i`th of the loggers that were
given. -/
inductive Call where
  | ask (pair : Pair)
  | log (i : Nat) (stamp : Stamp) (level : Level) (message : String) (context : Value)

/-- A manager and the loggers that it gave, in order. -/
structure Session where
  manager : Manager
  given : List Logger

namespace Session

/-- A call that fails, or that writes with a logger which was not given, changes nothing. -/
def take (s : Session) : Call → Session
  | .ask p =>
    let (l, m) := s.manager.logger p.name p.component
    ⟨m, s.given ++ [l]⟩
  | .log i stamp level message context =>
    match (s.given[i]?).map fun l => s.manager.write stamp l level message context with
    | some (.ok m) => { s with manager := m }
    | _ => s

def after (s : Session) (calls : List Call) : Session :=
  calls.foldl take s

/-- How often a call writes to a file. -/
def timesTo (s : Session) (call : Call) (file : Place) : Nat :=
  ((s.take call).manager.writes.drop s.manager.writes.length).countP (·.1 = file)

end Session

/-! ## What the calls tell -/

/-- The pair that a call asks for. -/
def Call.pair? : Call → Option Pair
  | .ask p => some p
  | .log .. => none

/-- The pairs that calls ask for, in order. -/
def asked (calls : List Call) : List Pair :=
  calls.filterMap Call.pair?

/-- The first of the pairs with a key. -/
def firstWith (pairs : List Pair) (key : String) : Option Pair :=
  pairs.find? fun p => p.key = key

/-- The first of the pairs with the key of a pair. -/
def keeper (pairs : List Pair) (p : Pair) : Pair :=
  (firstWith pairs p.key).getD p

/-- A record that passes the level of its logger, and the pair by which that logger was asked
for. -/
structure Entry where
  pair : Pair
  stamp : Stamp
  level : Level
  message : String

/-- What a call gives to write, with the pairs that were asked for before. -/
def Call.written? (bar : Level) (pairs : List Pair) : Call → Option Entry
  | .ask _ => none
  | .log i stamp level message context =>
    match pairs[i]?, withContext message context with
    | some p, .ok text => if level.reaches bar then some ⟨p, stamp, level, text⟩ else none
    | _, _ => none

/-- What calls give to write, in order, with the pairs that were asked for before. -/
def entries (bar : Level) (pairs : List Pair) : List Call → List Entry
  | [] => []
  | call :: rest =>
    (call.written? bar pairs).toList ++ entries bar (pairs ++ call.pair?.toList) rest

namespace Entry

variable (m : Manager) (e : Entry)

def record : Record := ⟨"mongolayer." ++ e.pair.key, e.level, e.message⟩

/-- What an entry comes to in the file of its logger. -/
def ownWrites (own : Place) : List (Place × String) :=
  if m.opens own then [(own, m.line e.stamp e.record)] else []

/-- What an entry comes to in the file of errors. -/
def errorWrites : List (Place × String) :=
  if e.level.reaches .error && m.opens (errorFile m.directory) then
    [(errorFile m.directory, Manager.errorLine e.stamp e.record)]
  else []

/-- What an entry comes to: its logger was made for the first of the pairs with its key. -/
def writes (pairs : List Pair) : List (Place × String) :=
  e.ownWrites m ((keeper pairs e.pair).file m.directory) ++ e.errorWrites m

/-- How often an entry comes to a file. -/
def timesIn (pairs : List Pair) (file : Place) : Nat :=
  (e.writes m pairs).countP (·.1 = file)

end Entry

/-- One of the calls gives an entry to write, when some calls came before it. -/
structure GivenBy (bar : Level) (calls before : List Call) (call : Call) (e : Entry) : Prop where
  among : before ++ [call] <+: calls
  entry : call.written? bar (asked before) = some e

/-- Every pair is given a logger that writes to the file which the pair determines, in its
directory, and the call for a record writes once to that file and, for an error, once to the file of
errors. -/
structure Faithful (m : Manager) (calls : List Call) : Prop where
  files : ((Session.mk m []).after calls).given.map (·.file) =
    (asked calls).map (·.file m.directory)
  homes : ∀ p ∈ asked calls, (p.file m.directory).dropLast = p.home m.directory
  own : ∀ before call e, GivenBy m.level calls before call e →
    ((Session.mk m []).after before).timesTo call (e.pair.file m.directory) = 1
  errors : ∀ before call e, GivenBy m.level calls before call e → e.level.reaches .error = true →
    ((Session.mk m []).after before).timesTo call (errorFile m.directory) = 1

/-! ## Pairs with one key -/

section Keeper

variable {pairs : List Pair} {p q : Pair} {key : String}

theorem firstWith_append (pairs more : List Pair) (key : String) :
    firstWith (pairs ++ more) key = (firstWith pairs key).or (firstWith more key) :=
  List.find?_append

theorem firstWith_singleton (p : Pair) (key : String) :
    firstWith [p] key = if p.key = key then some p else none := by
  rw [firstWith, List.find?_singleton]
  simp only [decide_eq_true_eq]

theorem isSome_firstWith (h : p ∈ pairs) : (firstWith pairs p.key).isSome = true := by
  rw [firstWith, List.find?_isSome]
  exact ⟨p, h, decide_eq_true rfl⟩

theorem key_of_firstWith (h : firstWith pairs key = some p) : p.key = key :=
  of_decide_eq_true (List.find?_some h :)

theorem key_keeper (pairs : List Pair) (p : Pair) : (keeper pairs p).key = p.key := by
  unfold keeper
  cases h : firstWith pairs p.key with
  | none => rfl
  | some q => exact key_of_firstWith h

theorem keeper_mem (h : p ∈ pairs) : keeper pairs p ∈ pairs := by
  obtain ⟨q, hq⟩ := Option.isSome_iff_exists.1 (isSome_firstWith h)
  rw [keeper, hq]
  exact List.mem_of_find?_eq_some hq

/-- Pairs that are asked for later do not take the place of the first one. -/
theorem keeper_append (h : p ∈ pairs) (more : List Pair) :
    keeper (pairs ++ more) p = keeper pairs p := by
  rw [keeper, firstWith_append, Option.or_of_isSome (isSome_firstWith h), keeper]

theorem keeper_append_self (pairs : List Pair) (p : Pair) :
    keeper (pairs ++ [p]) p = keeper pairs p := by
  rw [keeper, firstWith_append, firstWith_singleton, if_pos rfl, keeper]
  cases firstWith pairs p.key <;> rfl

theorem keeper_eq_of_key_eq (hp : p ∈ pairs) (h : p.key = q.key) :
    keeper pairs p = keeper pairs q := by
  obtain ⟨r, hr⟩ := Option.isSome_iff_exists.1 (isSome_firstWith hp)
  rw [keeper, keeper, ← h, hr]
  rfl

end Keeper

theorem asked_cons (call : Call) (rest : List Call) :
    asked (call :: rest) = call.pair?.toList ++ asked rest := by
  rw [asked, List.filterMap_cons, asked]
  cases call <;> rfl

theorem asked_append (calls more : List Call) : asked (calls ++ more) = asked calls ++ asked more :=
  List.filterMap_append

theorem pair_mem_of_written {bar : Level} {pairs : List Pair} {call : Call} {e : Entry}
    (h : call.written? bar pairs = some e) : e.pair ∈ pairs := by
  cases call with
  | ask p => cases h
  | log i stamp level message context =>
    rw [Call.written?] at h
    split at h
    · rename_i p text hp htext
      split at h
      · cases h
        exact List.mem_of_getElem? hp
      · cases h
    · cases h

theorem mem_entries_iff {bar : Level} {pairs : List Pair} {calls : List Call} {e : Entry} :
    e ∈ entries bar pairs calls ↔ ∃ before call, before ++ [call] <+: calls ∧
      call.written? bar (pairs ++ asked before) = some e := by
  induction calls generalizing pairs with
  | nil =>
    refine iff_of_false List.not_mem_nil ?_
    rintro ⟨before, call, hprefix, -⟩
    simp at hprefix
  | cons first rest ih =>
    rw [entries, List.mem_append, ih, Option.mem_toList]
    constructor
    · rintro (hfirst | ⟨before, call, hprefix, hentry⟩)
      · exact ⟨[], first, List.cons_prefix_cons.2 ⟨rfl, List.nil_prefix⟩, by
          rwa [asked, List.filterMap_nil, List.append_nil]⟩
      · exact ⟨first :: before, call, List.cons_prefix_cons.2 ⟨rfl, hprefix⟩, by
          rwa [asked_cons, ← List.append_assoc]⟩
    · rintro ⟨before, call, hprefix, hentry⟩
      cases before with
      | nil =>
        obtain ⟨rfl, -⟩ := List.cons_prefix_cons.1 hprefix
        rw [asked, List.filterMap_nil, List.append_nil] at hentry
        exact .inl hentry
      | cons other before =>
        obtain ⟨rfl, hrest⟩ := List.cons_prefix_cons.1 hprefix
        rw [asked_cons, ← List.append_assoc] at hentry
        exact .inr ⟨before, call, hrest, hentry⟩

theorem mem_entries_nil_iff {bar : Level} {calls : List Call} {e : Entry} :
    e ∈ entries bar [] calls ↔ ∃ before call, GivenBy bar calls before call e := by
  rw [mem_entries_iff]
  constructor
  · rintro ⟨before, call, hprefix, hentry⟩
    exact ⟨before, call, hprefix, hentry⟩
  · rintro ⟨before, call, hgiven⟩
    exact ⟨before, call, hgiven.among, hgiven.entry⟩

/-! ## Calls of a manager -/

namespace Manager

variable {m start : Manager}

/-- What a record comes to at some sinks. -/
def delivered (m : Manager) (stamp : Stamp) (r : Record) (sinks : List Sink) :
    List (Place × String) :=
  (sinks.filter (m.accepts r)).map fun sink => (sink.file, m.lineFor stamp r sink)

theorem foldl_deliver (m : Manager) (stamp : Stamp) (r : Record) (sinks : List Sink) :
    sinks.foldl (deliver · stamp r) m =
      { m with writes := m.writes ++ m.delivered stamp r sinks } := by
  induction sinks generalizing m with
  | nil => rw [delivered, List.filter_nil, List.map_nil, List.append_nil, List.foldl_nil]
  | cons sink rest ih =>
    rw [List.foldl_cons, deliver, delivered]
    by_cases haccepts : m.accepts r sink = true
    · rw [if_pos haccepts, ih, List.filter_cons_of_pos haccepts, List.map_cons]
      exact congrArg (fun writes => { m with writes }) (List.append_assoc ..)
    · rw [if_neg haccepts, ih, List.filter_cons_of_neg haccepts, delivered]

theorem write_of_ok {message text : String} {context : Value}
    (h : withContext message context = .ok text) (m : Manager) (stamp : Stamp) (l : Logger)
    (level : Level) : m.write stamp l level message context = .ok { m with
      writes := m.writes ++ if level.reaches l.level then
        m.delivered stamp ⟨l.name, level, text⟩ (m.sinks l) else [] } := by
  simp only [write, h, bind, Except.bind, foldl_deliver]
  by_cases hreaches : level.reaches l.level = true
  · rw [if_pos hreaches, if_pos hreaches]
  · rw [if_neg hreaches, if_neg hreaches, List.append_nil]

theorem write_of_error {message : String} {context : Value} {error : Error}
    (h : withContext message context = .error error) (m : Manager) (stamp : Stamp) (l : Logger)
    (level : Level) : m.write stamp l level message context = .error error := by
  simp only [write, h, bind, Except.bind]

/-- What every call leaves as it is. -/
structure Alike (m start : Manager) : Prop where
  detailed : m.detailed = start.detailed
  directory : m.directory = start.directory
  opens : m.opens = start.opens

theorem Alike.level_eq (h : m.Alike start) : m.level = start.level := by
  rw [level, h.detailed, level]

theorem Alike.made_eq (h : m.Alike start) (p : Pair) : p.made m = p.made start := by
  rw [Pair.made, make, h.level_eq, h.directory, Pair.made, make]

theorem Alike.writes_eq (h : m.Alike start) (pairs : List Pair) (e : Entry) :
    e.writes m pairs = e.writes start pairs := by
  simp only [Entry.writes, Entry.ownWrites, Entry.errorWrites, line, h.detailed, h.directory,
    h.opens]

/-- The sinks of the logger that a pair was given take what the entry comes to. -/
theorem delivered_record (m : Manager) (pairs : List Pair) (e : Entry) :
    m.delivered e.stamp e.record (m.sinks ((keeper pairs e.pair).made m)) = e.writes m pairs := by
  simp only [delivered, sinks, Pair.made_file, Entry.writes, Entry.ownWrites, Entry.errorWrites]
  cases hown : m.opens ((keeper pairs e.pair).file m.directory) <;>
    cases herror : e.level.reaches .error && m.opens (errorFile m.directory) <;>
    simp [accepts, lineFor, hown, herror, Entry.record]

theorem logger_of_some {l : Logger} {p : Pair} (h : m.loggers.lookup p.key = some l) :
    m.logger p.name p.component = (l, m) := by
  rw [Pair.key] at h
  simp only [logger, h]

theorem logger_of_none {p : Pair} (h : m.loggers.lookup p.key = none) :
    m.logger p.name p.component =
      (p.made m, { m with loggers := m.loggers ++ [(p.key, p.made m)] }) := by
  rw [Pair.key] at h
  simp only [logger, h]
  rfl

end Manager

/-- What a session has come to when some pairs were asked for. -/
structure Session.Holds (s : Session) (start : Manager) (pairs : List Pair) : Prop where
  alike : s.manager.Alike start
  given : s.given = pairs.map fun p => (keeper pairs p).made start
  loggers : ∀ key, s.manager.loggers.lookup key = (firstWith pairs key).map (·.made start)

namespace Session

variable {s : Session} {start : Manager} {pairs : List Pair}

theorem Holds.fresh (start : Manager) (h : start.loggers = []) : Holds ⟨start, []⟩ start [] := by
  refine ⟨⟨rfl, rfl, rfl⟩, rfl, fun key => ?_⟩
  rw [h]
  rfl

theorem given_append (h : s.Holds start pairs) (p : Pair) :
    s.given ++ [(keeper pairs p).made start] =
      (pairs ++ [p]).map fun q => (keeper (pairs ++ [p]) q).made start := by
  rw [h.given, List.map_append, List.map_singleton, keeper_append_self]
  congr 1
  exact List.map_congr_left fun q hq => by rw [keeper_append hq]

/-- A pair with a known key is given the logger that was made for the first pair with it. -/
theorem take_ask (h : s.Holds start pairs) (p : Pair) :
    (s.take (.ask p)).Holds start (pairs ++ [p]) ∧
      (s.take (.ask p)).manager.writes = s.manager.writes := by
  have hloggers := h.loggers p.key
  have hgiven := given_append h p
  rw [keeper] at hgiven
  cases hfirst : firstWith pairs p.key with
  | some q =>
    rw [hfirst] at hloggers hgiven
    have htake : s.take (.ask p) = ⟨s.manager, s.given ++ [q.made start]⟩ := by
      rw [take, Manager.logger_of_some hloggers]
    rw [htake]
    refine ⟨⟨h.alike, hgiven, fun key => ?_⟩, rfl⟩
    rw [h.loggers, firstWith_append, firstWith_singleton]
    by_cases hkey : p.key = key
    · rw [← hkey, hfirst, Option.some_or]
    · rw [if_neg hkey, Option.or_none]
  | none =>
    rw [hfirst] at hloggers hgiven
    have htake : s.take (.ask p) = ⟨{ s.manager with
        loggers := s.manager.loggers ++ [(p.key, p.made start)] }, s.given ++ [p.made start]⟩ := by
      rw [take, Manager.logger_of_none hloggers, h.alike.made_eq]
    rw [htake]
    refine ⟨⟨⟨h.alike.detailed, h.alike.directory, h.alike.opens⟩, hgiven, fun key => ?_⟩, rfl⟩
    rw [List.lookup_append, h.loggers, firstWith_append, firstWith_singleton, Option.map_or,
      List.lookup_cons]
    by_cases hkey : p.key = key
    · rw [if_pos hkey, hkey, beq_self_eq_true]
      rfl
    · rw [if_neg hkey, beq_false_of_ne (Ne.symm hkey)]
      rfl

theorem take_log (h : s.Holds start pairs) (i : Nat) (stamp : Stamp) (level : Level)
    (message : String) (context : Value) :
    s.take (.log i stamp level message context) = { s with manager := { s.manager with
      writes := s.manager.writes ++
        (Call.written? start.level pairs (.log i stamp level message context)).toList.flatMap
          (·.writes start pairs) } } := by
  have hgiven : s.given[i]? = pairs[i]?.map fun p => (keeper pairs p).made start := by
    rw [h.given, List.getElem?_map]
  rw [take, Call.written?, hgiven]
  cases pairs[i]? with
  | none => simp
  | some p =>
    cases htext : withContext message context with
    | error e => simp [Manager.write_of_error htext]
    | ok text =>
      simp only [Option.map_some, Manager.write_of_ok htext, Pair.made_level, Pair.made_name]
      by_cases hreaches : level.reaches start.level = true
      · have hwrites := Manager.delivered_record s.manager pairs ⟨p, stamp, level, text⟩
        rw [h.alike.writes_eq, h.alike.made_eq, Entry.record, ← key_keeper pairs] at hwrites
        simp only [hreaches, if_true, Option.toList_some, List.flatMap_singleton]
        rw [← hwrites]
      · simp [hreaches]

theorem take_holds (h : s.Holds start pairs) (call : Call) :
    (s.take call).Holds start (pairs ++ call.pair?.toList) ∧
      (s.take call).manager.writes = s.manager.writes ++
        (call.written? start.level pairs).toList.flatMap (·.writes start pairs) := by
  cases call with
  | ask p =>
    obtain ⟨hholds, hwrites⟩ := take_ask h p
    exact ⟨hholds, hwrites.trans (List.append_nil _).symm⟩
  | log i stamp level message context =>
    rw [take_log h]
    refine ⟨?_, rfl⟩
    rw [Call.pair?, Option.toList_none, List.append_nil]
    exact ⟨⟨h.alike.detailed, h.alike.directory, h.alike.opens⟩, h.given, h.loggers⟩

theorem timesTo_eq (h : s.Holds start pairs) {call : Call} {e : Entry}
    (hentry : call.written? start.level pairs = some e) (file : Place) :
    s.timesTo call file = e.timesIn start pairs file := by
  obtain ⟨-, hwrites⟩ := take_holds h call
  rw [timesTo, hwrites, List.drop_left, hentry, Option.toList_some, List.flatMap_singleton,
    Entry.timesIn]

theorem Holds.after_holds (h : s.Holds start pairs) (calls : List Call) :
    (s.after calls).Holds start (pairs ++ asked calls) ∧
      (s.after calls).manager.writes = s.manager.writes ++
        (entries start.level pairs calls).flatMap (·.writes start (pairs ++ asked calls)) := by
  induction calls generalizing s pairs with
  | nil =>
    rw [asked, List.filterMap_nil, List.append_nil]
    exact ⟨h, (List.append_nil _).symm⟩
  | cons call rest ih =>
    obtain ⟨htake, hwrites⟩ := take_holds h call
    obtain ⟨hafter, hrest⟩ := ih htake
    rw [asked_cons, ← List.append_assoc]
    refine ⟨hafter, hrest.trans ?_⟩
    have hentry : (call.written? start.level pairs).toList.flatMap
          (·.writes start (pairs ++ call.pair?.toList ++ asked rest)) =
        (call.written? start.level pairs).toList.flatMap (·.writes start pairs) := by
      refine List.flatMap_congr fun e he => ?_
      have hpair := pair_mem_of_written (Option.mem_toList.1 he)
      rw [Entry.writes, List.append_assoc, keeper_append hpair, Entry.writes]
    rw [hwrites, entries, List.flatMap_append, hentry, List.append_assoc]

end Session

/-! ## How often a record is written -/

theorem Entry.timesIn_eq (m : Manager) (pairs : List Pair) (e : Entry) (file : Place) :
    e.timesIn m pairs file =
      (if m.opens ((keeper pairs e.pair).file m.directory) = true ∧
        (keeper pairs e.pair).file m.directory = file then 1 else 0) +
      if e.level.reaches .error = true ∧ m.opens (errorFile m.directory) = true ∧
        errorFile m.directory = file then 1 else 0 := by
  rw [timesIn, writes, List.countP_append, ownWrites, errorWrites]
  congr 1
  · cases m.opens ((keeper pairs e.pair).file m.directory) <;> simp
  · cases e.level.reaches .error <;> cases m.opens (errorFile m.directory) <;> simp

/-- An entry whose logger has the file of its pair comes to the two files once each. -/
theorem Entry.once_iff {m : Manager} {pairs : List Pair} {e : Entry}
    (hfile : (keeper pairs e.pair).file m.directory = e.pair.file m.directory) :
    (e.timesIn m pairs (e.pair.file m.directory) = 1 ∧ (e.level.reaches .error = true →
        e.timesIn m pairs (errorFile m.directory) = 1)) ↔
      m.opens (e.pair.file m.directory) = true ∧ (e.level.reaches .error = true →
        m.opens (errorFile m.directory) = true ∧
          e.pair.file m.directory ≠ errorFile m.directory) := by
  rw [timesIn_eq, timesIn_eq, hfile]
  by_cases herror : e.level.reaches .error = true
  · by_cases hsame : e.pair.file m.directory = errorFile m.directory
    · rw [hsame]
      cases m.opens (errorFile m.directory) <;> simp [herror]
    · cases m.opens (e.pair.file m.directory) <;> cases m.opens (errorFile m.directory) <;>
        simp [herror, hsame, Ne.symm hsame]
  · cases m.opens (e.pair.file m.directory) <;> simp [herror]

/-! ## Whether records reach their files -/

/-- The first pair with a key has the file of every pair with it exactly if they all have one. -/
theorem keepers_iff {pairs : List Pair} {directory : Place} :
    (∀ p ∈ pairs, (keeper pairs p).file directory = p.file directory) ↔
      ∀ p ∈ pairs, ∀ q ∈ pairs, p.key = q.key → p.file directory = q.file directory := by
  constructor
  · intro h p hp q hq hkey
    rw [← h p hp, ← h q hq, keeper_eq_of_key_eq hp hkey]
  · intro h p hp
    exact h _ (keeper_mem hp) p hp (key_keeper pairs p)

theorem GivenBy.pair_mem {bar : Level} {calls before : List Call} {call : Call} {e : Entry}
    (h : GivenBy bar calls before call e) : e.pair ∈ asked calls := by
  obtain ⟨rest, rfl⟩ := h.among
  rw [asked_append, asked_append]
  exact List.mem_append_left _ (List.mem_append_left _ (pair_mem_of_written h.entry))

/-- Later calls do not change which pair a logger was made for. -/
theorem GivenBy.keeper_eq {bar : Level} {calls before : List Call} {call : Call} {e : Entry}
    (h : GivenBy bar calls before call e) :
    keeper (asked calls) e.pair = keeper (asked before) e.pair := by
  obtain ⟨rest, rfl⟩ := h.among
  rw [List.append_assoc, asked_append, keeper_append (pair_mem_of_written h.entry)]

theorem Session.holds_after {m : Manager} (hloggers : m.loggers = []) (calls : List Call) :
    ((Session.mk m []).after calls).Holds m (asked calls) :=
  ((Holds.fresh m hloggers).after_holds calls).1

/-- The call for a record whose logger has the file of its pair writes once to each of the two
files. -/
theorem GivenBy.once_iff {m : Manager} (hloggers : m.loggers = []) {calls before : List Call}
    {call : Call} {e : Entry} (h : GivenBy m.level calls before call e)
    (hfile : (keeper (asked calls) e.pair).file m.directory = e.pair.file m.directory) :
    (((Session.mk m []).after before).timesTo call (e.pair.file m.directory) = 1 ∧
      (e.level.reaches .error = true →
        ((Session.mk m []).after before).timesTo call (errorFile m.directory) = 1)) ↔
      m.opens (e.pair.file m.directory) = true ∧ (e.level.reaches .error = true →
        m.opens (errorFile m.directory) = true ∧
          e.pair.file m.directory ≠ errorFile m.directory) := by
  have hholds := Session.holds_after hloggers before
  rw [h.keeper_eq] at hfile
  rw [Session.timesTo_eq hholds h.entry, Session.timesTo_eq hholds h.entry]
  exact Entry.once_iff hfile

theorem faithful_iff {m : Manager} (hloggers : m.loggers = []) (calls : List Call) :
    Faithful m calls ↔
      (∀ p ∈ asked calls, ∀ q ∈ asked calls,
        p.key = q.key → p.file m.directory = q.file m.directory) ∧
      (∀ p ∈ asked calls, (p.file m.directory).dropLast = p.home m.directory) ∧
      ∀ e ∈ entries m.level [] calls, m.opens (e.pair.file m.directory) = true ∧
        (e.level.reaches .error = true → m.opens (errorFile m.directory) = true ∧
          e.pair.file m.directory ≠ errorFile m.directory) := by
  have hfiles : ((Session.mk m []).after calls).given.map (·.file) =
        (asked calls).map (·.file m.directory) ↔
      ∀ p ∈ asked calls, (keeper (asked calls) p).file m.directory = p.file m.directory := by
    simp only [(Session.holds_after hloggers calls).given, List.map_map, List.map_inj_left,
      Function.comp_apply, Pair.made_file]
  rw [← keepers_iff]
  constructor
  · intro h
    have hkeepers := hfiles.1 h.files
    refine ⟨hkeepers, h.homes, fun e he => ?_⟩
    obtain ⟨before, call, hgiven⟩ := mem_entries_nil_iff.1 he
    exact (hgiven.once_iff hloggers (hkeepers _ hgiven.pair_mem)).1
      ⟨h.own _ _ _ hgiven, h.errors _ _ _ hgiven⟩
  · rintro ⟨hkeepers, hhomes, hentries⟩
    have honce {before call e} (h : GivenBy m.level calls before call e) :=
      (h.once_iff hloggers (hkeepers _ h.pair_mem)).2
        (hentries e (mem_entries_nil_iff.2 ⟨before, call, h⟩))
    exact ⟨hfiles.2 hkeepers, hhomes, fun _ _ _ h => (honce h).1, fun _ _ _ h => (honce h).2⟩

variable {setting : Option String} {directory : Place} {opens : Place → Bool} {calls : List Call}

/-- What becomes of any calls of a manager: the loggers that it gives, the texts that it writes, the
directories of its files, and when every record reaches its files once. -/
theorem Manager.calls_faithful_iff (setting : Option String) (directory : Place)
    (opens : Place → Bool) (calls : List Call) :
    let m := fresh setting directory opens
    let s := (Session.mk m []).after calls
    s.given = (asked calls).map (fun p => (keeper (asked calls) p).made m) ∧
    s.manager.writes = (entries m.level [] calls).flatMap (·.writes m (asked calls)) ∧
    (∀ p ∈ asked calls, '/' ∉ p.name.toList →
      p.file directory = p.home directory ++ [Text.lowercase p.name ++ ".log"]) ∧
    (Faithful m calls ↔
      (∀ p ∈ asked calls, ∀ q ∈ asked calls,
        p.key = q.key → p.file directory = q.file directory) ∧
      (∀ p ∈ asked calls, (p.file directory).dropLast = p.home directory) ∧
      ∀ e ∈ entries m.level [] calls, opens (e.pair.file directory) = true ∧
        (e.level.reaches .error = true →
          opens (errorFile directory) = true ∧ e.pair.file directory ≠ errorFile directory)) := by
  intro m s
  obtain ⟨hholds, hwrites⟩ := (Session.Holds.fresh m rfl).after_holds calls
  exact ⟨hholds.given, hwrites, fun p _ hslash => loggerFile_of_notMem directory hslash p.component,
    faithful_iff rfl calls⟩

/-- Two loggers are asked for by pairs with one key, and a record is written with the second. -/
def sharing : List Call :=
  [.ask ⟨"A", some "query"⟩, .ask ⟨"query.A", none⟩,
    .log 1 ⟨"noon", "shop"⟩ .info "hello" .null]

def overLogs : Manager := .fresh none ["logs"] fun _ => true

/-- The record goes to the file of the first pair. -/
theorem not_faithful_sharing :
    let m := ((Session.mk overLogs []).after sharing).manager
    m.content ["logs", "query.a.log"] = "" ∧
    m.content ["logs", "query", "a.log"] = "noon - mongolayer.query.A - INFO - hello\n" ∧
    ¬ Faithful overLogs sharing := by
  refine ⟨by decide +kernel, by decide +kernel, fun h => ?_⟩
  exact absurd h.files (by decide +kernel)

/-- Names without slashes and points keep the promise where the files can be opened and no logger
has the file of errors for its own. -/
theorem faithful_of_plain
    (hplain : ∀ p ∈ asked calls, '/' ∉ p.name.toList ∧ '.' ∉ p.name.toList)
    (hopens : ∀ p ∈ asked calls, opens (p.file directory) = true)
    (herror : opens (errorFile directory) = true)
    (hown : ∀ p ∈ asked calls, p.file directory ≠ errorFile directory) :
    Faithful (.fresh setting directory opens) calls := by
  refine (faithful_iff rfl calls).2 ⟨fun p hp q hq hkey => ?_, fun p hp => ?_, fun e he => ?_⟩
  · exact loggerFile_eq_of_key_eq _ (hplain p hp).2 (hplain q hq).2 hkey
  · rw [Pair.file, loggerFile_of_notMem _ (hplain p hp).1, List.dropLast_concat]
    rfl
  · obtain ⟨before, call, hgiven⟩ := mem_entries_nil_iff.1 he
    exact ⟨hopens _ hgiven.pair_mem, fun _ => ⟨herror, hown _ hgiven.pair_mem⟩⟩

end DocumentMapper.Log

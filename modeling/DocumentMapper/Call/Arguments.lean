import DocumentMapper.Error

/-!
# Arguments of named calls

A call gives some arguments by position and some by name. Parameters take them in order: each one
takes the next argument by position, else the one with its name, else its default. A call fits
when every parameter without a default gets an argument, none gets two, and none is left over.
-/

namespace DocumentMapper

structure Arguments (α : Type) where
  callee : String
  positional : List α
  named : List (String × α)

/-- Reads parameters off the arguments of a call. -/
abbrev Parameters (α : Type) := StateT (Arguments α) (Except Error)

namespace Parameters

variable {α β : Type}

/-- The error of a call that does not fit. -/
def misfit (args : Arguments α) : Error :=
  .misuse (.arguments args.callee)

/-- The argument of a parameter, if the call gives one. -/
def optional? (name : String) : Parameters α (Option α) := do
  let args ← get
  let byName := args.named.lookup name
  match args.positional with
  | v :: rest =>
    if byName.isSome then throw (misfit args)
    set { args with positional := rest }
    return some v
  | [] =>
    set { args with named := args.named.filter (·.1 != name) }
    return byName

def optional (name : String) (fallback : α) : Parameters α α := do
  return (← optional? name).getD fallback

def required (name : String) : Parameters α α := do
  match ← optional? name with
  | some v => return v
  | none => throw (misfit (← get))

/-- All arguments by position that are left. -/
def others : Parameters α (List α) := do
  let args ← get
  set { args with positional := [] }
  return args.positional

/-- What the parameters make of the arguments of a call, provided that it fits. -/
def read (parameters : Parameters α β) (args : Arguments α) : Except Error β := do
  let (result, rest) ← parameters.run args
  if rest.positional.isEmpty && rest.named.isEmpty then .ok result else .error (misfit args)

end Parameters

end DocumentMapper

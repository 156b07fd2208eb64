import DocumentMapper.Document
import DocumentMapper.Value.Number
import DocumentMapper.Yaml

/-!
# Configuration of a connection

A configuration says where the database is and how many documents a page has. It comes from
environment variables or from a settings file. Variables that are set to a text win over the
file; a variable that is set to the empty text counts as set only when there is no file.
-/

namespace DocumentMapper

/-- The variables that are set, with their texts. -/
abbrev Environment := List (String × String)

structure Config where
  uri : Value
  database : Value
  perPage : Int
  appName : Option Value
  deriving Inhabited

namespace Config

def defaultUri : String := "mongodb://localhost:27017"

def defaultDatabase : String := "mongolayer"

def defaultPerPage : Int := 15

/-- The configuration as a dictionary, the name of the application only if there is one. -/
def toDocument (c : Config) : Document :=
  [(.text "uri", c.uri), (.text "database", c.database), (.text "per_page", .int c.perPage)] ++
    (c.appName.map fun name => (.text "app_name", name)).toList

/-- A page has at least one document. -/
def pageSize (v : Value) : Except Error Int := do
  let n ← v.toInteger.mapError fun e => if e.refusesValue then .perPageNotInteger v else e
  if n < 1 then .error (.perPageNotPositive n) else .ok n

/-- A value that counts as present. -/
def given (v : Value) : Option Value :=
  if v.isTruthy then some v else none

/-- The text of a variable as a value. -/
def textOf? (env : Environment) (name : String) : Option Value :=
  (env.lookup name).map .text

/-- The configuration that the variables give. -/
def ofEnvironment (env : Environment) : Except Error Config := do
  let perPage ← pageSize ((textOf? env "MONGOLAYER_PER_PAGE").getD (.int defaultPerPage))
  .ok {
    uri := (textOf? env "MONGOLAYER_URI").getD (.text defaultUri)
    database := (textOf? env "MONGOLAYER_DATABASE").getD (.text defaultDatabase)
    perPage := perPage
    appName := (textOf? env "MONGOLAYER_APP_NAME").bind given }

/-- The configuration that the entries of a file give together with the variables. -/
def ofEntries (env : Environment) (entries : Document) : Except Error Config := do
  let setting (name key : String) (fallback : Value) : Value :=
    ((textOf? env name).bind given).getD ((entries.field? key).getD fallback)
  let perPage ← pageSize (setting "MONGOLAYER_PER_PAGE" "per_page" (.int defaultPerPage))
  .ok {
    uri := setting "MONGOLAYER_URI" "uri" (.text defaultUri)
    database := setting "MONGOLAYER_DATABASE" "database" (.text defaultDatabase)
    perPage := perPage
    appName := given (setting "MONGOLAYER_APP_NAME" "app_name" .null) }

/-- The configuration of a settings file. A file that holds nothing is a file without entries. -/
def ofYaml (env : Environment) (path content : String) : Except Error Config :=
  match Yaml.read content with
  | .dict entries => ofEntries env entries
  | v => if v.isTruthy then .error (.notAMapping path) else ofEntries env []

/-- The configuration of a server on this machine. -/
def forLocal (database port : Value) : Config :=
  ⟨.text ("mongodb://localhost:" ++ port.display), database, defaultPerPage, none⟩

end Config

end DocumentMapper

import DocumentMapper.Config
import DocumentMapper.Proofs.Outcome

/-!
# Two ways to a configuration

With a settings file that holds nothing, all that a configuration says comes from the variables, as
it does without a file. The two ways differ in variables that are set to the empty text: without a
file the empty text is the value, with a file such a variable counts as one that is not set. The
name of the application is missing either way. So the two agree exactly if neither the address nor
the name of the database nor the page size is given by the empty text, or if the page size cannot
be used for another reason, which is all that either way ever fails for.
-/

namespace DocumentMapper.Config

variable {env env' : Environment} {name path : String} {v : Value} {e : Error}

/-- Whether two ways to a configuration come to the same dictionary or fail with the same
message. -/
def Agree : Except Error Config → Except Error Config → Prop
  | .ok c, .ok c' => c.toDocument = c'.toDocument
  | .error e, .error e' => e.message = e'.message
  | _, _ => False

/-- Whether a variable is not set, or set to something. -/
def Filled (env : Environment) (name : String) : Prop :=
  env.lookup name ≠ some ""

/-- Whether an error says that a page size cannot be used. -/
def OfPageSize (e : Error) : Prop :=
  (∃ v, e = .perPageNotInteger v) ∨ ∃ n, e = .perPageNotPositive n

/-! ## Variables -/

/-- The value of a variable that is set to something. -/
def filled? (env : Environment) (name : String) : Option Value :=
  (textOf? env name).bind given

theorem filled?_eq (env : Environment) (name : String) :
    filled? env name = (textOf? env name).bind given := rfl

theorem given_text (s : String) : given (.text s) = if s = "" then none else some (.text s) := by
  by_cases h : s = "" <;> simp [given, Value.isTruthy, h]

theorem filled?_of_filled (h : Filled env name) : filled? env name = textOf? env name := by
  unfold filled? textOf?
  cases hs : env.lookup name with
  | none => rfl
  | some s =>
    have hne : s ≠ "" := fun he => h (by rw [hs, he])
    simp [given_text, hne]

theorem textOf?_of_not_filled (h : ¬ Filled env name) : textOf? env name = some (.text "") := by
  rw [textOf?, Classical.not_not.1 h]
  rfl

theorem filled?_of_not_filled (h : ¬ Filled env name) : filled? env name = none := by
  rw [filled?, textOf?_of_not_filled h]
  rfl

/-- What counts as present passes the test a second time. -/
theorem filled?_bind_given (env : Environment) (name : String) :
    (filled? env name).bind given = filled? env name := by
  by_cases h : Filled env name
  · rw [filled?_of_filled h]
    exact filled?_of_filled h
  · rw [filled?_of_not_filled h]
    rfl

theorem filled?_of_lookup
    (h : env'.lookup name = (env.lookup name).filter fun s => s != "") :
    filled? env name = textOf? env' name := by
  unfold filled? textOf?
  rw [h]
  cases env.lookup name with
  | none => rfl
  | some s => by_cases hs : s = "" <;> simp [given_text, hs, Option.filter]

/-! ## Settings -/

/-- The configuration of settings that are found under the names of variables. -/
def ofSettings (setting : String → Option Value) : Except Error Config := do
  let perPage ← pageSize ((setting "MONGOLAYER_PER_PAGE").getD (.int defaultPerPage))
  .ok {
    uri := (setting "MONGOLAYER_URI").getD (.text defaultUri)
    database := (setting "MONGOLAYER_DATABASE").getD (.text defaultDatabase)
    perPage := perPage
    appName := (setting "MONGOLAYER_APP_NAME").bind given }

theorem ofEnvironment_eq (env : Environment) : ofEnvironment env = ofSettings (textOf? env) := rfl

theorem ofYaml_empty_eq (env : Environment) (path : String) :
    ofYaml env path "" = ofSettings (filled? env) := by
  have happ : given ((filled? env "MONGOLAYER_APP_NAME").getD .null) =
      (filled? env "MONGOLAYER_APP_NAME").bind given := by
    cases filled? env "MONGOLAYER_APP_NAME" <;> rfl
  rw [ofSettings, ← happ]
  rfl

/-- Settings for all of which the same is found give the same configuration. -/
theorem ofSettings_congr {f g : String → Option Value} (h : ∀ name, f name = g name) :
    ofSettings f = ofSettings g := by
  rw [funext h]

/-- The page size that is found under the name of its variable, the usual one if there is none. -/
def pageSetting (setting : String → Option Value) : Value :=
  (setting "MONGOLAYER_PER_PAGE").getD (.int defaultPerPage)

theorem ofSettings_eq_error (setting : String → Option Value) :
    ofSettings setting = .error e ↔ pageSize (pageSetting setting) = .error e := by
  refine Outcome.bind_eq_error.trans (or_iff_left ?_)
  rintro ⟨n, -, ⟨⟩⟩

theorem ofSettings_of_pageSize {setting : String → Option Value} {n : Int}
    (h : pageSize (pageSetting setting) = .ok n) :
    ofSettings setting = .ok {
      uri := (setting "MONGOLAYER_URI").getD (.text defaultUri)
      database := (setting "MONGOLAYER_DATABASE").getD (.text defaultDatabase)
      perPage := n
      appName := (setting "MONGOLAYER_APP_NAME").bind given } := by
  unfold pageSetting at h
  rw [ofSettings, h]
  rfl

theorem toInteger_text_eq_error {s : String} (h : Value.toInteger (.text s) = .error e) :
    ∃ fault, e = .notAnInteger s fault := by
  unfold Value.toInteger at h
  cases hs : Number.readInteger s with
  | ok n =>
    simp only [hs] at h
    cases h
  | error fault =>
    simp only [hs] at h
    exact ⟨fault, (Except.error.inj h).symm⟩

theorem ofPageSize_of_text {s : String} (h : pageSize (.text s) = .error e) : OfPageSize e := by
  obtain hread | ⟨n, -, hsmall⟩ := Outcome.bind_eq_error.1 h
  · obtain ⟨fault, hfault, rfl⟩ := Outcome.mapError_eq_error.1 hread
    obtain ⟨cause, rfl⟩ := toInteger_text_eq_error hfault
    exact .inl ⟨.text s, rfl⟩
  · split at hsmall
    · exact .inr ⟨n, (Except.error.inj hsmall).symm⟩
    · cases hsmall

theorem ofPageSize_of_ofSettings {setting : String → Option Value}
    (htext : ∀ v, setting "MONGOLAYER_PER_PAGE" = some v → v.isText = true)
    (h : ofSettings setting = .error e) : OfPageSize e := by
  rw [ofSettings_eq_error, pageSetting] at h
  cases hv : setting "MONGOLAYER_PER_PAGE" with
  | none =>
    rw [hv] at h
    cases h
  | some v =>
    rw [hv] at h
    cases v with
    | text s => exact ofPageSize_of_text h
    | _ => cases htext _ hv

/-! ## The two ways -/

theorem toDocument_eq_iff {u u' d d' : Value} {n : Int} {app : Option Value} :
    toDocument ⟨u, d, n, app⟩ = toDocument ⟨u', d', n, app⟩ ↔ u = u' ∧ d = d' := by
  simp [toDocument]

theorem isText_of_textOf? (h : textOf? env name = some v) : v.isText = true := by
  obtain ⟨s, -, rfl⟩ := Option.map_eq_some_iff.1 h
  rfl

theorem isText_of_filled? (h : filled? env name = some v) : v.isText = true := by
  by_cases hfilled : Filled env name
  · rw [filled?_of_filled hfilled] at h
    exact isText_of_textOf? h
  · rw [filled?_of_not_filled hfilled] at h
    cases h

/-- A text with a name for its fallback is the fallback exactly if it is not empty. -/
theorem getD_filled?_eq_iff {fallback : String} (h : fallback ≠ "") :
    (filled? env name).getD (.text fallback) = (textOf? env name).getD (.text fallback) ↔
      Filled env name := by
  by_cases hfilled : Filled env name
  · rw [filled?_of_filled hfilled]
    exact iff_of_true rfl hfilled
  · rw [filled?_of_not_filled hfilled, textOf?_of_not_filled hfilled]
    exact iff_of_false (fun he => h (Value.text.inj he)) hfilled

theorem pageSetting_of_filled (h : Filled env "MONGOLAYER_PER_PAGE") :
    pageSetting (filled? env) = pageSetting (textOf? env) := by
  rw [pageSetting, filled?_of_filled h]
  rfl

theorem pageSize_filled?_of_not_filled (h : ¬ Filled env "MONGOLAYER_PER_PAGE") :
    pageSize (pageSetting (filled? env)) = .ok defaultPerPage := by
  rw [pageSetting, filled?_of_not_filled h]
  rfl

theorem pageSize_textOf?_of_not_filled (h : ¬ Filled env "MONGOLAYER_PER_PAGE") :
    pageSize (pageSetting (textOf? env)) = .error (.perPageNotInteger (.text "")) := by
  rw [pageSetting, textOf?_of_not_filled h]
  rfl

/-- The way by a file that holds nothing agrees with the way without a file exactly if the page size
is not given by the empty text, and neither is the address nor the name of the database, unless the
page size cannot be used. By a file that holds nothing a variable set to the empty text is one that
is not set. Both ways fail for nothing but the page size. -/
theorem ofYaml_agrees_iff (env : Environment) (path : String) :
    (Agree (ofYaml env path "") (ofEnvironment env) ↔
      Filled env "MONGOLAYER_PER_PAGE" ∧
        (Filled env "MONGOLAYER_URI" ∧ Filled env "MONGOLAYER_DATABASE" ∨
          ∃ e, pageSize (pageSetting (textOf? env)) = .error e)) ∧
    (∀ env' : Environment,
      (∀ name, env'.lookup name = (env.lookup name).filter fun s => s != "") →
        ofYaml env path "" = ofEnvironment env') ∧
    ∀ e, ofYaml env path "" = .error e ∨ ofEnvironment env = .error e → OfPageSize e := by
  rw [ofYaml_empty_eq, ofEnvironment_eq]
  refine ⟨?_, fun env' henv' => ?_, ?_⟩
  · by_cases hpage : Filled env "MONGOLAYER_PER_PAGE"
    · have hsame := pageSetting_of_filled hpage
      rw [and_iff_right hpage]
      cases hsize : pageSize (pageSetting (textOf? env)) with
      | error e =>
        rw [(ofSettings_eq_error _).2 hsize, (ofSettings_eq_error _).2 (hsame ▸ hsize)]
        exact iff_of_true rfl (.inr ⟨e, rfl⟩)
      | ok n =>
        rw [ofSettings_of_pageSize hsize, ofSettings_of_pageSize (hsame ▸ hsize),
          filled?_bind_given, ← filled?_eq env "MONGOLAYER_APP_NAME", Agree, toDocument_eq_iff,
          getD_filled?_eq_iff (by decide), getD_filled?_eq_iff (by decide)]
        exact (or_iff_left fun ⟨_, he⟩ => nomatch he).symm
    · -- An empty page size is the usual one on the way by the file and an error on the other.
      rw [ofSettings_of_pageSize (pageSize_filled?_of_not_filled hpage),
        (ofSettings_eq_error _).2 (pageSize_textOf?_of_not_filled hpage)]
      exact iff_of_false not_false fun h => hpage h.1
  · exact ofSettings_congr fun name => filled?_of_lookup (henv' name)
  · rintro e (h | h)
    · exact ofPageSize_of_ofSettings (fun v hv => isText_of_filled? hv) h
    · exact ofPageSize_of_ofSettings (fun v hv => isText_of_textOf? hv) h

/-- A page size that is given by the empty text is the usual one with a file that holds nothing and
one that cannot be used without a file. -/
theorem not_agree_empty_perPage :
    ¬ ∀ (env : Environment) (path : String), Agree (ofYaml env path "") (ofEnvironment env) :=
  fun hagree => hagree [("MONGOLAYER_PER_PAGE", "")] "settings.yaml"

end DocumentMapper.Config

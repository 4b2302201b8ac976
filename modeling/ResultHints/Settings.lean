import ResultHints.Hint.Collect
import ResultHints.Toml.Reader

/-!
# Settings

Whether hints are shown, and how much of a document is analyzed for them, as told
by a TOML text. Settings under which no analysis would find a result are refused.

* `Settings.ofToml`, `Settings.ofFile`: the settings that a text or a file tells;
* `analyzeSource`: the hints of a source text under some settings.
-/

namespace ResultHints

/-- Whether hints are shown, and what the analyses for them look at. -/
structure Settings where
  enabled : Bool := true
  mode : ResolveMode := .enclosing
  deriving DecidableEq

/-- Why settings cannot be used: there is no such file, the text is no TOML or has
    values of a wrong kind, or analyses would find nothing. A text may be that of
    a file. -/
inductive SettingsError
  | unreadable (file : String)
  | malformed (file : Option String)
  | withoutFlow
  deriving DecidableEq

/-- The text shown for an error of settings. -/
def SettingsError.message : SettingsError → String
  | unreadable file => "Failed to read config file: " ++ file
  | malformed (some file) => "Failed to parse config file: " ++ file
  | malformed none => "Failed to parse hint configuration"
  | withoutFlow => "resolve_mode must include control flow analysis, got partial"

/-- The name of a mode in settings. -/
def ResolveMode.name : ResolveMode → String
  | declarations => "partial"
  | enclosing => "partial_with_cfa"
  | everything => "full"

/-- The mode with the given name. -/
def ResolveMode.ofName? (name : String) : Option ResolveMode :=
  [declarations, enclosing, everything].find? fun mode => mode.name == name

/-- The mode that a value tells: by its name, or by a table with its name as the
    one key and nothing under it. -/
def ResolveMode.ofToml? : Toml.Value → Option ResolveMode
  | .string name => ofName? name
  | .table _ [(name, .table _ [])] | .table _ [(name, .array [])] => ofName? name
  | _ => none

namespace Settings

/-- The settings that the entries of a TOML text tell. What is not told is as by
    default, and other entries mean nothing. -/
def ofEntries? (es : Toml.Entries) : Option Settings := do
  let enabled ← match es.lookup "enabled" with
    | none => some true
    | some (.boolean b) => some b
    | some _ => none
  let mode ← match es.lookup "resolve_mode" with
    | none => some .enclosing
    | some v => ResolveMode.ofToml? v
  return ⟨enabled, mode⟩

/-- Settings under which analyses find results. -/
def validate (s : Settings) : Except SettingsError Settings :=
  if s.mode.includesFlow then .ok s else .error .withoutFlow

/-- The settings that a text tells, which may be that of a file. -/
def ofText (file : Option String) (text : List Char) : Except SettingsError Settings :=
  match Toml.read? text >>= ofEntries? with
  | none => .error (.malformed file)
  | some s => s.validate

/-- The settings that a text tells. -/
def ofToml (text : List Char) : Except SettingsError Settings := ofText none text

/-- The settings that a file tells, given its name and its text if it exists. -/
def ofFile (file : String) : (text : Option (List Char)) → Except SettingsError Settings
  | none => .error (.unreadable file)
  | some text => ofText (some file) text

end Settings

/-- Why there are no hints of a source text: it has a fault, or the settings cannot
    be used. -/
inductive HintError
  | source (fault : Fault)
  | settings (error : SettingsError)
  deriving DecidableEq

/-- The text shown when there are no hints. -/
def HintError.message : HintError → String
  | source fault => "Parse error: " ++ fault.message
  | settings error => "Invalid configuration: " ++ error.message

/-- The hints of a source text, from the nodes that overlap the range if there is
    one. If hints are not shown, the text is not read. -/
def analyzeSource (settings : Settings) (range : Option Span) (source : List Char) :
    Except HintError (List Hint) :=
  if !settings.enabled then .ok []
  else do
    let s ← settings.validate.mapError .settings
    let d ← (Document.parse source).mapError .source
    return d.hints s.mode range

end ResultHints

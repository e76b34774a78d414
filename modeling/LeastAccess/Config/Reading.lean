import LeastAccess.Config.Format
import LeastAccess.Json.View

/-!
# Reading a configuration

`Config.parse` checks a document against the format and takes the configuration from what the check made of
it, where every default is filled in.

Main statements: `validate_empty` and `parse_empty` (the format's defaults are those of `Config`).
-/

namespace LeastAccess

/-- Why there is no configuration. -/
inductive ConfigFault where
  | notFound
  | notJson
  | malformed (issues : List Issue)
  deriving DecidableEq

namespace ConfigFault

def code : ConfigFault → ErrorCode
  | .notFound => .configNotFound
  | _ => .configInvalid

def message : ConfigFault → String
  | .notFound => "Configuration file not found"
  | .notJson => "Configuration file is not valid JSON"
  | .malformed _ => "Invalid configuration"

def issues? : ConfigFault → Option (List String)
  | .malformed issues => some (issues.map (·.text))
  | _ => none

/-- The failure a user sees; the source may be unknown. -/
def toFailure (e : ConfigFault) (source : Option String) : Failure :=
  { kind := .configuration
    code := e.code
    message := e.message
    context := some (Failure.contextOf "source" source e.issues?) }

end ConfigFault

namespace Options

def ofDocument (v : Json) : Options where
  packageForTopLevelTypes := v.flagAt "suggestPackageLocalForTopLevelTypes"
  packageForMembers := v.flagAt "suggestPackageLocalForMembers"
  privateForInners := v.flagAt "suggestPrivateForInners"
  constants := v.flagAt "suggestForConstants"

end Options

namespace EntryPointMarker

def ofDocument (v : Json) : EntryPointMarker where
  name := v.textAt "name"
  minLevel := (v.textAt? "minLevel").bind Level.ofName?

end EntryPointMarker

namespace SubclassingRule

def ofDocument (v : Json) : SubclassingRule where
  marker := v.textAt "annotation"
  methodAnnotations := (v.get? "forcedMethodAnnotations").map (·.texts)

end SubclassingRule

namespace Config

/-- The configuration in a document that the schema accepted. -/
def ofDocument (v : Json) : Config :=
  let analysis := v.memberAt "analysis"
  let entryPoints := v.memberAt "entryPoints"
  { options := .ofDocument analysis
    concurrency := analysis.numberAt "concurrency"
    annotations := (entryPoints.memberAt "annotations").items.map .ofDocument
    mainMethods := entryPoints.flagAt "mainMethods"
    subclassing := ((v.memberAt "extensibility").memberAt "providers").items.map .ofDocument }

/-- The configuration in a document. Without a document there is none. -/
def parse (v : Option Json) : Except ConfigFault Config :=
  match Format.config.validate v with
  | .error issues => .error (.malformed issues)
  | .ok document => .ok (ofDocument document)

/-! ## The empty document -/

theorem wholeFaults_defaultConcurrency : wholeFaults true Analysis.defaultConcurrency = [] := by
  decide +kernel

theorem check_defaultConcurrency :
    Schema.check (.whole true) (some (.number Analysis.defaultConcurrency)) =
      .accept (.number Analysis.defaultConcurrency) := by
  have number : Analysis.defaultConcurrency ≠ .nan := by decide +kernel
  have faults := wholeFaults_defaultConcurrency
  generalize Analysis.defaultConcurrency = x at number faults
  cases x with
  | nan => exact absurd rfl number
  | infinity => simp [Schema.check, faults, Checked.spotted, Checked.accept]
  | finite => simp [Schema.check, faults, Checked.spotted, Checked.accept]

theorem check_analysis_empty :
    Format.analysis.check (some (.object [])) =
      .accept (.object
        (({} : Options).toMembers ++ [("concurrency", .number Analysis.defaultConcurrency)])) := by
  have default := check_defaultConcurrency
  simp only [Format.analysis, Fields.flag, Schema.check, Schema.checkFields, Members.get?_nil,
    Option.getD_none] at default ⊢
  generalize Analysis.defaultConcurrency = x at default ⊢
  rw [default]
  rfl

theorem check_entryPoints_empty :
    Format.entryPoints.check (some (.object [])) =
      .accept (.object
        [("annotations", .list (EntryPointMarker.usual.map (·.toJson))), ("mainMethods", .bool true)]) :=
  rfl

theorem check_extensibility_empty :
    Format.extensibility.check (some (.object [])) = .accept (.object [("providers", .list [])]) :=
  rfl

/-- The format makes of an empty object the usual configuration spelled out. -/
theorem validate_empty :
    Format.config.validate (some (.object [])) = .ok ({} : Config).toJson := by
  simp only [Format.config, Schema.validate, Schema.check, Schema.checkFields, Members.get?_nil,
    Option.getD_none, check_analysis_empty, check_entryPoints_empty, check_extensibility_empty, toJson]
  generalize Analysis.defaultConcurrency = x
  rfl

/-- An empty object is the configuration with every default. -/
theorem parse_empty : parse (some (.object [])) = .ok {} := by
  rw [parse, validate_empty, toJson]
  simp only []
  generalize Analysis.defaultConcurrency = x
  rfl

end Config

end LeastAccess

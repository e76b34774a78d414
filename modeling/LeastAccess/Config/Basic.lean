import LeastAccess.Analysis

/-!
# Configurations

What a user can choose, with the usual choices as defaults, and the document that spells a configuration
out. A configuration gives the policy of an analysis and the number of its workers.
-/

namespace LeastAccess

/-! ## Parts as documents -/

namespace Options

/-- The options by name. -/
def toMembers (o : Options) : List (String × Json) :=
  [("suggestPackageLocalForTopLevelTypes", .bool o.packageForTopLevelTypes),
    ("suggestPackageLocalForMembers", .bool o.packageForMembers),
    ("suggestPrivateForInners", .bool o.privateForInners),
    ("suggestForConstants", .bool o.constants)]

end Options

namespace EntryPointMarker

def toJson (a : EntryPointMarker) : Json :=
  .object (("name", .text a.name) :: a.minLevel.toList.map fun l => ("minLevel", .text l.name))

/-- What test, injection and binding frameworks call. -/
def usual : List EntryPointMarker :=
  [{ name := "org.junit.Test" },
    { name := "org.junit.jupiter.api.Test" },
    { name := "org.junit.jupiter.api.BeforeEach" },
    { name := "org.junit.jupiter.api.AfterEach" },
    { name := "org.testng.annotations.Test" },
    { name := "com.fasterxml.jackson.annotation.JsonCreator", minLevel := some .pkg },
    { name := "javax.inject.Inject", minLevel := some .pkg }]

end EntryPointMarker

namespace SubclassingRule

def toJson (r : SubclassingRule) : Json :=
  .object (("annotation", .text r.marker) ::
    r.methodAnnotations.toList.map fun names => ("forcedMethodAnnotations", .list (names.map .text)))

end SubclassingRule

/-! ## The whole -/

/-- What a user chose. -/
structure Config where
  options : Options := {}
  /-- How many declarations may be resolved at the same time. -/
  concurrency : Binary64 := Analysis.defaultConcurrency
  annotations : List EntryPointMarker := EntryPointMarker.usual
  /-- Whether main methods are entry points. -/
  mainMethods : Bool := true
  subclassing : List SubclassingRule := []
  deriving DecidableEq

namespace Config

/-- The document with every choice spelled out. -/
def toJson (c : Config) : Json :=
  .object
    [("analysis", .object (c.options.toMembers ++ [("concurrency", .number c.concurrency)])),
      ("entryPoints", .object
        [("annotations", .list (c.annotations.map (·.toJson))), ("mainMethods", .bool c.mainMethods)]),
      ("extensibility", .object [("providers", .list (c.subclassing.map (·.toJson)))])]

/-- The entry point rules: annotations first, then main methods. -/
def entryPoints (c : Config) : List EntryPointRule :=
  .annotated c.annotations :: if c.mainMethods then [.mainMethods] else []

/-- How a codebase is analysed under a configuration. -/
def policy (c : Config) : Policy :=
  { entryPoints := c.entryPoints, subclassing := c.subclassing, options := c.options }

/-- Analyses a codebase under a configuration. -/
def analyze (c : Config) (codebase : Codebase) (x : Disturbance) (feed : Feed) :
    Except AnalysisError Analysis.Run := do
  Analysis.checkConcurrency c.concurrency
  return Analysis.run codebase c.policy x c.concurrency feed

end Config

end LeastAccess

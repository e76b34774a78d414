import LeastAccess.Config.Basic
import LeastAccess.Schema.Basic

/-!
# The configuration format

The schemas of the configuration document and of its parts. Everything in it has a default, so an empty
object is a configuration.
-/

namespace LeastAccess.Config.Format

def analysis : Schema := .object <|
  .flag "suggestPackageLocalForTopLevelTypes" true <|
  .flag "suggestPackageLocalForMembers" true <|
  .flag "suggestPrivateForInners" false <|
  .flag "suggestForConstants" true <|
  .defaulted "concurrency" (.number Analysis.defaultConcurrency) (.whole true) .none

def entryPointMarker : Schema := .object <|
  .required "name" (.text true) <|
  .optional "minLevel" (.word Level.names) .none

def entryPoints : Schema := .object <|
  .defaulted "annotations" (.list (EntryPointMarker.usual.map (·.toJson))) (.list entryPointMarker) <|
  .flag "mainMethods" true .none

def subclassingRule : Schema := .object <|
  .required "annotation" (.text true) <|
  .optional "forcedMethodAnnotations" (.list (.text true)) .none

def extensibility : Schema := .object <|
  .defaulted "providers" (.list []) (.list subclassingRule) .none

/-- A whole configuration. -/
def config : Schema := .object <|
  .defaulted "analysis" (.object []) analysis <|
  .defaulted "entryPoints" (.object []) entryPoints <|
  .defaulted "extensibility" (.object []) extensibility .none

end LeastAccess.Config.Format

import LeastAccess.Level
import LeastAccess.Declaration
import LeastAccess.UsageSite
import LeastAccess.Json.View
import LeastAccess.Schema.Basic

/-!
# The snapshot format

A snapshot is the document a front end writes about a program: its declarations with what contains and
extends what, and the usage sites by the id of the declaration that they refer to. This module holds the
schemas of the document and of its parts. Only what the front end has to decide is required; the rest has
defaults that suit an ordinary declaration or an ordinary reference.
-/

namespace LeastAccess.Snapshot.Format

/-- The name of a level. -/
def levelName : Schema := .word Level.names

/-- A list of texts that need not be given. -/
def textList (name : String) (rest : Fields) : Fields :=
  .defaulted name (.list []) (.list (.text false)) rest

/-- Something that need not be given and may be null. -/
def nullable (name : String) (schema : Schema) (rest : Fields) : Fields :=
  .defaulted name .null (.nullable schema) rest

def modifiers : Schema := .object <|
  .required "access" levelName <|
  .optional "isPrivate" .flag <|
  .flag "isNative" false <|
  .flag "isStatic" false <|
  .flag "isFinal" false <|
  .flag "isAbstract" false <|
  .flag "hasInitializer" false .none

def declarationFields : Fields :=
  .required "id" (.text true) <|
  .required "name" (.text true) <|
  .required "kind" (.word (DeclarationKind.all.map (·.name))) <|
  nullable "typeKind" (.word (TypeKind.all.map (·.name))) <|
  .defaulted "package" (.text "") (.text false) <|
  nullable "containerId" (.text true) <|
  nullable "modifiers" modifiers <|
  textList "annotations" <|
  .flag "isSynthetic" false <|
  .flag "isPhysical" true <|
  .flag "isConstructor" false <|
  .flag "isAnonymous" false <|
  .flag "isLocal" false <|
  .flag "isTypeParameter" false <|
  .flag "isFunctional" false <|
  textList "superTypeIds" <|
  .flag "hasSuperSignature" false <|
  .flag "isOverridden" false .none

/-- Whether a declaration that is a type says what sort of type it is. -/
def typeHasKind (v : Json) : Bool :=
  v.textAt? "kind" != some DeclarationKind.type.name || (v.textAt? "typeKind").isSome

def declaration : Schema :=
  .refined (.object declarationFields)
    { holds := typeHasKind, place := "typeKind", message := "types must declare a typeKind" }

/-- How a reference is qualified; only an expression has a type. -/
def qualifier : Schema :=
  .tagged "form" <|
  .variant "none" .none <|
  .variant "this" .none <|
  .variant "super" .none <|
  .variant "expression" (nullable "typeId" (.text false) .none) .none

def usageSite : Schema := .object <|
  .defaulted "origin" (.text "source") (.word ["source", "descriptor"]) <|
  .required "file" (.text true) <|
  .defaulted "line" (.number .zero) (.whole false) <|
  .defaulted "package" (.text "") (.text false) <|
  nullable "enclosingTypeId" (.text false) <|
  .defaulted "qualifier" (.object [("form", .text "none")]) qualifier <|
  .defaulted "context" (.text "normal") (.word (SiteContext.all.map (·.name))) <|
  .flag "isConstructorCall" false <|
  .flag "resolved" true .none

/-- Usage sites by the id of what they refer to. -/
def usages : Schema := .record (.list usageSite)

/-- A whole snapshot of version one. -/
def snapshot : Schema := .object <|
  .required "version" .one <|
  .required "declarations" (.list declaration) <|
  .defaulted "usages" (.object []) usages <|
  .defaulted "functionalUsages" (.object []) usages .none

end LeastAccess.Snapshot.Format

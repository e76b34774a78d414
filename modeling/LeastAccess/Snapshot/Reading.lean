import LeastAccess.Codebase
import LeastAccess.Json.View

/-!
# From a snapshot to a codebase

The declarations and usage sites that a snapshot document stands for, once its schema has accepted it and
filled in the defaults. A declaration that does not say whether it is private is so if its access is
private; only types keep a type kind; and a reference from a descriptor remembers the descriptor's file.
-/

namespace LeastAccess

namespace Modifiers

/-- The modifiers in a document that is not null. -/
def ofDocument (v : Json) : Modifiers :=
  let access := v.textAt "access"
  { access := (Level.ofName? access).getD .pub
    isPrivate := (v.flagAt? "isPrivate").getD (access == Level.priv.name)
    isNative := v.flagAt "isNative"
    isStatic := v.flagAt "isStatic"
    isFinal := v.flagAt "isFinal"
    isAbstract := v.flagAt "isAbstract"
    hasInitializer := v.flagAt "hasInitializer" }

/-- The modifiers in a document; null stands for none. -/
def ofDocument? : Json → Option Modifiers
  | .null => none
  | v => some (ofDocument v)

end Modifiers

namespace Declaration

def ofDocument (v : Json) : Declaration :=
  let kind := (DeclarationKind.ofName? (v.textAt "kind")).getD .type
  { id := v.textAt "id"
    name := v.textAt "name"
    kind
    typeKind := if kind = .type then (v.textAt? "typeKind").bind TypeKind.ofName? else none
    packageName := v.textAt "package"
    containerId := v.textAt? "containerId"
    modifiers := Modifiers.ofDocument? (v.memberAt "modifiers")
    annotations := (v.memberAt "annotations").texts
    isSynthetic := v.flagAt "isSynthetic"
    isPhysical := v.flagAt "isPhysical"
    isConstructor := v.flagAt "isConstructor"
    isAnonymous := v.flagAt "isAnonymous"
    isLocal := v.flagAt "isLocal"
    isTypeParameter := v.flagAt "isTypeParameter"
    isFunctional := v.flagAt "isFunctional"
    superTypeIds := (v.memberAt "superTypeIds").texts
    hasSuperSignature := v.flagAt "hasSuperSignature"
    isOverridden := v.flagAt "isOverridden" }

end Declaration

namespace Qualifier

def ofDocument (v : Json) : Qualifier :=
  match v.textAt "form" with
  | "this" => .this
  | "super" => .super
  | "expression" => .expression (v.textAt? "typeId")
  | _ => .none

end Qualifier

namespace UsageSite

def ofDocument (v : Json) : UsageSite :=
  let file := v.textAt "file"
  { origin := if v.textAt "origin" = "descriptor" then .descriptor file else .source
    file
    line := v.numberAt "line"
    packageName := v.textAt "package"
    enclosingTypeId := v.textAt? "enclosingTypeId"
    qualifier := Qualifier.ofDocument (v.memberAt "qualifier")
    context := (SiteContext.ofName? (v.textAt "context")).getD .normal
    isConstructorCall := v.flagAt "isConstructorCall"
    resolved := v.flagAt "resolved" }

end UsageSite

namespace Codebase

/-- The usage sites in one section, in key order. -/
def sitesOfDocument (v : Json) : List (String × List UsageSite) :=
  (Members.inKeyOrder v.members).map fun m => (m.1, m.2.items.map UsageSite.ofDocument)

/-- The codebase of a snapshot. -/
def ofDocument (v : Json) : Codebase where
  graph := ⟨(v.memberAt "declarations").items.map Declaration.ofDocument⟩
  usages :=
    { ordinary := sitesOfDocument (v.memberAt "usages")
      functional := sitesOfDocument (v.memberAt "functionalUsages") }

end Codebase

end LeastAccess

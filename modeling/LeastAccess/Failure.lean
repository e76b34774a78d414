import LeastAccess.Json.Plain

/-!
# Failures

What a user gets to see when something goes wrong: a kind, a code, a message, and a context that may hold
single issues and the file at fault.

Main statement: `written_contextOf` (with a context that this library makes, a failure can be written).
-/

namespace LeastAccess

/-- The codes of failures, in groups of a thousand. -/
inductive ErrorCode where
  | configInvalid
  | configNotFound
  | snapshotNotFound
  | snapshotUnreadable
  | snapshotSchemaInvalid
  | snapshotDanglingReference
  | snapshotContainmentCycle
  | analysisFailed
  | unknownError
  | invalidArgument
  deriving DecidableEq, Repr

namespace ErrorCode

def code : ErrorCode → String
  | .configInvalid => "E1000"
  | .configNotFound => "E1001"
  | .snapshotNotFound => "E2000"
  | .snapshotUnreadable => "E2001"
  | .snapshotSchemaInvalid => "E2002"
  | .snapshotDanglingReference => "E2003"
  | .snapshotContainmentCycle => "E2004"
  | .analysisFailed => "E3000"
  | .unknownError => "E9000"
  | .invalidArgument => "E9001"

def name : ErrorCode → String
  | .configInvalid => "CONFIG_INVALID"
  | .configNotFound => "CONFIG_NOT_FOUND"
  | .snapshotNotFound => "SNAPSHOT_NOT_FOUND"
  | .snapshotUnreadable => "SNAPSHOT_UNREADABLE"
  | .snapshotSchemaInvalid => "SNAPSHOT_SCHEMA_INVALID"
  | .snapshotDanglingReference => "SNAPSHOT_DANGLING_REFERENCE"
  | .snapshotContainmentCycle => "SNAPSHOT_CONTAINMENT_CYCLE"
  | .analysisFailed => "ANALYSIS_FAILED"
  | .unknownError => "UNKNOWN_ERROR"
  | .invalidArgument => "INVALID_ARGUMENT"

def all : List ErrorCode :=
  [.configInvalid, .configNotFound, .snapshotNotFound, .snapshotUnreadable, .snapshotSchemaInvalid,
    .snapshotDanglingReference, .snapshotContainmentCycle, .analysisFailed, .unknownError,
    .invalidArgument]

def ofName? (s : String) : Option ErrorCode := all.find? (·.name == s)

end ErrorCode

/-- What failed. -/
inductive FailureKind where
  | general
  | configuration
  | snapshot
  | analysis
  deriving DecidableEq, Repr

namespace FailureKind

def name : FailureKind → String
  | .general => "AccessLensError"
  | .configuration => "ConfigurationError"
  | .snapshot => "SnapshotError"
  | .analysis => "AnalysisError"

def all : List FailureKind := [.general, .configuration, .snapshot, .analysis]

def ofName? (s : String) : Option FailureKind := all.find? (·.name == s)

/-- The code of a failure that gives none. -/
def defaultCode : FailureKind → ErrorCode
  | .general => .unknownError
  | .configuration => .configInvalid
  | .snapshot => .snapshotSchemaInvalid
  | .analysis => .analysisFailed

/-- Whether failures of this kind list single issues. -/
def listsIssues : FailureKind → Bool
  | .configuration => true
  | .snapshot => true
  | _ => false

end FailureKind

/-- Why a failure cannot be written: its context holds something that is no list of issues, or no file. -/
inductive TextError where
  /-- The issues are counted, but are no list. -/
  | issuesNoList
  /-- The file or an issue has no text. -/
  | unreadable (reason : Json.PlainError)
  deriving DecidableEq, Repr

def TextError.message : TextError → String
  | .issuesNoList => "this.issues.join is not a function"
  | .unreadable reason => reason.message

/-- A failure as a user sees it. -/
structure Failure where
  kind : FailureKind
  code : ErrorCode
  message : String
  context : Option Json := none

namespace Failure

/-- An entry of the context. -/
def contextEntry? (f : Failure) (key : String) : Option Json := f.context.bind (·.get? key)

/-- The issues as the context gives them, a list of texts if the failure is this library's own; no issues
for the kinds that list none. -/
def issues (f : Failure) : Json :=
  if f.kind.listsIssues then
    match f.contextEntry? "issues" with
    | some .null => .list []
    | some issues => issues
    | none => .list []
  else .list []

/-- The file at fault as the context gives it, a text if the failure is this library's own; only a snapshot
has one. -/
def filePath? (f : Failure) : Option Json :=
  if f.kind = .snapshot then f.contextEntry? "filePath" else none

/-- How many issues there are: the length of a list or a text, what an object says of itself, and otherwise
none. -/
def issueCount (f : Failure) : Except Json.PlainError Binary64 :=
  match f.issues with
  | .list items => .ok (.ofNat items.length)
  | .text s => .ok (.ofNat s.length)
  | issues => ((issues.get? "length").map Json.asNumber).getD (.ok .nan)

/-- The issues, each on a line of its own. -/
def details (f : Failure) : Except TextError String := do
  let count ← f.issueCount.mapError .unreadable
  if !Binary64.zero.lt count then return ""
  else match f.issues with
    | .list items => return String.join ((← (Json.plainItems items).mapError .unreadable).map ("\n  " ++ ·))
    | _ => .error .issuesNoList

/-- The file at fault, unless it counts as nothing. -/
def location (f : Failure) : Except TextError String :=
  match f.filePath? with
  | some path =>
    if path.countsAsNothing then .ok "" else (path.plain.map (" at " ++ ·)).mapError .unreadable
  | none => .ok ""

/-- The failure in one text: code, kind and message, then the file, then one line an issue. -/
def written (f : Failure) : Except TextError String := do
  let place ← f.location
  return "[" ++ f.code.code ++ "] " ++ f.kind.name ++ ": " ++ f.message ++ place ++ (← f.details)

/-- The failure in one text, or what is wrong with it. -/
def text (f : Failure) : String :=
  match f.written with
  | .ok s => s
  | .error e => e.message

/-- The failure for a log. -/
def toJson (f : Failure) : Json :=
  .object ([("name", .text f.kind.name), ("message", .text f.message), ("code", .text f.code.code)] ++
    f.context.toList.map fun context => ("context", context))

/-- A context of a file or a source, if one is known, and of issues, if there can be any. -/
def contextOf (key : String) (path : Option String) (issues : Option (List String)) : Json :=
  .object (path.toList.map (fun p => (key, .text p)) ++
    issues.toList.map fun is => ("issues", .list (is.map .text)))

theorem mapError_ok {ε ε' α : Type} (f : ε → ε') (a : α) : (Except.ok a).mapError f = .ok a := rfl

theorem issueCount_of_list {f : Failure} {items : List Json} (h : f.issues = .list items) :
    f.issueCount = .ok (.ofNat items.length) := by
  unfold issueCount
  rw [h]

/-- A list of issues is written if each of them can be. -/
theorem details_of_list {f : Failure} {items : List Json} {lines : List String} {count : Binary64}
    (h : f.issues = .list items) (counted : f.issueCount = .ok count)
    (readable : Json.plainItems items = .ok lines) :
    f.details = .ok (if Binary64.zero.lt count then String.join (lines.map ("\n  " ++ ·)) else "") := by
  unfold details
  rw [counted]
  cases positive : Binary64.zero.lt count
  · simp [mapError_ok, bind, Except.bind, positive, pure, Except.pure]
  · simp [mapError_ok, bind, Except.bind, positive, h, readable, pure, Except.pure]

theorem location_of_text {f : Failure} (h : ∀ path ∈ f.filePath?, ∃ s, path = .text s) :
    f.location.isOk := by
  unfold location
  cases path : f.filePath? with
  | none => rfl
  | some v =>
    obtain ⟨s, rfl⟩ := h v path
    simp only
    split <;> rfl

theorem get?_contextOf_issues {key : String} (h : key ≠ "issues") (path : Option String)
    (issues : Option (List String)) :
    (contextOf key path issues).get? "issues" = issues.map fun is => .list (is.map .text) := by
  cases path <;> cases issues <;> simp [contextOf, Json.get?, Members.get?, h]

theorem get?_contextOf_path {key : String} (path : Option String) (issues : Option (List String)) :
    ∀ v ∈ (contextOf key path issues).get? "filePath", ∃ s, v = .text s := by
  intro v hv
  cases path with
  | none => cases issues <;> simp [contextOf, Json.get?, Members.get?] at hv
  | some path =>
    refine ⟨path, ?_⟩
    cases issues <;> simp_all [contextOf, Json.get?, Members.get?]

/-- With a context that this library makes, a failure can be written. -/
theorem written_contextOf {kind : FailureKind} {code : ErrorCode} {message key : String}
    {path : Option String} {issues : Option (List String)} (h : key ≠ "issues") :
    (Failure.written ⟨kind, code, message, some (contextOf key path issues)⟩).isOk := by
  generalize hf : (⟨kind, code, message, some (contextOf key path issues)⟩ : Failure) = f
  have place : f.location.isOk := location_of_text (by
    intro v hv
    subst hf
    unfold filePath? at hv
    split at hv
    · exact get?_contextOf_path path issues v hv
    · simp at hv)
  have given : f.issues = .list ((if kind.listsIssues then issues.getD [] else []).map .text) := by
    subst hf
    unfold Failure.issues contextEntry?
    simp only [Option.bind_some, get?_contextOf_issues h]
    split
    · cases issues <;> rfl
    · rfl
  obtain ⟨lines, listed⟩ : ∃ lines, f.details = .ok lines :=
    ⟨_, details_of_list given (issueCount_of_list given) (Json.plainItems_texts _)⟩
  unfold written
  cases hp : f.location with
  | error e => simp [hp, Except.isOk, Except.toBool] at place
  | ok place =>
    rw [listed]
    rfl

end Failure

end LeastAccess

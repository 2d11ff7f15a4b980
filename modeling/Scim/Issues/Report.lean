import Scim.Issues.Basic
import Scim.Json.Basic

/-!
  # Issues as JSON

  A report is an object that follows the places of the issues: a step is a member, an index being
  written out, and the issues of a place stand in the lists `_errors` and `_warnings`.  An error
  message of the protocol has room for one issue only, and tells the first error.
-/

namespace Scim

/-- Writes the body of an error message; without a keyword the member for it is left out. -/
def ErrorResponse.toJson (r : ErrorResponse) : Json :=
  .ofMembers <|
    [ ("schemas", Json.ofStrings r.schemas),
      ("status", .string r.status),
      ("detail", .string r.detail) ] ++
    match r.scimType with
    | some type => [("scimType", .string type.text)]
    | none => []

namespace Issues

/-- Adds items to the list under `key` at a place of a report.  What is no list, or no object on the
    way, is replaced. -/
def fileInto (members : List (String × Json)) (loc : Location) (key : String) (items : List Json) :
    List (String × Json) :=
  match loc with
  | [] =>
    let old := match members.lookup key with
      | some (.array old) => old
      | _ => []
    Json.insertMember key (.array (old ++ items)) members
  | step :: rest =>
    let inner := match members.lookup step.text with
      | some (.object inner) => inner
      | _ => []
    Json.insertMember step.text (.object (fileInto inner rest key items)) members

/-- How an error is reported. -/
def errorJson (e : Error) : Json :=
  .ofMembers [("code", .integer e.code), ("error", .string e.message)]

/-- How a warning is reported. -/
def warningJson (w : Warning) : Json :=
  .ofMembers [("code", .integer w.code), ("warning", .string w.message)]

/-- The report of all issues. -/
def toJson (x : Issues) : Json :=
  let members := x.errors.foldl
    (fun members (l, errors) => fileInto members l "_errors" (errors.map errorJson)) []
  .object <| x.warnings.foldl
    (fun members (l, warnings) => fileInto members l "_warnings" (warnings.map warningJson)) members

/-- The error message for the first error. -/
def response? (x : Issues) : Option ErrorResponse :=
  match x.allErrors with
  | [] => none
  | (loc, e) :: _ =>
    let detail := if loc.isEmpty then e.message else loc.text ++ ": " ++ e.message
    some (.of e.status e.scimType? detail)

end Issues

end Scim

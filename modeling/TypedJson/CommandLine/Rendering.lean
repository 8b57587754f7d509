import TypedJson.CommandLine.Command
import TypedJson.Conformance.Finding
import TypedJson.Documents
/-!
# Written reports

A report is written as text, a line for each finding and one for a document without any,
or as JSON with the source beside the findings.
-/
namespace TypedJson
namespace CommandLine

/-- The report of one document under the document's label. -/
structure LabelledReport where
  source : String
  report : Report

namespace LabelledReport

def toJson (r : LabelledReport) : Json :=
  match r.report.toJson with
  | .object members => .object (("source", .string r.source) :: members)
  | _ => .object [("source", .string r.source)]

/-- A word in the style of a terminal's control sequence, if there are to be any. -/
def styled (colour : Bool) (style word : String) : String :=
  if colour then "\x1b[" ++ style ++ "m" ++ word ++ "\x1b[0m" else word

def severityStyle : Severity → String
  | .error => "1;31"
  | .warning => "1;33"
  | .hint => "36"

def findingLine (colour : Bool) (source : String) (f : Finding) : String :=
  styled colour (severityStyle f.severity) f.severity.name ++ " " ++ source ++ " [" ++ f.kind.name ++
    "] " ++ f.message

def okLine (colour : Bool) (source : String) : String := styled colour "1;32" "ok" ++ " " ++ source

def lines (colour : Bool) (r : LabelledReport) : List String :=
  if r.report.isEmpty then [okLine colour r.source]
  else r.report.findings.map (findingLine colour r.source)

end LabelledReport

def renderText (colour : Bool) (reports : List LabelledReport) : String :=
  "\n".intercalate (reports.flatMap (·.lines colour))

def renderJson (reports : List LabelledReport) : String :=
  (Json.array (reports.map (·.toJson))).pretty

def OutputFormat.render (colour : Bool) (format : OutputFormat) (reports : List LabelledReport) : String :=
  match format with
  | .text => renderText colour reports
  | .json => renderJson reports

end CommandLine
end TypedJson

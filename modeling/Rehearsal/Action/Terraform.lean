import Rehearsal.Command.Script
import Rehearsal.Session.Basic

/-! Nothing is installed for a step that sets up Terraform. The version that the workflow requires
is compared with the one that is present, by their digits and dots. -/

namespace Rehearsal.Terraform

open Play

def versionCommand : String := "terraform version -json"

def normalizeVersion (version : String) : String :=
  String.ofList (version.toList.filter fun c => c.isDigit || c == '.')

def normalizeValue (version : Value) : Except Fault String :=
  match version with
  | .str s => .ok (normalizeVersion s)
  | v => if v.isPresent then .error .wrongKind else .ok ""

def unknownVersion {α : Type} (message : String) : Play α :=
  throw (.mismatch ⟨"terraform", "", .str "", message⟩)

def localVersion (directory : String) : Play Value := do
  let report ← execute versionCommand directory Command.baseEnvironment
  if !report.succeeded then
    let message := "Failed to get local Terraform version: " ++ Text.trimmed report.error
    error message
    error "Please ensure Terraform is installed and available in PATH"
    unknownVersion message
  else
    let unreadable := "Could not read Terraform version output: <detail>"
    match Json.parse report.output with
    | .error .integerTooLong => throw .numeral
    | .error .malformed => unknownVersion unreadable
    | .ok output =>
      match output.field? "terraform_version" with
      | none => unknownVersion unreadable
      | some version =>
        info ("Local Terraform version: " ++ (← fit version.plain))
        return version

/-- Compares the version that is present with the required one, and gives the former. -/
def check (required directory : String) : Play Value := do
  let version ← localVersion directory
  let text ← fit version.plain
  if (← adopt (normalizeValue version)) ≠ normalizeVersion required then
    error "Terraform version mismatch!"
    error ("Required: " ++ required)
    error ("Local: " ++ text)
    error "Please install the correct Terraform version or update the workflow"
    throw (.mismatch ⟨"terraform", required, version,
      "terraform version mismatch! Required: " ++ required ++ ", Local: " ++ text⟩)
  else
    info ("Terraform version matches (" ++ text ++ ")")
    return version

end Rehearsal.Terraform

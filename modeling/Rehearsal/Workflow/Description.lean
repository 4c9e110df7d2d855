import Rehearsal.Session.Basic
import Rehearsal.Value.Coercion

/-! Before a run the name, the triggers and the jobs of the workflow are logged. -/

namespace Rehearsal.Workflow

open Play

/-- The texts of the parts of a value: of the items of a list, the keys of a mapping, the members
of a set, the characters of a string. Other values have no parts. -/
def partTexts (v : Value) : Except Fault (List String) :=
  match v.opened with
  | .list items => orUnfit (items.mapM Value.plain)
  | .map entries => orUnfit (entries.mapM fun (key, _) => key.plain)
  | .set members => orUnfit (members.mapM Scalar.plain)
  | .str text => .ok (text.toList.map String.singleton)
  | .scalar (.bytes bytes) => .ok (bytes.map fun b => toString b.toNat)
  | _ => .error .wrongKind

def describe (workflow : Mapping) : Play Unit := do
  let member (name : String) : Value := (Table.find? (.str name) workflow).getD .null
  let name := member "name"
  if name.isPresent then info ("Workflow name: " ++ (← fit name.plain))
  else warning "Workflow has no name"
  let triggers := member "on"
  if !triggers.isPresent then warning "Workflow has no triggers defined"
  else if triggers.isCollection then
    info ("Triggers: " ++ ", ".intercalate (← adopt (partTexts triggers)))
  else info ("Triggers: " ++ (← fit triggers.plain))
  let jobs := member "jobs"
  if jobs.isPresent then info ("Jobs: " ++ ", ".intercalate (← adopt (partTexts jobs)))
  else warning "Workflow has no jobs defined"

end Rehearsal.Workflow

import Rehearsal.Fault

/-! A job names the jobs that have to be done before it. A job is ready when all of them are. -/

namespace Rehearsal.Job

def neededNames (needs : Value) : Except Fault (List String) :=
  if !needs.isPresent then .ok []
  else match needs.opened with
    | .str name => .ok [name]
    | .list items => orUnfit (items.mapM Value.plain)
    | .map entries => orUnfit (entries.mapM fun (key, _) => key.plain)
    | .set members => orUnfit (members.mapM Scalar.plain)
    | .scalar (.bytes bytes) => .ok (bytes.map fun b => toString b.toNat)
    | _ => .error .wrongKind

def needs (job : Value) : Except Fault (List String) :=
  neededNames ((job.field? "needs").getD .null)

def isDone (done : List Scalar) (name : Scalar) : Bool := done.any (· == name)

def isReady (done : List Scalar) (needed : List String) : Bool :=
  needed.all fun name => isDone done (.str name)

def remaining (jobs : Mapping) (done : List Scalar) : List Scalar :=
  (jobs.map (·.1)).filter fun name => !isDone done name

end Rehearsal.Job

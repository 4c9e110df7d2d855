import Rehearsal.Fault
import Rehearsal.Path

/-! The repository of a workflow file and the directory with the mocks for its actions, told by its
path alone. -/

namespace Rehearsal.Workflow

def fullPath (directory path : String) : Except Fault String :=
  if path.toList.contains '\x00' then .error .zeroInPath else .ok (Path.absolute directory path)

/-- The root of the repository of a workflow file: the directory that holds the settings directory
two levels above the file, or the directory of the file itself. -/
def repositoryRoot (file : String) : String :=
  let directory := Path.parent file
  let above := Path.parent directory
  if Path.name above = ".github" then Path.parent above else directory

def mocksDirectory (file : String) : String :=
  Path.tidy (Path.under (Path.under (Path.parent file) "mocks") (Path.stem file))

end Rehearsal.Workflow

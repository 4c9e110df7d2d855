import Rehearsal.Matrix
import Rehearsal.Proofs.Json.Parsed
import Rehearsal.Proofs.Play.Yields

/-! Resolving an expression, filling a text and expanding a matrix fail only for a flaw of a value
of the workflow or the matrix, or if the variables of the workflow cannot be searched. Values that
users give or that are read from JSON have no flaws. -/

namespace Rehearsal

open Play

/-- What plays that find values rely on: the variables of the workflow have only flaws that are
allowed faults, and so are the faults of searching them. -/
structure Supplied (Fit : Session → Prop) (Allowed : Fault → Prop) (Flaw : Unfit → Prop)
    (workflow : Mapping) : Prop where
  steady : Steady Fit
  tolerates : ∀ u, Flaw u → Allowed (.unfit u)
  within : ((Table.find? (.str "env") workflow).getD .null).Within Flaw
  searched : ∀ name fault, environmentValue? workflow name = .error fault → Allowed fault

theorem environmentValue?_within {Flaw : Unfit → Prop} {workflow : Mapping} {name : String}
    {v : Value} (within : ((Table.find? (.str "env") workflow).getD .null).Within Flaw)
    (found : environmentValue? workflow name = .ok (some v)) : v.Within Flaw := by
  have opened := within.opened
  unfold environmentValue? at found
  split at found
  · next entries same =>
    rw [same] at opened
    exact opened.find (Except.ok.inj found)
  · split at found
    · cases found
    · dsimp only at found
      split at found
      · cases found
      · cases found

theorem menu_nonempty {expression : String} {options : List String}
    (menu : Source.of expression = .menu options) : options ≠ [] := by
  have all : ∀ entry ∈ Source.menus, entry.2 ≠ [] := by decide
  unfold Source.of at menu
  split at menu
  · next source found =>
    subst menu
    simp only [Source.ofStart?, Option.or_eq_some_iff, Option.map_eq_some_iff] at found
    obtain ⟨⟨start, listed⟩, looked, same⟩ :
        ∃ entry, Source.menus.find? (·.1 == expression) = some entry ∧
          Source.menu entry.2 = .menu options := by grind
    cases same
    exact all _ (List.mem_of_find?_eq_some looked)
  · split at menu
    · cases menu
    · split at menu <;> cases menu

namespace Supplied

variable {Fit : Session → Prop} {Allowed : Fault → Prop} {Flaw : Unfit → Prop}
  {workflow : Mapping} {scope : Scope}

/-! ### Texts of values -/

theorem expressionText (supplied : Supplied Fit Allowed Flaw workflow) {v : Value}
    (within : v.Within Flaw) : Yields Fit Allowed (fun _ => True) (fit v.expressionText) :=
  .fit (fun _ _ => trivial) fun u failed =>
    supplied.tolerates u (within u (Value.hasFlaw_of_expressionText failed))

theorem plain (supplied : Supplied Fit Allowed Flaw workflow) {v : Value}
    (within : v.Within Flaw) : Yields Fit Allowed (fun _ => True) (fit v.plain) :=
  .fit (fun _ _ => trivial) fun u failed =>
    supplied.tolerates u (within u (Value.hasFlaw_of_plain failed))

theorem plainKey (supplied : Supplied Fit Allowed Flaw workflow) {key : Scalar}
    (within : (Value.scalar key).Within Flaw) :
    Yields Fit Allowed (fun _ => True) (fit key.plain) :=
  .fit (fun _ _ => trivial) fun u failed =>
    supplied.tolerates u (within u (by rw [Value.hasFlaw, Scalar.hasFlaw_of_plain failed]))

theorem json (supplied : Supplied Fit Allowed Flaw workflow) {v : Value}
    (within : v.Within Flaw) (spacing : Json.Spacing) :
    Yields Fit Allowed (fun _ => True) (fit (Json.text spacing v)) :=
  .fit (fun _ _ => trivial) fun u failed =>
    supplied.tolerates u (within u (Json.hasFlaw_of_text failed))

/-! ### Expressions -/

theorem announced (supplied : Supplied Fit Allowed Flaw workflow) (expression value : String) :
    Yields Fit Allowed (fun _ => True) (Resolve.announced expression value) :=
  .bind (supplied.steady.info _) fun _ _ => .pure trivial

theorem normalizeJson (supplied : Supplied Fit Allowed Flaw workflow) (inner text : String) :
    Yields Fit Allowed (fun _ => True) (Resolve.normalizeJson inner text) := by
  unfold Resolve.normalizeJson
  split
  · exact supplied.announced ..
  · next parsed read =>
    exact .bind (supplied.json (Json.parse_within read) _) fun _ _ =>
      .bind (supplied.steady.info _) fun _ _ => .pure trivial

theorem fromSource (supplied : Supplied Fit Allowed Flaw workflow) {expression : String}
    {source : Source} (own : Source.of expression = source) :
    Yields Fit Allowed (fun _ => True) (Resolve.fromSource workflow expression source) := by
  have asks (text default : String) :
      Yields Fit Allowed (fun _ => True) (freeText text default >>= Resolve.announced expression) :=
    .bind (supplied.steady.freeText _ _) fun _ _ => supplied.announced ..
  cases source with
  | menu options =>
    exact .bind (supplied.steady.choose _ (menu_nonempty own)) fun _ _ => supplied.announced ..
  | secret name =>
    exact .bind (supplied.steady.ask _) fun _ _ => .bind (supplied.steady.register _) fun _ _ =>
      .bind (supplied.steady.info _) fun _ _ => .pure trivial
  | environment name =>
    refine .bind_adopt (supplied.searched name) fun found looked => ?_
    cases found with
    | none => exact asks _ _
    | some value =>
      exact .bind (supplied.expressionText (environmentValue?_within supplied.within looked))
        fun _ _ => supplied.announced ..
  | suggestion text default => exact asks _ _
  | output job name =>
    refine .bind .get fun s _ => ?_
    split
    · exact .bind (supplied.steady.info _) fun _ _ => .pure trivial
    · exact asks _ _
  | input name => exact asks _ _
  | json inner => exact asks _ _
  | other => exact asks _ _

theorem resolve (supplied : Supplied Fit Allowed Flaw workflow) (expression : String) :
    Yields Fit Allowed (fun _ => True) (resolve workflow expression) := by
  rw [Rehearsal.resolve]
  refine .bind .get fun s _ => ?_
  split
  · exact .pure trivial
  · extract_lets kept
    have keeps (value : String) : Yields Fit Allowed (fun _ => True) (kept value) :=
      .bind (supplied.steady.modifyContext _) fun _ _ => .pure trivial
    split
    · next inner found =>
      have shorter := Source.length_lt_of_json found
      exact .bind (resolve supplied (String.ofList inner)) fun _ _ =>
        .bind (supplied.normalizeJson ..) fun value _ => keeps value
    · exact .bind (supplied.fromSource rfl) fun value _ => keeps value
termination_by expression.length
decreasing_by simpa using shorter

theorem resolveStepOutput (supplied : Supplied Fit Allowed Flaw workflow) (job : Scalar)
    (expression : String) :
    Yields Fit Allowed (fun _ => True) (resolveStepOutput job expression) := by
  refine .bind .get fun s _ => ?_
  dsimp only
  split
  · split
    · exact .pure trivial
    · exact supplied.steady.freeText ..
  · exact supplied.steady.freeText ..

theorem binding (bound : (Value.map scope.matrix).Within Flaw) {expression : String} {v : Value}
    (found : scope.binding? expression = some v) : v.Within Flaw := by
  obtain ⟨key, -, found⟩ := Option.bind_eq_some_iff.mp found
  exact bound.find found

theorem substitute (supplied : Supplied Fit Allowed Flaw scope.workflow)
    (bound : (Value.map scope.matrix).Within Flaw) (expression : String) :
    Yields Fit Allowed (fun _ => True) (substitute scope expression) := by
  unfold Rehearsal.substitute
  split
  · next v found =>
    exact .bind (supplied.expressionText (binding bound found)) fun _ _ => supplied.announced ..
  · split
    · refine .bind (supplied.resolveStepOutput ..) fun value _ => ?_
      dsimp only
      split
      · exact .bind (supplied.steady.info _) fun _ _ => .pure trivial
      · exact .pure trivial
    · exact supplied.resolve _

theorem fillWith (supplied : Supplied Fit Allowed Flaw scope.workflow)
    (bound : (Value.map scope.matrix).Within Flaw) (step : String) (expressions : List String)
    (text : List Char) :
    Yields Fit Allowed (fun _ => True) (fillWith scope step expressions text) := by
  induction expressions generalizing text with
  | nil => exact .pure trivial
  | cons expression rest ih =>
    exact .bind (supplied.substitute bound _) fun _ _ =>
      .bind (supplied.steady.debug _) fun _ _ => ih _

theorem fill (supplied : Supplied Fit Allowed Flaw scope.workflow)
    (bound : (Value.map scope.matrix).Within Flaw) (step text : String) :
    Yields Fit Allowed (fun _ => True) (fill scope step text) :=
  .bind (supplied.fillWith bound ..) fun _ _ => .pure trivial

theorem fillValue (supplied : Supplied Fit Allowed Flaw scope.workflow)
    (bound : (Value.map scope.matrix).Within Flaw) (step : String) {value : Value}
    (within : value.Within Flaw) :
    Yields Fit Allowed (fun _ => True) (fillValue scope step value) :=
  .bind (supplied.expressionText within) fun _ _ => supplied.fill bound ..

theorem resolveJobOutput (supplied : Supplied Fit Allowed Flaw scope.workflow)
    (bound : (Value.map scope.matrix).Within Flaw) {value : Value} (within : value.Within Flaw) :
    Yields Fit Allowed (fun _ => True) (resolveJobOutput scope value) := by
  refine .bind (supplied.expressionText within) fun text _ => ?_
  have filled : Yields Fit Allowed (fun _ => True) (Rehearsal.fill scope "job-outputs" text) :=
    supplied.fill bound ..
  dsimp only
  split
  · split
    · refine .bind .get fun s _ => ?_
      split
      · exact .bind (supplied.steady.info _) fun _ _ => .pure trivial
      · exact supplied.steady.freeText ..
    · exact filled
  · exact filled

/-! ### Matrices -/

theorem resolveJson (supplied : Supplied Fit Allowed Flaw scope.workflow)
    (bound : (Value.map scope.matrix).Within Flaw) (text : String) :
    Yields Fit Allowed (Value.Within Flaw) (Matrix.resolveJson scope text) := by
  refine .bind (supplied.fill bound ..) fun resolved _ => ?_
  split
  · next value read => exact .pure (Json.parse_within read)
  · exact .pure (.str _)

theorem mappings_within {items : List Value} (within : (Value.list items).Within Flaw) :
    ∀ entries ∈ Matrix.mappings items, (Value.map entries).Within Flaw := by
  intro entries member
  obtain ⟨item, stated, opened⟩ := List.mem_filterMap.mp member
  exact (within.mem stated).mapping opened

theorem statedEntries (supplied : Supplied Fit Allowed Flaw scope.workflow)
    (bound : (Value.map scope.matrix).Within Flaw) {value : Value} (within : value.Within Flaw) :
    Yields Fit Allowed (fun stated => ∀ entries ∈ stated, (Value.map entries).Within Flaw)
      (Matrix.statedEntries scope value) := by
  unfold Matrix.statedEntries
  extract_lets listed
  have lists (value : Value) (within : value.Within Flaw) :
      Yields Fit Allowed (fun stated => ∀ entries ∈ stated, (Value.map entries).Within Flaw)
        (listed value) := by
    have opened := within.opened
    dsimp only [listed]
    split
    · next items same =>
      rw [same] at opened
      exact .pure (mappings_within opened)
    · exact .pure (by simp)
  split
  · exact .bind (supplied.resolveJson bound _) lists
  · exact .bind (.pure within) lists

theorem axisValues (supplied : Supplied Fit Allowed Flaw scope.workflow)
    (bound : (Value.map scope.matrix).Within Flaw) {value : Value} (within : value.Within Flaw) :
    Yields Fit Allowed (fun values => ∀ v ∈ values, v.Within Flaw)
      (Matrix.axisValues scope value) := by
  unfold Matrix.axisValues
  extract_lets listed
  have lists (value : Value) (within : value.Within Flaw) :
      Yields Fit Allowed (fun values => ∀ v ∈ values, v.Within Flaw) (listed value) := by
    have opened := within.opened
    dsimp only [listed]
    split
    · next items same =>
      rw [same] at opened
      exact .pure fun v member => opened.mem member
    · exact .pure (by simpa using within)
  split
  · split
    · exact .bind (supplied.resolveJson bound _) lists
    · exact .bind (.pure within) lists
  · exact .bind (.pure within) lists

theorem logCombinations (supplied : Supplied Fit Allowed Flaw workflow)
    {combinations : List Mapping}
    (within : ∀ bindings ∈ combinations, (Value.map bindings).Within Flaw) :
    Yields Fit Allowed (fun _ => True) (Matrix.logCombinations combinations) := by
  refine .bind (supplied.steady.info _) fun _ _ => .bind (.forIn fun entry member => ?_)
    fun _ _ => .pure trivial
  have stated := within entry.1 (List.fst_mem_of_mem_zipIdx member)
  exact .bind (supplied.json stated _) fun _ _ =>
    .bind (supplied.steady.info _) fun _ _ => .pure trivial

structure AxisWithin (Flaw : Unfit → Prop) (axis : Scalar × List Value) : Prop where
  key : (Value.scalar axis.1).Within Flaw
  values : ∀ v ∈ axis.2, v.Within Flaw

theorem choices_within {axes : List (Scalar × List Value)}
    (within : ∀ axis ∈ axes, AxisWithin Flaw axis) :
    ∀ bindings ∈ Matrix.choices axes, (Value.map bindings).Within Flaw := by
  induction axes with
  | nil =>
    intro bindings member
    rw [List.mem_singleton.mp member]
    exact .map (by simp) (by simp)
  | cons axis axes ih =>
    intro bindings member
    rw [List.forall_mem_cons] at within
    obtain ⟨value, listed, member⟩ := List.mem_flatMap.mp member
    obtain ⟨rest, chosen, rfl⟩ := List.mem_map.mp member
    have others := ih within.2 rest chosen
    refine .map (List.forall_mem_cons.mpr ⟨within.1.key, ?_⟩) (List.forall_mem_cons.mpr ⟨?_, ?_⟩)
    · exact fun entry member => others.key member
    · exact within.1.values value listed
    · exact fun entry member => others.entry member

theorem combinations_within {axes : List (Scalar × List Value)} {included : List Mapping}
    (within : ∀ axis ∈ axes, AxisWithin Flaw axis)
    (added : ∀ entries ∈ included, (Value.map entries).Within Flaw) (excluded : List Mapping) :
    ∀ bindings ∈ Matrix.combinations axes excluded included,
      (Value.map bindings).Within Flaw := by
  intro bindings member
  unfold Matrix.combinations at member
  rcases List.mem_append.mp member with chosen | stated
  · split at chosen
    · cases chosen
    · exact choices_within within _ (List.mem_filter.mp chosen).1
  · exact added _ stated

theorem expandMapping (supplied : Supplied Fit Allowed Flaw scope.workflow)
    (bound : (Value.map scope.matrix).Within Flaw) (job : (Value.scalar scope.job).Within Flaw)
    {matrix : Mapping} (within : (Value.map matrix).Within Flaw) :
    Yields Fit Allowed (fun instances => ∀ bindings ∈ instances, (Value.map bindings).Within Flaw)
      (Matrix.expandMapping scope matrix) := by
  have axis {key : Scalar} {value : Value} (key_within : (Value.scalar key).Within Flaw)
      (value_within : value.Within Flaw) :
      Yields Fit Allowed (AxisWithin Flaw)
        (do return (key, ← Matrix.axisValues scope value) : Play (Scalar × List Value)) :=
    .bind (supplied.axisValues bound value_within) fun values each => .pure ⟨key_within, each⟩
  refine .bind (supplied.statedEntries bound (within.findD _)) fun included added =>
    .bind (supplied.statedEntries bound (within.findD _)) fun excluded _ =>
    .bind (.mapM fun ⟨key, value⟩ member => ?_)
      fun axes (listed : ∀ axis ∈ axes, AxisWithin Flaw axis) => ?_
  · have stated := (List.mem_filter.mp member).1
    exact axis (within.key stated) (within.entry stated)
  · have stated := combinations_within listed added excluded
    dsimp only
    split
    · exact .bind (supplied.plainKey job) fun _ _ => .bind (supplied.steady.warning _) fun _ _ =>
        .pure (by simp)
    · exact .bind (supplied.logCombinations stated) fun _ _ => .pure stated

theorem expand (supplied : Supplied Fit Allowed Flaw scope.workflow)
    (bound : (Value.map scope.matrix).Within Flaw) (job : (Value.scalar scope.job).Within Flaw)
    {matrix : Value} (within : matrix.Within Flaw) :
    Yields Fit Allowed (fun instances => ∀ bindings ∈ instances, (Value.map bindings).Within Flaw)
      (Matrix.expand scope matrix) := by
  have single : ∀ bindings ∈ [([] : Mapping)], (Value.map bindings).Within Flaw := by
    simpa using Value.Within.map (by simp) (by simp)
  unfold Matrix.expand
  extract_lets expanded
  have expands (matrix : Value) (within : matrix.Within Flaw) :
      Yields Fit Allowed
        (fun instances => ∀ bindings ∈ instances, (Value.map bindings).Within Flaw)
        (expanded matrix) := by
    have opened := within.opened
    dsimp only [expanded]
    split
    · next items same =>
      rw [same] at opened
      have stated := mappings_within opened
      exact .bind (supplied.logCombinations stated) fun _ _ => .pure stated
    · next entries same =>
      rw [same] at opened
      exact supplied.expandMapping bound job opened
    · exact .bind (supplied.steady.warning _) fun _ _ => .pure single
  split
  · exact .pure single
  · split
    · exact .bind (supplied.resolveJson bound _) expands
    · exact .bind (.pure within) expands

end Supplied
end Rehearsal

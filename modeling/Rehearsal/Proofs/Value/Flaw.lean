import Rehearsal.Proofs.Workflow.Needs
import Rehearsal.Value.Coercion

/-! Why a value can have no text: it holds an integer that is too long, a scalar or a set without
JSON form, or itself. Whenever a value is refused a text, it has the flaw that is given as the
reason. -/

namespace Rehearsal

def Scalar.hasFlaw (u : Unfit) : Scalar → Bool
  | int i => u == .integerTooLong && (Numeral.text? i).isNone
  | date _ => u == .noJson
  | moment _ => u == .noJson
  | bytes _ => u == .noJson
  | _ => false

namespace Value

mutual

/-- Whether some part of a value gives this reason for having no text. -/
def hasFlaw (u : Unfit) : Value → Bool
  | scalar s => s.hasFlaw u
  | list items => flawIn u items
  | map entries => flawAmong u entries
  | set members => u == .noJson || members.any (Scalar.hasFlaw u)
  | pair key value => key.hasFlaw u || value.hasFlaw u
  | again content => u == .endless || content.hasFlaw u

def flawIn (u : Unfit) : List Value → Bool
  | [] => false
  | v :: vs => v.hasFlaw u || flawIn u vs

def flawAmong (u : Unfit) : List (Scalar × Value) → Bool
  | [] => false
  | (k, v) :: rest => k.hasFlaw u || v.hasFlaw u || flawAmong u rest

end

attribute [simp] hasFlaw flawIn flawAmong

/-- Whether a value gives only reasons of a kind for having no text. -/
def Within (Flaw : Unfit → Prop) (v : Value) : Prop := ∀ u, v.hasFlaw u = true → Flaw u

variable {u : Unfit} {Flaw : Unfit → Prop}

/-! ### Parts of values -/

theorem hasFlaw_of_mem {items : List Value} {v : Value} (member : v ∈ items)
    (flaw : v.hasFlaw u = true) : (list items).hasFlaw u = true := by
  rw [hasFlaw]
  induction items with
  | nil => cases member
  | cons first rest ih =>
    rw [flawIn, Bool.or_eq_true]
    rcases List.mem_cons.mp member with rfl | later
    · exact .inl flaw
    · exact .inr (ih later)

theorem hasFlaw_of_entry {entries : List (Scalar × Value)} {entry : Scalar × Value}
    (member : entry ∈ entries) (flaw : entry.1.hasFlaw u = true ∨ entry.2.hasFlaw u = true) :
    (map entries).hasFlaw u = true := by
  rw [hasFlaw]
  induction entries with
  | nil => cases member
  | cons first rest ih =>
    rw [flawAmong, Bool.or_eq_true, Bool.or_eq_true]
    rcases List.mem_cons.mp member with rfl | later
    · exact .inl flaw
    · exact .inr (ih later)

theorem entry_of_hasFlaw {entries : List (Scalar × Value)} (flaw : (map entries).hasFlaw u = true) :
    ∃ entry ∈ entries, entry.1.hasFlaw u = true ∨ entry.2.hasFlaw u = true := by
  rw [hasFlaw] at flaw
  induction entries with
  | nil => cases flaw
  | cons first rest ih =>
    rw [flawAmong, Bool.or_eq_true, Bool.or_eq_true] at flaw
    rcases flaw with own | later
    · exact ⟨first, List.mem_cons_self, own⟩
    · obtain ⟨entry, member, flaw⟩ := ih later
      exact ⟨entry, List.mem_cons_of_mem _ member, flaw⟩

theorem mem_of_hasFlaw {items : List Value} (flaw : (list items).hasFlaw u = true) :
    ∃ v ∈ items, v.hasFlaw u = true := by
  rw [hasFlaw] at flaw
  induction items with
  | nil => cases flaw
  | cons first rest ih =>
    rw [flawIn, Bool.or_eq_true] at flaw
    rcases flaw with own | later
    · exact ⟨first, List.mem_cons_self, own⟩
    · obtain ⟨v, member, flaw⟩ := ih later
      exact ⟨v, List.mem_cons_of_mem _ member, flaw⟩

namespace Within

theorem mono {Wider : Unfit → Prop} {v : Value} (within : v.Within Flaw)
    (wider : ∀ u, Flaw u → Wider u) : v.Within Wider := fun u flaw => wider u (within u flaw)

theorem str (s : String) : (Value.str s).Within Flaw := fun _ flaw => nomatch flaw

theorem bool (b : Bool) : (Value.bool b).Within Flaw := fun _ flaw => nomatch flaw

theorem null : Value.null.Within Flaw := fun _ flaw => nomatch flaw

theorem list {items : List Value} (each : ∀ v ∈ items, v.Within Flaw) :
    (Value.list items).Within Flaw := by
  intro u flaw
  obtain ⟨v, member, flaw⟩ := mem_of_hasFlaw flaw
  exact each v member u flaw

theorem map {entries : List (Scalar × Value)}
    (keys : ∀ entry ∈ entries, (scalar entry.1).Within Flaw)
    (values : ∀ entry ∈ entries, entry.2.Within Flaw) : (Value.map entries).Within Flaw := by
  intro u flaw
  obtain ⟨entry, member, own | inside⟩ := entry_of_hasFlaw flaw
  · exact keys entry member u (by rwa [hasFlaw])
  · exact values entry member u inside

variable {v : Value} {entries : Mapping}

theorem opened (within : v.Within Flaw) : v.opened.Within Flaw := by
  unfold Value.opened
  split
  · intro u flaw
    refine within u ?_
    rw [hasFlaw, flaw, Bool.or_true]
  · exact within

theorem mem {items : List Value} (within : (Value.list items).Within Flaw) {v : Value}
    (member : v ∈ items) : v.Within Flaw := fun u flaw => within u (hasFlaw_of_mem member flaw)

theorem key (within : (Value.map entries).Within Flaw) {entry : Scalar × Value}
    (member : entry ∈ entries) : (scalar entry.1).Within Flaw :=
  fun u flaw => within u (hasFlaw_of_entry member (.inl (by rwa [hasFlaw] at flaw)))

theorem entry (within : (Value.map entries).Within Flaw) {entry : Scalar × Value}
    (member : entry ∈ entries) : entry.2.Within Flaw :=
  fun u flaw => within u (hasFlaw_of_entry member (.inr flaw))

theorem tail {entry : Scalar × Value} {rest : List (Scalar × Value)}
    (within : (Value.map (entry :: rest)).Within Flaw) : (Value.map rest).Within Flaw :=
  map (fun _ member => within.key (List.mem_cons_of_mem _ member))
    fun _ member => within.entry (List.mem_cons_of_mem _ member)

theorem mapping (within : v.Within Flaw) (opened : v.mapping? = some entries) :
    (Value.map entries).Within Flaw := by
  have content := within.opened
  unfold mapping? at opened
  split at opened
  · next stated same =>
    cases opened
    rwa [same] at content
  · cases opened

theorem find (within : (Value.map entries).Within Flaw) {key : Scalar} {value : Value}
    (found : Table.find? key entries = some value) : value.Within Flaw := by
  obtain ⟨spelling, member, -⟩ := Table.mem_of_find?_eq_some found
  exact within.entry member

theorem findD (within : (Value.map entries).Within Flaw) (key : Scalar) :
    ((Table.find? key entries).getD .null).Within Flaw := by
  cases found : Table.find? key entries with
  | none => exact null
  | some value => exact within.find found

theorem fieldD (within : v.Within Flaw) (name : String) :
    ((v.field? name).getD .null).Within Flaw := by
  unfold field?
  cases opened : v.mapping? with
  | none => exact null
  | some entries => exact (within.mapping opened).findD _

end Within

/-! ### Texts -/

end Value

variable {u : Unfit}

theorem error_of_bind {α β : Type} {first : Except Unfit α} {next : α → Except Unfit β}
    (failed : (first >>= next) = .error u) :
    first = .error u ∨ ∃ a, first = .ok a ∧ next a = .error u := by
  cases first with
  | error v =>
    cases failed
    exact .inl rfl
  | ok a => exact .inr ⟨a, rfl, failed⟩

theorem error_of_mapM {α β : Type} {f : α → Except Unfit β} {items : List α}
    (failed : items.mapM f = .error u) : ∃ a ∈ items, f a = .error u := by
  induction items with
  | nil => cases failed
  | cons a rest ih =>
    rw [List.mapM_cons] at failed
    rcases error_of_bind failed with own | ⟨b, -, failed⟩
    · exact ⟨a, List.mem_cons_self, own⟩
    · rcases error_of_bind failed with later | ⟨c, -, failed⟩
      · obtain ⟨other, member, own⟩ := ih later
        exact ⟨other, List.mem_cons_of_mem _ member, own⟩
      · cases failed

namespace Scalar

theorem isLong_of_quoted {s : Scalar} (failed : s.quoted = .error u) :
    u = .integerTooLong ∧ s.hasFlaw .integerTooLong = true := by
  cases s with
  | int i =>
    unfold quoted at failed
    dsimp only at failed
    split at failed
    · cases failed
    · next long =>
      cases failed
      exact ⟨rfl, by simp [hasFlaw, long]⟩
  | _ => cases failed

theorem isLong_of_plain {s : Scalar} (failed : s.plain = .error u) :
    u = .integerTooLong ∧ s.hasFlaw .integerTooLong = true := by
  unfold plain at failed
  split at failed
  · cases failed
  · cases failed
  · cases failed
  · exact isLong_of_quoted failed

theorem hasFlaw_of_plain {s : Scalar} (failed : s.plain = .error u) : s.hasFlaw u = true := by
  obtain ⟨rfl, long⟩ := isLong_of_plain failed
  exact long

end Scalar

namespace Value

mutual

theorem isLong_of_quoted :
    ∀ {v : Value}, v.quoted = .error u → u = .integerTooLong ∧ v.hasFlaw .integerTooLong = true
  | .scalar s, failed => by
    rw [quoted] at failed
    rw [hasFlaw]
    exact Scalar.isLong_of_quoted failed
  | .list items, failed => by
    rw [quoted] at failed
    rw [hasFlaw]
    rcases error_of_bind failed with inside | ⟨texts, -, failed⟩
    · exact isLong_of_quotedItems inside
    · cases failed
  | .map entries, failed => by
    rw [quoted] at failed
    rw [hasFlaw]
    rcases error_of_bind failed with inside | ⟨texts, -, failed⟩
    · exact isLong_of_quotedEntries inside
    · cases failed
  | .set [], failed => by
    rw [quoted] at failed
    cases failed
  | .set (first :: rest), failed => by
    rw [quoted] at failed
    · rcases error_of_bind failed with inside | ⟨texts, -, failed⟩
      · obtain ⟨member, stands, own⟩ := error_of_mapM inside
        obtain ⟨same, long⟩ := Scalar.isLong_of_quoted own
        rw [hasFlaw, Bool.or_eq_true]
        exact ⟨same, .inr (List.any_eq_true.mpr ⟨member, stands, long⟩)⟩
      · cases failed
    · simp
  | .pair key value, failed => by
    rw [quoted] at failed
    rw [hasFlaw, Bool.or_eq_true]
    rcases error_of_bind failed with inside | ⟨text, -, failed⟩
    · exact (isLong_of_quoted inside).imp_right .inl
    · rcases error_of_bind failed with inside | ⟨text, -, failed⟩
      · exact (isLong_of_quoted inside).imp_right .inr
      · cases failed
  | .again content, failed => by
    cases content <;> cases failed

theorem isLong_of_quotedItems :
    ∀ {items : List Value}, quotedItems items = .error u →
      u = .integerTooLong ∧ flawIn .integerTooLong items = true
  | [], failed => by cases failed
  | v :: vs, failed => by
    rw [quotedItems] at failed
    rw [flawIn, Bool.or_eq_true]
    rcases error_of_bind failed with inside | ⟨text, -, failed⟩
    · exact (isLong_of_quoted inside).imp_right .inl
    · rcases error_of_bind failed with inside | ⟨texts, -, failed⟩
      · exact (isLong_of_quotedItems inside).imp_right .inr
      · cases failed

theorem isLong_of_quotedEntries :
    ∀ {entries : List (Scalar × Value)}, quotedEntries entries = .error u →
      u = .integerTooLong ∧ flawAmong .integerTooLong entries = true
  | [], failed => by cases failed
  | (k, v) :: rest, failed => by
    rw [quotedEntries] at failed
    rw [flawAmong, Bool.or_eq_true, Bool.or_eq_true]
    rcases error_of_bind failed with inside | ⟨key, -, failed⟩
    · exact (Scalar.isLong_of_quoted inside).imp_right fun own => .inl (.inl own)
    · rcases error_of_bind failed with inside | ⟨text, -, failed⟩
      · exact (isLong_of_quoted inside).imp_right fun own => .inl (.inr own)
      · rcases error_of_bind failed with inside | ⟨texts, -, failed⟩
        · exact (isLong_of_quotedEntries inside).imp_right .inr
        · cases failed

end

theorem hasFlaw_of_opened {v : Value} (flaw : v.opened.hasFlaw u = true) : v.hasFlaw u = true := by
  have own : v.Within fun u => v.hasFlaw u = true := fun _ flaw => flaw
  exact own.opened u flaw

theorem isLong_of_plain {v : Value} (failed : v.plain = .error u) :
    u = .integerTooLong ∧ v.hasFlaw .integerTooLong = true := by
  unfold plain at failed
  split at failed
  · rw [hasFlaw]
    exact Scalar.isLong_of_plain failed
  · exact (isLong_of_quoted failed).imp_right hasFlaw_of_opened

theorem hasFlaw_of_plain {v : Value} (failed : v.plain = .error u) : v.hasFlaw u = true := by
  obtain ⟨rfl, long⟩ := isLong_of_plain failed
  exact long

end Value

/-! ### JSON -/

namespace Json

theorem hasFlaw_of_bare {s : Scalar} (failed : bare s = .error u) : s.hasFlaw u = true := by
  cases s with
  | int i =>
    unfold bare at failed
    dsimp only at failed
    split at failed
    · cases failed
    · next long =>
      cases failed
      simp [Scalar.hasFlaw, long]
  | date _ | moment _ | bytes _ =>
    cases failed
    rfl
  | _ => cases failed

theorem hasFlaw_of_scalar {s : Scalar} (failed : scalar s = .error u) : s.hasFlaw u = true := by
  unfold scalar at failed
  split at failed
  · cases failed
  · exact hasFlaw_of_bare failed

theorem hasFlaw_of_key {s : Scalar} (failed : key s = .error u) : s.hasFlaw u = true := by
  rcases error_of_bind failed with inside | ⟨text, -, failed⟩
  · exact hasFlaw_of_bare inside
  · cases failed

variable {spacing : Spacing}

mutual

theorem hasFlaw_of_render :
    ∀ {v : Value}, render spacing v = .error u → v.hasFlaw u = true
  | .scalar s, failed => by
    rw [render] at failed
    exact hasFlaw_of_scalar failed
  | .list [], failed => by
    rw [render] at failed
    cases failed
  | .list (v :: vs), failed => by
    rw [render] at failed
    rw [Value.hasFlaw, Value.flawIn, Bool.or_eq_true]
    rcases error_of_bind failed with inside | ⟨text, -, failed⟩
    · exact .inl (hasFlaw_of_render inside)
    · rcases error_of_bind failed with inside | ⟨texts, -, failed⟩
      · exact .inr (flawIn_of_renderItems inside)
      · cases failed
  | .map [], failed => by
    rw [render] at failed
    cases failed
  | .map ((k, v) :: rest), failed => by
    rw [render] at failed
    rw [Value.hasFlaw, Value.flawAmong, Bool.or_eq_true, Bool.or_eq_true]
    rcases error_of_bind failed with inside | ⟨name, -, failed⟩
    · exact .inl (.inl (hasFlaw_of_key inside))
    · rcases error_of_bind failed with inside | ⟨text, -, failed⟩
      · exact .inl (.inr (hasFlaw_of_render inside))
      · rcases error_of_bind failed with inside | ⟨texts, -, failed⟩
        · exact .inr (flawAmong_of_renderEntries inside)
        · cases failed
  | .set members, failed => by
    rw [render] at failed
    cases failed
    rfl
  | .pair key value, failed => by
    rw [render] at failed
    rw [Value.hasFlaw, Bool.or_eq_true]
    rcases error_of_bind failed with inside | ⟨text, -, failed⟩
    · exact .inl (hasFlaw_of_render inside)
    · rcases error_of_bind failed with inside | ⟨text, -, failed⟩
      · exact .inr (hasFlaw_of_render inside)
      · cases failed
  | .again content, failed => by
    rw [render] at failed
    cases failed
    rfl

theorem flawIn_of_renderItems :
    ∀ {items : List Value}, renderItems spacing items = .error u → Value.flawIn u items = true
  | [], failed => by
    rw [renderItems] at failed
    cases failed
  | v :: vs, failed => by
    rw [renderItems] at failed
    rw [Value.flawIn, Bool.or_eq_true]
    rcases error_of_bind failed with inside | ⟨text, -, failed⟩
    · exact .inl (hasFlaw_of_render inside)
    · rcases error_of_bind failed with inside | ⟨texts, -, failed⟩
      · exact .inr (flawIn_of_renderItems inside)
      · cases failed

theorem flawAmong_of_renderEntries :
    ∀ {entries : List (Scalar × Value)}, renderEntries spacing entries = .error u →
      Value.flawAmong u entries = true
  | [], failed => by
    rw [renderEntries] at failed
    cases failed
  | (k, v) :: rest, failed => by
    rw [renderEntries] at failed
    rw [Value.flawAmong, Bool.or_eq_true, Bool.or_eq_true]
    rcases error_of_bind failed with inside | ⟨name, -, failed⟩
    · exact .inl (.inl (hasFlaw_of_key inside))
    · rcases error_of_bind failed with inside | ⟨text, -, failed⟩
      · exact .inl (.inr (hasFlaw_of_render inside))
      · rcases error_of_bind failed with inside | ⟨texts, -, failed⟩
        · exact .inr (flawAmong_of_renderEntries inside)
        · cases failed

end

theorem hasFlaw_of_text {v : Value} (failed : text spacing v = .error u) : v.hasFlaw u = true := by
  unfold text at failed
  cases rendered : render spacing v.opened with
  | ok text =>
    rw [rendered] at failed
    cases failed
  | error w =>
    rw [rendered] at failed
    cases failed
    exact Value.hasFlaw_of_opened (hasFlaw_of_render rendered)

end Json

namespace Value

theorem hasFlaw_of_expressionText {v : Value} (failed : v.expressionText = .error u) :
    v.hasFlaw u = true := by
  unfold expressionText at failed
  split at failed
  · cases failed
  · cases failed
  · split at failed
    · cases failed
    · next long =>
      cases failed
      simp [hasFlaw, Scalar.hasFlaw, long]
  · cases failed
  · cases failed
  · exact Json.hasFlaw_of_text failed

end Value
end Rehearsal

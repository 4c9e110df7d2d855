import Rehearsal.Number.Reading
import Rehearsal.Table
import Rehearsal.Value.Calendar

/-! The values that a workflow document, a matrix or an expression can hold. Equality is numerical
across integers, doubles and truth values, and does not depend on the order of a mapping. -/

namespace Rehearsal

/-- A value without parts. Scalars are also the keys of mappings. -/
inductive Scalar where
  | null
  | bool (b : Bool)
  | int (i : Int)
  | float (d : Double)
  | str (s : String)
  | date (d : Date)
  | moment (m : Moment)
  | bytes (b : List UInt8)
  deriving Repr, Inhabited

namespace Scalar

def number? : Scalar → Option (Int ⊕ Double)
  | bool b => some (.inl (if b then 1 else 0))
  | int i => some (.inl i)
  | float d => some (.inr d)
  | _ => none

def sameNumber : Int ⊕ Double → Int ⊕ Double → Bool
  | .inl i, .inl j => i == j
  | .inl i, .inr d => d.eqInt i
  | .inr d, .inl i => d.eqInt i
  | .inr d, .inr e => d.eq e

/-- Equality of scalars; numbers of different kinds are compared as numbers. -/
def same : Scalar → Scalar → Bool
  | null, null => true
  | str a, str b => a == b
  | date a, date b => a == b
  | moment a, moment b => a.same b
  | bytes a, bytes b => a == b
  | a, b =>
    match a.number?, b.number? with
    | some m, some n => sameNumber m n
    | _, _ => false

def isNaN : Scalar → Bool
  | float d => d.isNaN
  | _ => false

/-- Equality of keys and members: not-a-number is found again, though it equals no value. -/
instance : BEq Scalar := ⟨fun a b => same a b || (a.isNaN && b.isNaN)⟩

instance : ReflBEq Scalar where
  rfl {a} := by
    show (a.same a || (a.isNaN && a.isNaN)) = true
    cases a with
    | float d =>
      cases d.eq_self_or_isNaN with
      | inl equal => simp [same, number?, sameNumber, equal]
      | inr nan => simp [isNaN, nan]
    | _ => simp [same, number?, sameNumber, Moment.same]

theorem beq_str_iff {a : Scalar} {name : String} : (a == .str name) = true ↔ a = .str name := by
  show (a.same (.str name) || (a.isNaN && false)) = true ↔ _
  cases a <;> simp [same, number?]

end Scalar

/-- A value of a workflow document. Mappings and sets are in written order. -/
inductive Value where
  | scalar (s : Scalar)
  | list (items : List Value)
  | map (entries : List (Scalar × Value))
  | set (members : List Scalar)
  | pair (key value : Value)
  /-- A collection inside itself; its content is there to some depth. -/
  | again (content : Value)
  deriving Repr, Inhabited

abbrev Mapping := Table Scalar Value

namespace Value

@[match_pattern] abbrev null : Value := scalar .null
@[match_pattern] abbrev bool (b : Bool) : Value := scalar (.bool b)
@[match_pattern] abbrev int (i : Int) : Value := scalar (.int i)
@[match_pattern] abbrev float (d : Double) : Value := scalar (.float d)
@[match_pattern] abbrev str (s : String) : Value := scalar (.str s)

mutual

def same : Value → Value → Bool
  | scalar a, scalar b => a.same b
  | list xs, list ys => sameItems xs ys
  | map xs, map ys => xs.length == ys.length && sameEntries xs ys
  | set xs, set ys => xs.length == ys.length && xs.all fun x => ys.any (· == x)
  | pair k x, pair l y => same k l && same x y
  | _, _ => false

def sameItems : List Value → List Value → Bool
  | [], [] => true
  | x :: xs, y :: ys => same x y && sameItems xs ys
  | _, _ => false

/-- Whether each entry of the first mapping has an equal one in the second. -/
def sameEntries : List (Scalar × Value) → List (Scalar × Value) → Bool
  | [], _ => true
  | (k, x) :: xs, ys =>
    (match Table.find? k ys with
      | some y => same x y
      | none => false) && sameEntries xs ys

end

/-- Whether a value counts as present: neither null, false, zero nor empty. -/
def isPresent : Value → Bool
  | null => false
  | bool b => b
  | int i => i != 0
  | float d => d.isNonzero
  | str s => s != ""
  | scalar (.bytes b) => !b.isEmpty
  | scalar _ => true
  | list items => !items.isEmpty
  | map entries => !entries.isEmpty
  | set members => !members.isEmpty
  | pair _ _ => true
  | again content => content.isPresent

/-- A value with its content in view, also if it is a collection inside itself. -/
def opened : Value → Value
  | again content => content
  | v => v

def mapping? (v : Value) : Option Mapping :=
  match v.opened with
  | map entries => some entries
  | _ => none

/-- The value under a string key of a mapping, if the value is a mapping that has the key. -/
def field? (name : String) (v : Value) : Option Value :=
  v.mapping?.bind (Table.find? (.str name))

mutual

def isEndless : Value → Bool
  | scalar _ => false
  | list items => endlessItems items
  | map entries => endlessEntries entries
  | set _ => false
  | pair key value => key.isEndless || value.isEndless
  | again _ => true

def endlessItems : List Value → Bool
  | [] => false
  | v :: vs => v.isEndless || endlessItems vs

def endlessEntries : List (Scalar × Value) → Bool
  | [] => false
  | (_, v) :: rest => v.isEndless || endlessEntries rest

end

def kindName : Value → String
  | null => "NoneType"
  | bool _ => "bool"
  | int _ => "int"
  | float _ => "float"
  | str _ => "str"
  | scalar (.date _) => "date"
  | scalar (.moment _) => "datetime"
  | scalar (.bytes _) => "bytes"
  | list _ => "list"
  | map _ => "dict"
  | set _ => "set"
  | pair _ _ => "tuple"
  | again content => content.kindName

end Value
end Rehearsal

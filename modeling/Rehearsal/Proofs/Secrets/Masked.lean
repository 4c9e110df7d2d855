import Rehearsal.Proofs.Text.Cut
import Rehearsal.Secrets

/-! Secrets are masked one after the other, and what stands in place of one must not bring back
another. No secret without a star is left in a masked text, whatever the order of secrets of one
length: `masking_removes_secrets`. -/

namespace Rehearsal.Secrets

/-- The secrets after values were entered, one after the other. -/
def entered (values : List String) : Secrets := values.foldl (fun s value => s.register value) {}

def maskAlong (order : List String) (text : String) : String :=
  String.ofList (order.foldl
    (fun text secret => Text.replaceAll secret.toList mark.toList text) text.toList)

/-- An order in which secrets can be tried: each of them once, and no shorter one before a longer
one. -/
structure Tried (s : Secrets) (order : List String) : Prop where
  perm : order.Perm s.values
  descending : order.Pairwise fun a b => b.length ≤ a.length

instance (s : Secrets) (order : List String) : Decidable (s.Tried order) :=
  decidable_of_iff (order.Perm s.values ∧ order.Pairwise fun a b => b.length ≤ a.length)
    ⟨fun ⟨perm, descending⟩ => ⟨perm, descending⟩, fun ⟨perm, descending⟩ => ⟨perm, descending⟩⟩

theorem tried_longestFirst (s : Secrets) : s.Tried s.longestFirst where
  perm := List.mergeSort_perm ..
  descending := by
    let longer (a b : String) : Bool := decide (b.length ≤ a.length)
    have trans (a b c : String) (first : longer a b = true) (second : longer b c = true) :
        longer a c = true := by
      simp only [longer, decide_eq_true_eq] at *
      omega
    have total (a b : String) : (longer a b || longer b a) = true := by
      simp only [longer, Bool.or_eq_true, decide_eq_true_eq]
      omega
    exact (List.pairwise_mergeSort trans total s.values).imp of_decide_eq_true

theorem longestFirst_eq_values {s : Secrets}
    (falls : s.values.Pairwise fun a b => b.length ≤ a.length) : s.longestFirst = s.values :=
  List.mergeSort_of_pairwise (falls.imp fun short => decide_eq_true short)

theorem mask_eq_maskAlong (s : Secrets) (text : String) :
    s.mask text = maskAlong s.longestFirst text := rfl

/-! ### The values that are secret -/

theorem mem_register {value other : String} {s : Secrets} :
    other ∈ (s.register value).values ↔ other ∈ s.values ∨ other = value ∧ other ≠ "" := by
  unfold register
  split
  · next idle =>
    constructor
    · exact .inl
    · rintro (old | ⟨rfl, nonempty⟩)
      · exact old
      · exact idle.resolve_left nonempty
  · next fresh =>
    rw [List.mem_append, List.mem_singleton]
    constructor
    · rintro (old | rfl)
      · exact .inl old
      · exact .inr ⟨rfl, fun empty => fresh (.inl empty)⟩
    · exact Or.imp_right And.left

theorem mem_entered {values : List String} {value : String} :
    value ∈ (entered values).values ↔ value ∈ values ∧ value ≠ "" := by
  have all (s : Secrets) : value ∈ (values.foldl (fun s value => s.register value) s).values ↔
      value ∈ s.values ∨ value ∈ values ∧ value ≠ "" := by
    induction values generalizing s with
    | nil => simp
    | cons first rest ih =>
      rw [List.foldl_cons, ih, mem_register, List.mem_cons]
      grind
  rw [entered, all]
  simp

/-! ### One secret after the other -/

theorem mark_ne_nil : mark.toList ≠ [] := by decide

theorem mark_apart {word : List Char} (plain : '*' ∉ word) : ∀ c ∈ mark.toList, c ∉ word := by
  intro c member inside
  have star : ∀ c ∈ mark.toList, c = '*' := by simp [mark]
  exact plain (star c member ▸ inside)

variable {order : List String} {word : List Char} {text : String}

theorem isInfix_of_maskAlong (plain : '*' ∉ word)
    (inside : word <:+: (maskAlong order text).toList) : word <:+: text.toList := by
  rw [maskAlong, String.toList_ofList] at inside
  generalize text.toList = start at inside ⊢
  induction order generalizing start with
  | nil => exact inside
  | cons secret order ih =>
    exact Text.isInfix_of_replaceAll mark_ne_nil (mark_apart plain) (ih _ inside)

theorem not_isInfix_maskAlong {secret : String} (member : secret ∈ order)
    (plain : '*' ∉ secret.toList) (nonempty : secret ≠ "") :
    ¬secret.toList <:+: (maskAlong order text).toList := by
  obtain ⟨before, after, rfl⟩ := List.append_of_mem member
  intro inside
  have turn : maskAlong (before ++ secret :: after) text = maskAlong after (String.ofList
      (Text.replaceAll secret.toList mark.toList (maskAlong before text).toList)) := by
    simp only [maskAlong, List.foldl_append, List.foldl_cons, String.toList_ofList]
  rw [turn] at inside
  have left := isInfix_of_maskAlong plain inside
  rw [String.toList_ofList] at left
  exact Text.not_isInfix_replaceAll mark_ne_nil (mark_apart plain)
    (fun none => nonempty (String.toList_eq_nil_iff.mp none)) left

theorem not_isInfix_mask {s : Secrets} {secret : String} (member : secret ∈ s.values)
    (plain : '*' ∉ secret.toList) (nonempty : secret ≠ "") (text : String) :
    ¬secret.toList <:+: (s.mask text).toList :=
  not_isInfix_maskAlong (s.tried_longestFirst.perm.mem_iff.mpr member) plain nonempty

theorem maskAlong_eq_self (absent : ∀ secret ∈ order, ¬secret.toList <:+: text.toList) :
    maskAlong order text = text := by
  induction order with
  | nil => exact String.ofList_toList
  | cons secret order ih =>
    obtain ⟨first, others⟩ := List.forall_mem_cons.mp absent
    have same := ih others
    rw [maskAlong] at same ⊢
    rw [List.foldl_cons, Text.replaceAll_eq_self first]
    exact same

/-- Masking hides every secret without a star, in each order in which secrets can be tried; it
changes no text without secrets, and if no secret has a star, it changes no masked text. -/
theorem masking_removes_secrets (values : List String) (text : String) :
    let s := entered values
    (s.Tried s.longestFirst ∧ s.mask text = maskAlong s.longestFirst text) ∧
      ∀ order, s.Tried order →
        (∀ secret ∈ values, secret ≠ "" → '*' ∉ secret.toList →
          ¬secret.toList <:+: (maskAlong order text).toList) ∧
        ((∀ secret ∈ values, secret ≠ "" → ¬secret.toList <:+: text.toList) →
          maskAlong order text = text) ∧
        ((∀ secret ∈ values, '*' ∉ secret.toList) → ∀ again, s.Tried again →
          maskAlong again (maskAlong order text) = maskAlong order text) := by
  intro s
  refine ⟨⟨tried_longestFirst s, mask_eq_maskAlong s text⟩, ?_⟩
  intro order tried
  have listed {order : List String} (tried : s.Tried order) {secret : String} :
      secret ∈ order ↔ secret ∈ values ∧ secret ≠ "" := tried.perm.mem_iff.trans mem_entered
  have hidden (secret : String) (member : secret ∈ values) (nonempty : secret ≠ "")
      (plain : '*' ∉ secret.toList) : ¬secret.toList <:+: (maskAlong order text).toList :=
    not_isInfix_maskAlong ((listed tried).mpr ⟨member, nonempty⟩) plain nonempty
  refine ⟨hidden, ?_, ?_⟩
  · intro absent
    refine maskAlong_eq_self fun secret member => ?_
    obtain ⟨own, nonempty⟩ := (listed tried).mp member
    exact absent secret own nonempty
  · intro plain again retried
    refine maskAlong_eq_self fun secret member => ?_
    obtain ⟨own, nonempty⟩ := (listed retried).mp member
    exact hidden secret own nonempty (plain secret own)

/-- Two secrets of one length that overlap, the later one tried first. -/
theorem masking_removes_secrets_overlapping :
    (entered ["abc", "bcd"]).Tried ["bcd", "abc"] ∧
      maskAlong ["bcd", "abc"] "abcdabc" = "a******" ∧
      ¬"abc".toList <:+: (maskAlong ["bcd", "abc"] "abcdabc").toList ∧
      maskAlong ["bcd", "abc"] "ab cd" = "ab cd" ∧
      maskAlong ["abc", "bcd"] (maskAlong ["bcd", "abc"] "abcdabc") =
        maskAlong ["bcd", "abc"] "abcdabc" := by
  have late : (entered ["abc", "bcd"]).Tried ["bcd", "abc"] := by decide +kernel
  have early : (entered ["abc", "bcd"]).Tried ["abc", "bcd"] := by decide +kernel
  have masks (text : String) := (masking_removes_secrets ["abc", "bcd"] text).2 _ late
  refine ⟨late, by decide +kernel, ?_, ?_, ?_⟩
  · exact (masks _).1 "abc" (by decide) (by decide) (by decide)
  · exact (masks "ab cd").2.1 (by decide +kernel)
  · exact (masks _).2.2 (by decide) _ early

end Rehearsal.Secrets

import Rehearsal.Proofs.Secrets.Masked
import Rehearsal.Proofs.Text.Overlap

/-! Secrets of one length are masked in the order in which they were entered, and where two of them
overlap, the one that is tried first hides a part of the other. Where none overlap, all orders give
one masked text: `masking_ignores_order`. -/

namespace Rehearsal.Secrets

open Text (Overlap)

/-- That no two secrets of one length meet in a text in which the longer ones are masked: they have
no star, which masking could bring in, and overlap nowhere. -/
def Untangled (order : List String) (text : String) : Prop :=
  ∀ a ∈ order, ∀ b ∈ order, a ≠ b → a.length = b.length → '*' ∉ a.toList ∧
    ¬Overlap a.toList b.toList (maskAlong (order.filter (a.length < ·.length)) text).toList

instance (order : List String) (text : String) : Decidable (Untangled order text) := by
  unfold Untangled; infer_instance

variable {order again : List String} {a b text : String}

/-! ### Two secrets -/

theorem maskAlong_nil : maskAlong [] text = text := String.ofList_toList

theorem maskAlong_cons (a : String) (order : List String) (text : String) :
    maskAlong (a :: order) text = maskAlong order (maskAlong [a] text) := by
  simp [maskAlong]

/-- That two secrets can be masked in either order. -/
structure Apart (a b text : String) : Prop where
  level : a.length = b.length
  plain : '*' ∉ a.toList ∧ '*' ∉ b.toList
  free : ¬Overlap a.toList b.toList text.toList ∧ ¬Overlap b.toList a.toList text.toList

theorem maskAlong_comm (apart : a ≠ b → Apart a b text) :
    maskAlong [b] (maskAlong [a] text) = maskAlong [a] (maskAlong [b] text) := by
  by_cases same : a = b
  · rw [same]
  obtain ⟨level, plain, free⟩ := apart same
  simp only [maskAlong, List.foldl_cons, List.foldl_nil, String.toList_ofList]
  rw [Text.replaceAll_comm mark_ne_nil (mark_apart plain.1) (mark_apart plain.2) level
    fun _ => free]

theorem not_overlap_maskAlong (plain : '*' ∉ a.toList ∧ '*' ∉ b.toList)
    (free : ¬Overlap a.toList b.toList text.toList) (secret : String) :
    ¬Overlap a.toList b.toList (maskAlong [secret] text).toList := by
  intro overlap
  simp only [maskAlong, List.foldl_cons, List.foldl_nil, String.toList_ofList] at overlap
  exact free (overlap.of_replaceAll mark_ne_nil (mark_apart plain.1) (mark_apart plain.2))

theorem Apart.mask (apart : Apart a b text) (secret : String) :
    Apart a b (maskAlong [secret] text) where
  level := apart.level
  plain := apart.plain
  free := ⟨not_overlap_maskAlong apart.plain apart.free.1 secret,
    not_overlap_maskAlong apart.plain.symm apart.free.2 secret⟩

/-! ### All secrets -/

theorem filter_longer_eq_nil {n : Nat} (short : ∀ c ∈ order, c.length ≤ n) :
    order.filter (n < ·.length) = [] := by
  apply List.filter_eq_nil_iff.mpr
  intro c member
  have bound := short c member
  simp only [decide_eq_true_eq]
  omega

theorem maskAlong_middle {before : List String}
    (apart : ∀ b ∈ before, a ≠ b → Apart a b text) (after : List String) :
    maskAlong (before ++ a :: after) text = maskAlong (a :: (before ++ after)) text := by
  induction before generalizing text with
  | nil => rfl
  | cons b before ih =>
    obtain ⟨first, others⟩ := List.forall_mem_cons.mp apart
    have later := ih fun c member other => (others c member other).mask b
    rw [List.cons_append, maskAlong_cons, later, maskAlong_cons, ← maskAlong_comm first,
      ← maskAlong_cons, ← maskAlong_cons, List.cons_append]

theorem Untangled.apart (untangled : Untangled order text) (left : a ∈ order) (right : b ∈ order)
    (longest : ∀ c ∈ order, c.length ≤ a.length) (level : a.length = b.length) (other : a ≠ b) :
    Apart a b text := by
  have none : order.filter (a.length < ·.length) = [] := filter_longer_eq_nil longest
  have first := untangled a left b right other level
  have second := untangled b right a left (Ne.symm other) level.symm
  rw [← level] at second
  rw [none, maskAlong_nil] at first second
  exact ⟨level, ⟨first.1, second.1⟩, ⟨first.2, second.2⟩⟩

/-- Once the longest secret is masked, the others are untangled in what is left: those of its length
were so before, and for shorter ones it is one of the longer secrets. -/
theorem Untangled.tail (untangled : Untangled (a :: order) text)
    (longest : ∀ c ∈ order, c.length ≤ a.length) : Untangled order (maskAlong [a] text) := by
  intro b left c right other level
  have here := untangled b (.tail a left) c (.tail a right) other level
  have there := untangled c (.tail a right) b (.tail a left) (Ne.symm other) level.symm
  refine ⟨here.1, ?_⟩
  by_cases shorter : b.length < a.length
  · rw [List.filter_cons_of_pos (by simpa using shorter), maskAlong_cons] at here
    exact here.2
  · have none : order.filter (b.length < ·.length) = [] :=
      filter_longer_eq_nil fun d member => (longest d member).trans (not_lt.mp shorter)
    rw [List.filter_cons_of_neg (by simpa using shorter), none, maskAlong_nil] at here
    rw [none, maskAlong_nil]
    exact not_overlap_maskAlong ⟨here.1, there.1⟩ here.2 a

/-- Two orders of the same secrets, both from the longest to the shortest. The induction takes the
first secret of one order to the front of the other. -/
theorem maskAlong_eq_of_perm (same : order.Perm again)
    (falls : order.Pairwise fun a b => b.length ≤ a.length)
    (falls' : again.Pairwise fun a b => b.length ≤ a.length) (untangled : Untangled order text) :
    maskAlong order text = maskAlong again text := by
  induction order generalizing again text with
  | nil => rw [same.nil_eq]
  | cons a order ih =>
    obtain ⟨before, after, rfl⟩ := List.append_of_mem (same.subset List.mem_cons_self)
    have others : order.Perm (before ++ after) :=
      (same.trans List.perm_middle).cons_inv
    obtain ⟨longest, rest⟩ := List.pairwise_cons.mp falls
    have whole : ∀ c ∈ a :: order, c.length ≤ a.length :=
      List.forall_mem_cons.mpr ⟨le_rfl, longest⟩
    have apart (b : String) (member : b ∈ before) (other : a ≠ b) : Apart a b text := by
      have own : b ∈ order := others.mem_iff.mpr (List.mem_append_left after member)
      have above : a.length ≤ b.length :=
        (List.pairwise_append.mp falls').2.2 b member a List.mem_cons_self
      exact untangled.apart List.mem_cons_self (.tail a own) whole
        (Nat.le_antisymm above (longest b own)) other
    have moved : (before ++ after).Sublist (before ++ a :: after) :=
      List.Sublist.append_left (List.sublist_cons_self a after) before
    rw [maskAlong_middle apart after, maskAlong_cons a order, maskAlong_cons a (before ++ after)]
    exact ih others rest (falls'.sublist moved) (untangled.tail longest)

/-! ### Entered secrets -/

theorem nodup_register {s : Secrets} (once : s.values.Nodup) :
    (s.register a).values.Nodup := by
  unfold register
  split
  · exact once
  · next fresh =>
    apply List.nodup_append.mpr
    refine ⟨once, by simp, ?_⟩
    intro other member last same
    rw [List.mem_singleton.mp same]
    rintro rfl
    exact fresh (.inr member)

theorem nodup_entered (values : List String) : (entered values).values.Nodup := by
  have all (s : Secrets) (once : s.values.Nodup) :
      (values.foldl (fun s value => s.register value) s).values.Nodup := by
    induction values generalizing s with
    | nil => exact once
    | cons value values ih =>
      exact ih _ (nodup_register once)
  exact all {} List.nodup_nil

theorem perm_entered {values others : List String}
    (same : ∀ value, value ≠ "" → (value ∈ values ↔ value ∈ others)) :
    (entered values).values.Perm (entered others).values := by
  apply (List.perm_ext_iff_of_nodup (nodup_entered values) (nodup_entered others)).mpr
  intro value
  rw [mem_entered, mem_entered]
  exact and_congr_left fun nonempty => same value nonempty

/-- Two sequences that enter the same secrets mask a text alike, however secrets of one length are
ordered, if no two of them overlap in it once the longer secrets are masked. -/
theorem masking_ignores_order (values others : List String) (text : String)
    (same : ∀ value, value ≠ "" → (value ∈ values ↔ value ∈ others))
    (untangled : Untangled (entered values).longestFirst text) :
    (entered values).mask text = (entered others).mask text ∧
      ∀ order again, (entered values).Tried order → (entered others).Tried again →
        maskAlong order text = maskAlong again text := by
  have first := tried_longestFirst (entered values)
  have alike {s : Secrets} {order : List String} (tried : s.Tried order)
      (own : (entered values).values.Perm s.values) :
      (entered values).mask text = maskAlong order text :=
    maskAlong_eq_of_perm (first.perm.trans (own.trans tried.perm.symm)) first.descending
      tried.descending untangled
  refine ⟨alike (tried_longestFirst _) (perm_entered same), ?_⟩
  intro order again tried retried
  exact (alike tried (.refl _)).symm.trans (alike retried (perm_entered same))

/-- Two secrets of one length and a longer one that holds the first of them. -/
theorem masking_ignores_order_of_apart :
    Untangled (entered ["xabc", "abc", "bcd"]).longestFirst "xabcd bcdabc" ∧
      (entered ["xabc", "abc", "bcd"]).mask "xabcd bcdabc" =
        (entered ["bcd", "", "xabc", "abc", "bcd"]).mask "xabcd bcdabc" ∧
      maskAlong ["xabc", "abc", "bcd"] "xabcd bcdabc" =
        maskAlong ["xabc", "bcd", "abc"] "xabcd bcdabc" := by
  have untangled : Untangled (entered ["xabc", "abc", "bcd"]).longestFirst "xabcd bcdabc" := by
    rw [longestFirst_eq_values (by decide +kernel)]
    decide +kernel
  obtain ⟨masks, orders⟩ := masking_ignores_order ["xabc", "abc", "bcd"]
    ["bcd", "", "xabc", "abc", "bcd"] "xabcd bcdabc" (by simp; grind) untangled
  exact ⟨untangled, masks, orders _ _ (by decide +kernel) (by decide +kernel)⟩

/-- Two secrets that overlap, and one that masking another brings in. -/
theorem masking_heeds_order :
    (∀ value, value ∈ ["rez", "zce"] ↔ value ∈ ["zce", "rez"]) ∧
      (entered ["rez", "zce"]).mask "rezce" = "***ce" ∧
      (entered ["zce", "rez"]).mask "rezce" = "re***" ∧
      (entered ["ica", "*hj"]).mask "icahj" = "*****" ∧
      (entered ["*hj", "ica"]).mask "icahj" = "***hj" := by
  refine ⟨fun value => by simp [or_comm], ?_⟩
  simp only [mask_eq_maskAlong]
  repeat rw [longestFirst_eq_values (by decide +kernel)]
  decide +kernel

end Rehearsal.Secrets

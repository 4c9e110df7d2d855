import Rehearsal.Proofs.Condition.Decided
import Rehearsal.Proofs.Expression.Literal
import Rehearsal.Proofs.Expression.Leaves

/-! A value replaces its placeholder in a quoted text of a condition, escaped for the quotes, before
the condition is read. `quoted_values_are_kept` is that the text is then read with the value as it
is, and that the rest of the condition is read as if it stood alone. It is for values that begin no
placeholder: the delimiters of a placeholder in a value are taken away with those that stand outside
quotes (`quoted_value_with_a_placeholder`). -/

namespace Rehearsal.Condition

open Play Expression Rehearsal.Text

variable {frame : Frame} {s t u : Session}

theorem perform_parsed (text : List Char) (s : Session) : (parsed text).perform s =
    ((Expression.parse (String.ofList text)).mapError .parse, s) := by
  unfold parsed
  split
  · next read => rw [read, perform_pure, Except.mapError]
  · next refused => rw [refused, perform_throw, Except.mapError]

/-! ### Replacing pieces -/

theorem replaceEach_append (f : List Char → Play (List Char)) (pieces others : List Piece) :
    replaceEach f (pieces ++ others) = do
      let first ← replaceEach f pieces
      let rest ← replaceEach f others
      return first ++ rest := by
  induction pieces with
  | nil => simp [replaceEach]
  | cons piece pieces ih =>
    cases piece with
    | plain c => simp only [List.cons_append, replaceEach, ih, bind_assoc, pure_bind]
    | found w =>
      simp only [List.cons_append, replaceEach, ih, bind_assoc, pure_bind, List.append_assoc]

theorem perform_replaceEach_append {f : List Char → Play (List Char)} {pieces others : List Piece}
    {a b : List Char} (first : (replaceEach f pieces).perform s = (.ok a, t))
    (second : (replaceEach f others).perform t = (.ok b, u)) :
    (replaceEach f (pieces ++ others)).perform s = (.ok (a ++ b), u) := by
  rw [replaceEach_append, perform_bind_ok first, perform_bind_ok second]
  rfl

theorem replaceEach_plain (f : List Char → Play (List Char)) (w : List Char) :
    replaceEach f (w.map .plain) = pure w := by
  induction w with
  | nil => rfl
  | cons c w ih => simp [replaceEach, ih]

theorem perform_replaceEach_plain (f : List Char → Play (List Char)) (w : List Char)
    (s : Session) : (replaceEach f (w.map .plain)).perform s = (.ok w, s) := by
  rw [replaceEach_plain]
  rfl

theorem perform_replaceEach_of_fixed {f : List Char → Play (List Char)} {pieces : List Piece}
    (fixed : ∀ w, .found w ∈ pieces → ∀ s, (f w).perform s = (.ok w, s)) (s : Session) :
    (replaceEach f pieces).perform s = (.ok (pieces.flatMap Piece.chars), s) := by
  induction pieces with
  | nil => rfl
  | cons piece pieces ih =>
    have later := ih fun w member => fixed w (.tail piece member)
    rw [replaceEach.eq_def]
    cases piece with
    | plain c =>
      dsimp only
      rw [perform_bind_ok later]
      rfl
    | found w =>
      dsimp only
      rw [perform_bind_ok (fixed w List.mem_cons_self s), perform_bind_ok later]
      rfl

def spliceLiteral (frame : Frame) (literal : List Char) : Play (List Char) :=
  replaceEach (spliced frame literal.head?) (cut Placeholder.length? literal)

theorem perform_spliceLiteral_of_isFree {w : List Char} (free : Placeholder.IsFree w)
    (s : Session) : (spliceLiteral frame w).perform s = (.ok w, s) := by
  rw [spliceLiteral, Placeholder.cut_eq_plain free]
  exact perform_replaceEach_plain _ w s

theorem splice_eq (frame : Frame) (text : List Char) :
    splice frame text = replaceEach (spliceLiteral frame) (cut Quoted.length? text) := rfl

theorem perform_splice_of_isFree {w : List Char} (free : Placeholder.IsFree w) (s : Session) :
    (splice frame w).perform s = (.ok w, s) := by
  rw [splice_eq]
  have fixed : ∀ own, .found own ∈ cut Quoted.length? w →
      ∀ s, (spliceLiteral frame own).perform s = (.ok own, s) := by
    intro own member s
    obtain ⟨before, rest, n, rfl, -, rfl⟩ := exists_of_found member
    refine perform_spliceLiteral_of_isFree (fun inside => free (inside.trans ?_)) s
    exact (List.take_prefix n rest).isInfix.trans (List.suffix_append before rest).isInfix
  have replaced := perform_replaceEach_of_fixed fixed s
  rwa [flatMap_chars_cut fun s n found => (Quoted.length?_bounds found).1] at replaced

/-! ### A placeholder in a quoted text -/

/-- That a reference is on record and has a value. -/
structure Gives (frame : Frame) (path : String) (s t : Session) (v : Value) : Prop where
  known : missingAt? s.context frame.owner.stepsOf? path = none
  found : ∃ operand, operand.value = v ∧ (lookup frame path).perform s = (.ok operand, t)

theorem perform_spliced {q : Quote} {path value : String} {v : Value}
    (canonical : Placeholder.IsCanonical path)
    (reference : Expression.parse path = .ok (.reference path))
    (given : Gives frame path s t v) (told : v.expressionText = .ok value) :
    (spliced frame (some q.mark) (Placeholder.of path)).perform s =
      (.ok (q.escape value.toList), t) := by
  obtain ⟨operand, rfl, found⟩ := given.found
  have known : missing? s.context frame.owner.stepsOf? (.reference path) = none := by
    simp [missing?, Expr.references, given.known]
  rw [spliced, Placeholder.expression_of canonical, parsed, String.ofList_toList, reference]
  dsimp only
  rw [perform_pure_bind, perform_get_bind, known]
  have evaluated : (evaluate frame (.reference path)).perform s = (.ok operand, t) := found
  have stated : (fit operand.value.expressionText).perform t = (.ok value, t) := by
    rw [told, perform_fit]
    rfl
  dsimp only
  rw [perform_bind_ok evaluated, perform_bind_ok stated, perform_pure]
  cases q <;> rfl

/-! ### Comparisons of texts -/

def verdict (op : Operator) (s t : String) : Bool :=
  match op with
  | .ne => s != t
  | .order o => o.ofTexts s t
  | _ => s == t

theorem lexed_operator (op : Operator) {position : Nat} {s : List Char} {ts : List Token}
    (rest : Lexed (position + 1 + op.text.toList.length + 1) s ts) :
    Lexed position (' ' :: op.text.toList ++ ' ' :: s)
      (⟨.operator, op.text, position + 1⟩ :: ts) := by
  obtain ⟨c, w, text, visible, found⟩ : ∃ c w, op.text.toList = c :: w ∧ isBlank c = false ∧
      ∀ s, lexeme? (c :: w ++ ' ' :: s) = some (.operator, (c :: w).length) := by
    cases op with
    | order o => cases o <;> exact ⟨_, _, rfl, by decide, fun _ => rfl⟩
    | _ => exact ⟨_, _, rfl, by decide, fun _ => rfl⟩
  rw [text] at rest
  have same : op.text = String.ofList (c :: w) := by rw [← text, String.ofList_toList]
  rw [text, same]
  exact .blank (by decide) (.token visible (found s) (.blank (by decide) rest))

theorem parseTokens_comparison (left right : Token) (first : left.kind = .quoted)
    (second : right.kind = .quoted) (position : Nat) {op : Operator}
    (comparing : op ≠ .or ∧ op ≠ .and) :
    parseTokens [left, ⟨.operator, op.text, position⟩, right] = .ok (.binary op
      (.literal (.str (String.ofList (Quoted.unquote left.text.toList))))
      (.literal (.str (String.ofList (Quoted.unquote right.text.toList))))) := by
  obtain ⟨_, a, i⟩ := left
  obtain ⟨_, b, j⟩ := right
  cases first
  cases second
  cases op with
  | or => exact absurd rfl comparing.1
  | and => exact absurd rfl comparing.2
  | order o => cases o <;> rfl
  | _ => rfl

theorem perform_decideExpr_comparison {op : Operator} (comparing : op ≠ .or ∧ op ≠ .and)
    (text : List Char) (a b : String) (s : Session) :
    (decideExpr frame text (.binary op (.literal (.str a)) (.literal (.str b)))).perform s =
      (.ok (verdict op a b), s) := by
  have evaluated : (evaluate frame
      (.binary op (.literal (.str a)) (.literal (.str b)))).perform s =
        (.ok (.fresh (.bool (verdict op a b))), s) := by
    cases op with
    | or => exact absurd rfl comparing.1
    | and => exact absurd rfl comparing.2
    | order o => cases o <;> rfl
    | _ => rfl
  have known : missing? s.context frame.owner.stepsOf?
      (.binary op (.literal (.str a)) (.literal (.str b))) = none := rfl
  rw [decideExpr, perform_get_bind, known]
  dsimp only
  rw [perform_bind_ok (perform_attempt_ok evaluated)]
  rfl

/-- A quoted text with the placeholder of a reference between two plain texts. -/
structure Quotation where
  quote : Quote
  before : List Char
  after : List Char
  path : String
  plain : ∀ c ∈ before ++ after, c ≠ '\'' ∧ c ≠ '"' ∧ c ≠ '\\'
  before_free : Placeholder.IsFree before
  after_free : Placeholder.IsFree after
  reference : Expression.parse path = .ok (.reference path)

namespace Quotation

variable {quotation : Quotation} {v : Value} {value : String}

def text (quotation : Quotation) : List Char :=
  quotation.quote.literal
    (quotation.before ++ Placeholder.of quotation.path ++ quotation.after)

def filled (quotation : Quotation) (value : String) : List Char :=
  quotation.before ++ value.toList ++ quotation.after

def written (quotation : Quotation) (value : String) : List Char :=
  quotation.quote.literal (quotation.quote.escape (quotation.filled value))

theorem isPath (quotation : Quotation) : IsPath quotation.path.toList :=
  references_of_parse quotation.reference _ List.mem_cons_self

theorem isCanonical (quotation : Quotation) : Placeholder.IsCanonical quotation.path := by
  refine Placeholder.isCanonical_of_isPath quotation.isPath fun empty => ?_
  have read := quotation.reference
  rw [String.toList_eq_nil_iff.mp empty] at read
  cases read

theorem escape_eq_self (quotation : Quotation) : quotation.quote.escape
    (quotation.before ++ Placeholder.of quotation.path ++ quotation.after) =
      quotation.before ++ Placeholder.of quotation.path ++ quotation.after := by
  have path : ∀ c ∈ Placeholder.of quotation.path, c ≠ '\'' ∧ c ≠ '"' ∧ c ≠ '\\' := by
    intro c member
    have sides : c ∈ Placeholder.opening ++ ' ' :: Placeholder.closing ∨
        c ∈ quotation.path.toList := by
      simp only [Placeholder.of, List.mem_append, List.mem_cons] at member ⊢
      tauto
    have known : ∀ c ∈ Placeholder.opening ++ ' ' :: Placeholder.closing,
        c ≠ '\'' ∧ c ≠ '"' ∧ c ≠ '\\' := by
      simp [Placeholder.opening, Placeholder.closing]
    rcases sides with own | part
    · exact known c own
    · refine ⟨?_, ?_, ?_⟩
      all_goals
        rintro rfl
        exact absurd (quotation.isPath.isPartChar_or part) (by decide)
  refine Quote.escape_eq_self _ fun c member => ?_
  rcases List.mem_append.mp member with first | last
  · rcases List.mem_append.mp first with own | own
    · exact quotation.plain c (List.mem_append_left _ own)
    · exact path c own
  · exact quotation.plain c (List.mem_append_right _ last)

theorem cut_text (quotation : Quotation) : cut Placeholder.length? quotation.text =
    (quotation.quote.mark :: quotation.before).map .plain ++
      .found (Placeholder.of quotation.path) ::
        (quotation.after ++ [quotation.quote.mark]).map .plain := by
  have first : Placeholder.IsFree (quotation.quote.mark :: quotation.before) :=
    Quote.isFree_append_mark Placeholder.isFree_nil quotation.before_free
  have last : Placeholder.IsFree (quotation.after ++ [quotation.quote.mark]) :=
    Quote.isFree_append_mark quotation.after_free Placeholder.isFree_nil
  have text : quotation.text = (quotation.quote.mark :: quotation.before) ++
      (Placeholder.of quotation.path ++ (quotation.after ++ [quotation.quote.mark])) := by
    simp [Quotation.text, Quote.literal]
  rw [text, Placeholder.cut_of_isFree first, cut_append_of_found (Placeholder.of_ne_nil _)
    (Placeholder.length?_of quotation.isCanonical _), Placeholder.cut_eq_plain last]
  rintro c ⟨⟩
  rfl

theorem written_eq (quotation : Quotation) (value : String) : quotation.written value =
    quotation.quote.mark :: quotation.before ++
      (quotation.quote.escape value.toList ++ (quotation.after ++ [quotation.quote.mark])) := by
  have before : quotation.quote.escape quotation.before = quotation.before :=
    Quote.escape_eq_self _ fun c own => quotation.plain c (List.mem_append_left _ own)
  have after : quotation.quote.escape quotation.after = quotation.after :=
    Quote.escape_eq_self _ fun c own => quotation.plain c (List.mem_append_right _ own)
  rw [written, filled, Quote.escape_append, Quote.escape_append, before, after]
  simp [Quote.literal]

theorem perform_spliceLiteral (given : Gives frame quotation.path s t v)
    (told : v.expressionText = .ok value) :
    (spliceLiteral frame quotation.text).perform s = (.ok (quotation.written value), t) := by
  have replaced := perform_spliced (q := quotation.quote) quotation.isCanonical
    quotation.reference given told
  have later : (replaceEach (spliced frame (some quotation.quote.mark))
      (.found (Placeholder.of quotation.path) ::
        (quotation.after ++ [quotation.quote.mark]).map .plain)).perform s =
      (.ok (quotation.quote.escape value.toList ++ (quotation.after ++ [quotation.quote.mark])),
        t) := by
    rw [replaceEach.eq_def]
    dsimp only
    rw [perform_bind_ok replaced, perform_bind_ok (perform_replaceEach_plain _ _ t)]
    rfl
  rw [spliceLiteral, cut_text, written_eq]
  exact perform_replaceEach_append (perform_replaceEach_plain _ _ s) later

/-- Texts that can stand around a quoted text: they do not run into its quotes. -/
structure Around (quote : Quote) (left right : List Char) : Prop where
  lexed : ∃ ts, Lexed 0 left ts
  apart : quote.Apart left
  ends : quote = .single → ∀ c ∈ right.head?, c ≠ '\''

/-- Texts that stand around a filled text of some length: they are read as tokens and begin no
placeholder. -/
structure Settled (quote : Quote) (length : Nat) (left right : List Char)
    (before after : List Token) : Prop extends Around quote left right where
  left_lexed : Lexed 0 left before
  right_lexed : Lexed (left.length + length) right after
  left_free : Placeholder.IsFree left
  right_free : Placeholder.IsFree right

def token (quotation : Quotation) (value : String) (position : Nat) : Token :=
  ⟨.quoted, String.ofList (quotation.written value), position⟩

theorem unquote_token (quotation : Quotation) (value : String) (position : Nat) :
    Quoted.unquote (quotation.token value position).text.toList = quotation.filled value := by
  rw [token, String.toList_ofList, written, Quote.unquote_literal]

variable {left right left' right' : List Char} {before after : List Token} {s' u : Session}

theorem perform_splice (given : Gives frame quotation.path s t v)
    (told : v.expressionText = .ok value) (around : Around quotation.quote left right)
    (first : (splice frame left).perform s' = (.ok left', s))
    (last : (splice frame right).perform t = (.ok right', u)) :
    (splice frame (left ++ (quotation.text ++ right))).perform s' =
      (.ok (left' ++ (quotation.written value ++ right')), u) := by
  have pieces : cut Quoted.length? (left ++ (quotation.text ++ right)) =
      cut Quoted.length? left ++ .found quotation.text :: cut Quoted.length? right := by
    -- Quoted texts are found from the left, and the tokens of `left` leave none of them open.
    obtain ⟨ts, lexed⟩ := around.lexed
    have own := Quote.cut_literal around.ends (s :=
      quotation.before ++ Placeholder.of quotation.path ++ quotation.after)
    rw [escape_eq_self] at own
    exact (lexed.cut_append around.apart _).trans (congrArg _ own)
  rw [splice_eq] at first last ⊢
  have later : (replaceEach (spliceLiteral frame)
      (.found quotation.text :: cut Quoted.length? right)).perform s =
        (.ok (quotation.written value ++ right'), u) := by
    rw [replaceEach.eq_def]
    dsimp only
    rw [perform_bind_ok (perform_spliceLiteral given told), perform_bind_ok last]
    rfl
  rw [pieces]
  exact perform_replaceEach_append first later

theorem tokenize_written (quotation : Quotation) (value : String)
    (settled : Settled quotation.quote (quotation.written value).length left right before after) :
    tokenize (String.ofList (left ++ (quotation.written value ++ right))) =
      .ok (before ++ quotation.token value left.length :: after) := by
  have later : Lexed left.length (quotation.written value ++ right)
      (quotation.token value left.length :: after) :=
    Quote.lexed_literal settled.ends settled.right_lexed
  rw [tokenize_iff, String.toList_ofList]
  exact settled.left_lexed.append settled.apart (by rwa [Nat.zero_add])

/-- A condition with a quoted text is read as its filled text is written, if that begins no
placeholder. -/
theorem perform_expression (given : Gives frame quotation.path s t v)
    (told : v.expressionText = .ok value) (free : Placeholder.IsFree (quotation.filled value))
    (around : Around quotation.quote left right)
    (first : (splice frame left).perform s' = (.ok left', s))
    (last : (splice frame right).perform t = (.ok right', u))
    (settled : Settled quotation.quote (quotation.written value).length left' right'
      before after) :
    (expression frame (left ++ (quotation.text ++ right))).perform s' =
      ((parseTokens (before ++ quotation.token value left'.length :: after)).mapError .parse,
        u) := by
  -- What is spliced begins no placeholder any more, so unwrapping takes nothing away.
  have unwrapped : Placeholder.unwrap (left' ++ (quotation.written value ++ right')) =
      left' ++ (quotation.written value ++ right') :=
    Placeholder.unwrap_of_isFree
      (Quote.isFree_append_literal settled.left_free free settled.right_free)
  rw [expression, perform_bind_ok (perform_splice given told around first last), unwrapped,
    perform_parsed, Expression.parse, quotation.tokenize_written value settled]
  rfl

/-- The comparison of the text with an expected one, as it stands in a condition. -/
def comparison (quotation : Quotation) (op : Operator) (expected : List Char) : List Char :=
  quotation.text ++
    ' ' :: op.text.toList ++ ' ' :: quotation.quote.literal (quotation.quote.escape expected)

theorem settled_nil (quotation : Quotation) (value : String) :
    Settled quotation.quote (quotation.written value).length [] [] [] [] where
  lexed := ⟨_, .nil 0⟩
  apart := nofun
  ends := nofun
  left_lexed := .nil 0
  right_lexed := .nil _
  left_free := Placeholder.isFree_nil
  right_free := Placeholder.isFree_nil

def expectedToken (quotation : Quotation) (expected : List Char) (position : Nat) : Token :=
  ⟨.quoted, String.ofList (quotation.quote.literal (quotation.quote.escape expected)), position⟩

theorem settled_comparison (quotation : Quotation) (value : String) (op : Operator)
    {expected : List Char} (free : Placeholder.IsFree expected) :
    ∃ n m, Settled quotation.quote (quotation.written value).length []
      (' ' :: op.text.toList ++ ' ' :: quotation.quote.literal (quotation.quote.escape expected))
      [] [⟨.operator, op.text, n⟩, quotation.expectedToken expected m] := by
  have last (position : Nat) :
      Lexed position (quotation.quote.literal (quotation.quote.escape expected))
        [quotation.expectedToken expected position] := by
    have lexed : Lexed position (quotation.quote.literal (quotation.quote.escape expected) ++ [])
        [quotation.expectedToken expected position] :=
      quotation.quote.lexed_literal (fun _ => nofun) (.nil _)
    rwa [List.append_nil] at lexed
  have sign : Placeholder.IsFree (' ' :: op.text.toList ++ [' ']) := by
    cases op with
    | order o => cases o <;> decide
    | _ => decide
  refine ⟨_, _, ⟨⟨_, .nil 0⟩, nofun, ?_⟩, .nil 0, lexed_operator op (last _),
    Placeholder.isFree_nil, ?_⟩
  · rintro - c ⟨⟩
    decide
  · have whole := Quote.isFree_append_literal (q := quotation.quote) sign free
      Placeholder.isFree_nil
    rwa [List.append_nil, List.append_assoc] at whole

theorem trim_comparison (quotation : Quotation) (op : Operator) (expected : List Char) :
    trim (quotation.comparison op expected) = quotation.comparison op expected := by
  refine trim_eq_self ?_ ?_
  · rintro c ⟨⟩
    exact quotation.quote.visible
  · intro c last
    have ends : quotation.comparison op expected = quotation.text ++ ' ' :: op.text.toList ++
        ' ' :: quotation.quote.mark :: quotation.quote.escape expected ++
          [quotation.quote.mark] := by
      simp [comparison, Quote.literal]
    rw [ends, List.getLast?_concat] at last
    obtain rfl := Option.some.inj last
    exact quotation.quote.visible

theorem perform_holds_comparison (given : Gives frame quotation.path s t v)
    (told : v.expressionText = .ok value) (free : Placeholder.IsFree (quotation.filled value))
    {op : Operator} (comparing : op ≠ .or ∧ op ≠ .and) {expected : List Char}
    (expected_free : Placeholder.IsFree expected) :
    (holds frame (.str (String.ofList (quotation.comparison op expected)))).perform s =
      (.ok (verdict op (String.ofList (quotation.filled value)) (String.ofList expected)), t) := by
  obtain ⟨n, m, settled⟩ := quotation.settled_comparison value op expected_free
  have stated : expressionText? (.str (String.ofList (quotation.comparison op expected))) =
      some (quotation.comparison op expected) := by
    simp only [expressionText?, Value.plain, Scalar.plain]
    rw [String.toList_ofList, trim_comparison]
    rfl
  have compared := parseTokens_comparison (quotation.token value 0)
    (quotation.expectedToken expected m) rfl rfl n comparing
  rw [quotation.unquote_token, expectedToken, String.toList_ofList,
    Quote.unquote_literal] at compared
  have read := perform_expression given told free settled.toAround
    (perform_splice_of_isFree settled.left_free s)
    (perform_splice_of_isFree settled.right_free t) settled
  rw [List.nil_append, List.nil_append, List.length_nil, expectedToken, compared] at read
  rw [perform_holds_of_text stated, decideText, comparison, List.append_assoc,
    perform_bind_ok (perform_attempt_ok read)]
  exact perform_decideExpr_comparison comparing _ _ _ _

end Quotation

/-- A quoted text with a placeholder stands for the text with the value in place of it, whatever
the value is, if that begins no placeholder: alone, compared with any text, and among any other
tokens of a condition, which stay what they are. -/
theorem quoted_values_are_kept (quotation : Quotation) {v : Value} {value : String}
    (given : Gives frame quotation.path s t v) (told : v.expressionText = .ok value)
    (free : Placeholder.IsFree (quotation.filled value)) :
    (expression frame quotation.text).perform s =
        (.ok (.literal (.str (String.ofList (quotation.filled value)))), t) ∧
      (∀ op expected, op ≠ .or ∧ op ≠ .and → Placeholder.IsFree expected →
        (holds frame (.str (String.ofList (quotation.comparison op expected)))).perform s =
          (.ok (verdict op (String.ofList (quotation.filled value)) (String.ofList expected)),
            t)) ∧
      ∀ left right left' right' before after s' u,
        Quotation.Around quotation.quote left right →
        (splice frame left).perform s' = (.ok left', s) →
        (splice frame right).perform t = (.ok right', u) →
        Quotation.Settled quotation.quote (quotation.written value).length left' right'
          before after →
        ∃ token : Token, token.kind = .quoted ∧
          Quoted.unquote token.text.toList = quotation.filled value ∧
          (expression frame (left ++ (quotation.text ++ right))).perform s' =
            ((parseTokens (before ++ token :: after)).mapError .parse, u) := by
  refine ⟨?_, ?_, ?_⟩
  · have settled := quotation.settled_nil value
    have alone := Quotation.perform_expression given told free settled.toAround
      (perform_splice_of_isFree Placeholder.isFree_nil s)
      (perform_splice_of_isFree Placeholder.isFree_nil t) settled
    have own : parseTokens [quotation.token value 0] = .ok (.literal (.str (String.ofList
        (Quoted.unquote (quotation.token value 0).text.toList)))) := rfl
    rw [List.nil_append, List.append_nil] at alone
    rw [alone, ← quotation.unquote_token value 0]
    exact congrArg (fun result => (Except.mapError Fault.parse result, t)) own
  · intro op expected comparing expected_free
    exact Quotation.perform_holds_comparison given told free comparing expected_free
  · intro left right left' right' before after s' u around first last settled
    exact ⟨_, rfl, quotation.unquote_token value _,
      Quotation.perform_expression given told free around first last settled⟩

/-- A text with a reference to the one binding of `boundFrame`, in single quotes. -/
def bound : Quotation where
  quote := .single
  before := ['v']
  after := []
  path := "matrix.n"
  plain := by simp
  before_free := by decide
  after_free := Placeholder.isFree_nil
  reference := by
    have tokens : tokenize "matrix.n" = .ok [⟨.name, "matrix.n", 0⟩] := rfl
    rw [Expression.parse, tokens]
    rfl

theorem gives_bound (value : Value) : Gives (boundFrame value) bound.path {} {} value where
  known := show missingAt? {} none "matrix.n" = none by decide +kernel
  found := ⟨⟨value, some "matrix.n"⟩, rfl, rfl⟩

/-- An apostrophe in a value does not end the text. -/
theorem quoted_values_are_kept_apostrophe :
    (holds (boundFrame (.str "it's"))
      (.str (String.ofList (bound.comparison .eq "vit's".toList)))).perform {} = (.ok true, {}) :=
  (quoted_values_are_kept bound (gives_bound (.str "it's")) rfl (by decide)).2.1 .eq
    "vit's".toList (by decide) (by decide)

/-- A placeholder in a value is undone, with which the text becomes another one. -/
theorem quoted_value_with_a_placeholder :
    ((holds (boundFrame (.str "$\x7b\x7b x \x7d\x7d"))
      (.str (String.ofList (bound.comparison .eq "vx".toList)))).perform {}).1.toOption =
        some true ∧
      bound.filled "$\x7b\x7b x \x7d\x7d" ≠ "vx".toList ∧
      Gives (boundFrame (.str "$\x7b\x7b x \x7d\x7d")) bound.path {} {}
        (.str "$\x7b\x7b x \x7d\x7d") :=
  ⟨by decide +kernel, by decide, gives_bound _⟩

end Rehearsal.Condition

import Rehearsal.Text.Bytes

/-! A text that is written as UTF-8 is decoded to itself: `decode_toUTF8`. A part of it in which no
line ends is then read as it is (`unifyLineEnds_append`). -/

namespace Rehearsal.Text

/-! ### Sequences of bytes -/

section

variable {byte bits low high following : Nat} {bytes : List UInt8}

theorem decodeFrom_of_ascii (ascii : byte < 0x80) :
    decodeFrom .start (UInt8.ofNat byte :: bytes) =
      Char.ofNat byte :: decodeFrom .start bytes := by
  have whole : (UInt8.ofNat byte).toNat = byte := UInt8.toNat_ofNat_of_lt' (show _ < 256 by omega)
  rw [decodeFrom, readByte, whole, startByte, if_pos ascii]
  rfl

theorem decodeFrom_of_lead (starts : 0x80 ≤ byte ∧ byte < 0x100)
    (leads : lead? byte = some ⟨following, bits, low, high⟩) :
    decodeFrom .start (UInt8.ofNat byte :: bytes) =
      decodeFrom (.inside following bits low high) bytes := by
  have whole : (UInt8.ofNat byte).toNat = byte := UInt8.toNat_ofNat_of_lt' starts.2
  rw [decodeFrom, readByte, whole, startByte, if_neg (by omega), leads]
  rfl

theorem decodeFrom_of_more (within : low ≤ byte + 0x80 ∧ byte + 0x80 ≤ high) (tail : byte < 64) :
    decodeFrom (.inside (following + 2) bits low high) (UInt8.ofNat (byte + 0x80) :: bytes) =
      decodeFrom (.inside (following + 1) (bits * 64 + byte) 0x80 0xbf) bytes := by
  have whole : (UInt8.ofNat (byte + 0x80)).toNat = byte + 0x80 :=
    UInt8.toNat_ofNat_of_lt' (show _ < 256 by omega)
  have own : (byte + 0x80) % 64 = byte := by omega
  rw [decodeFrom, readByte, whole, if_pos within, own]
  dsimp only
  rw [if_neg (by omega)]
  rfl

theorem decodeFrom_of_last (within : low ≤ byte + 0x80 ∧ byte + 0x80 ≤ high) (tail : byte < 64) :
    decodeFrom (.inside 1 bits low high) (UInt8.ofNat (byte + 0x80) :: bytes) =
      Char.ofNat (bits * 64 + byte) :: decodeFrom .start bytes := by
  have whole : (UInt8.ofNat (byte + 0x80)).toNat = byte + 0x80 :=
    UInt8.toNat_ofNat_of_lt' (show _ < 256 by omega)
  have own : (byte + 0x80) % 64 = byte := by omega
  rw [decodeFrom, readByte, whole, if_pos within, own]
  rfl

end

/-! ### Characters -/

theorem lead?_of_two {n : Nat} (least : 0x80 ≤ n) (most : n ≤ 0x7ff) :
    lead? (n / 64 + 0xc0) = some ⟨1, n / 64, 0x80, 0xbf⟩ := by
  have own : n / 64 + 0xc0 - 0xc0 = n / 64 := by omega
  rw [lead?, if_pos (by omega), own]

/-- The first of three bytes. The second one tells a character that is neither short enough for two
bytes nor a surrogate. -/
theorem exists_lead_of_three {n : Nat} (least : 0x800 ≤ n) (most : n ≤ 0xffff)
    (valid : n < 0xd800 ∨ 0xdfff < n) : ∃ low high,
      lead? (n / 4096 + 0xe0) = some ⟨2, n / 4096, low, high⟩ ∧
        low ≤ n / 64 % 64 + 0x80 ∧ n / 64 % 64 + 0x80 ≤ high := by
  have two : ¬(0xc2 ≤ n / 4096 + 0xe0 ∧ n / 4096 + 0xe0 ≤ 0xdf) := by omega
  rw [lead?, if_neg two]
  by_cases first : n / 4096 = 0
  · rw [first, if_pos rfl]
    exact ⟨0xa0, 0xbf, rfl, by omega, by omega⟩
  · rw [if_neg (by omega)]
    by_cases surrogate : n / 4096 = 0xd
    · rw [surrogate, if_pos rfl]
      exact ⟨0x80, 0x9f, rfl, by omega, by omega⟩
    · have own : n / 4096 + 0xe0 - 0xe0 = n / 4096 := by omega
      rw [if_neg (by omega), if_pos (by omega), own]
      exact ⟨0x80, 0xbf, rfl, by omega, by omega⟩

/-- The first of four bytes. The second one tells a character that is not short enough for three
bytes. -/
theorem exists_lead_of_four {n : Nat} (least : 0x10000 ≤ n) (most : n < 0x110000) :
    ∃ low high, lead? (n / 262144 + 0xf0) = some ⟨3, n / 262144, low, high⟩ ∧
      low ≤ n / 4096 % 64 + 0x80 ∧ n / 4096 % 64 + 0x80 ≤ high := by
  obtain first | inner | last : n / 262144 = 0 ∨ (1 ≤ n / 262144 ∧ n / 262144 ≤ 3) ∨
      n / 262144 = 4 := by omega
  · rw [first]
    exact ⟨0x90, 0xbf, rfl, by omega, by omega⟩
  · have own : n / 262144 + 0xf0 - 0xf0 = n / 262144 := by omega
    rw [lead?, if_neg (by omega), if_neg (by omega), if_neg (by omega), if_neg (by omega),
      if_neg (by omega), if_pos (by omega), own]
    exact ⟨0x80, 0xbf, rfl, by omega, by omega⟩
  · rw [last]
    exact ⟨0x80, 0x8f, rfl, by omega, by omega⟩

/-- The bytes of a character are decoded to it. Each of them adds six bits to those before it. -/
theorem decodeFrom_utf8EncodeChar (c : Char) (bytes : List UInt8) :
    decodeFrom .start (String.utf8EncodeChar c ++ bytes) = c :: decodeFrom .start bytes := by
  have valid : c.val.toNat < 0xd800 ∨ 0xdfff < c.val.toNat ∧ c.val.toNat < 0x110000 := c.valid
  have own : Char.ofNat c.val.toNat = c := Char.ofNat_toNat c
  rw [String.utf8EncodeChar]
  generalize c.val.toNat = n at valid own
  -- one case for each number of bytes
  split
  · next short =>
    rw [List.singleton_append, decodeFrom_of_ascii (by omega), own]
  split
  · next least most =>
    have bits : n / 64 % 32 = n / 64 := by omega
    have whole : n / 64 * 64 + n % 64 = n := by omega
    rw [bits, List.cons_append, List.singleton_append,
      decodeFrom_of_lead (by omega) (lead?_of_two (by omega) most),
      decodeFrom_of_last (by omega) (by omega), whole, own]
  split
  · next least most =>
    have bits : n / 4096 % 16 = n / 4096 := by omega
    have whole : (n / 4096 * 64 + n / 64 % 64) * 64 + n % 64 = n := by omega
    obtain ⟨low, high, leads, within⟩ :=
      exists_lead_of_three (n := n) (by omega) most (by omega)
    rw [bits, List.cons_append, List.cons_append, List.singleton_append,
      decodeFrom_of_lead (by omega) leads, decodeFrom_of_more within (by omega),
      decodeFrom_of_last (by omega) (by omega), whole, own]
  · next least =>
    have bits : n / 262144 % 8 = n / 262144 := by omega
    have whole : ((n / 262144 * 64 + n / 4096 % 64) * 64 + n / 64 % 64) * 64 + n % 64 = n := by
      omega
    obtain ⟨low, high, leads, within⟩ := exists_lead_of_four (n := n) (by omega) (by omega)
    rw [bits, List.cons_append, List.cons_append, List.cons_append, List.singleton_append,
      decodeFrom_of_lead (by omega) leads, decodeFrom_of_more within (by omega),
      decodeFrom_of_more (by omega) (by omega), decodeFrom_of_last (by omega) (by omega), whole,
      own]

theorem decode_flatMap_utf8EncodeChar (s : List Char) :
    decode (s.flatMap String.utf8EncodeChar) = s := by
  induction s with
  | nil => rfl
  | cons c s ih => exact (decodeFrom_utf8EncodeChar c _).trans (congrArg _ ih)

theorem decode_toUTF8 (s : List Char) : decode (String.ofList s).toUTF8.data.toList = s :=
  (congrArg decode List.toList_data_toByteArray).trans (decode_flatMap_utf8EncodeChar s)

/-! ### Line ends -/

/-- That no line ends inside a text. -/
structure Unbroken (s : List Char) : Prop where
  feed : '\n' ∉ s
  back : '\r' ∉ s

/-- The ways in which a line can end. -/
inductive LineEnd where
  | lf
  | crlf
  | cr
  deriving DecidableEq, Repr

def LineEnd.chars : LineEnd → List Char
  | lf => ['\n']
  | crlf => ['\r', '\n']
  | cr => ['\r']

theorem Unbroken.append {s t : List Char} (first : Unbroken s) (second : Unbroken t) :
    Unbroken (s ++ t) :=
  ⟨fun member => (List.mem_append.mp member).elim first.feed second.feed,
    fun member => (List.mem_append.mp member).elim first.back second.back⟩

theorem unifyLineEnds_append {s : List Char} (whole : Unbroken s) (rest : List Char) :
    unifyLineEnds (s ++ rest) = s ++ unifyLineEnds rest := by
  induction s with
  | nil => rfl
  | cons c s ih =>
    obtain ⟨feed, back⟩ := whole
    rw [List.mem_cons, not_or] at feed back
    have other : c ≠ '\r' := Ne.symm back.1
    rw [List.cons_append, unifyLineEnds, ih ⟨feed.2, back.2⟩, List.cons_append]
    · exact fun _ same => absurd same other
    · exact other

end Rehearsal.Text

import Mathlib.Data.List.Basic
import Backfield.Text.Utf8

/-!
# Decoding what has been encoded

The bytes of a text are decoded to the text, less a byte order mark in front of it.  So bytes that
encode some text never have a fault.

* `decodeFrom_two`, `decodeFrom_three` and `decodeFrom_four` say what becomes of the bytes of one
  character, by the range of the first one, and `decodeFrom_ofNat_two`, `decodeFrom_ofNat_three` and
  `decodeFrom_ofNat_four` that the bytes of a number give it back.
* `decodeFrom_utf8EncodeChar` is the step over a character, and `decodeFrom_encode` the run over a
  text.
* `decode_encode` is the result.
-/

namespace Backfield.Text.Utf8

/-! ## The bytes of one character -/

section

variable {a b c d : UInt8} (position : Nat) (rest : List UInt8)

theorem decodeFrom_one (ha : a.toNat < 0x80) :
    decodeFrom position (a :: rest) =
      (decodeFrom (position + 1) rest).map (Char.ofNat a.toNat :: ·) := by
  have hless : a < 0x80 := by simpa [UInt8.lt_iff_toNat_lt] using ha
  rw [decodeFrom.eq_def]
  exact if_pos hless

theorem decodeFrom_two (ha : 0xc2 ≤ a.toNat) (ha' : a.toNat < 0xe0)
    (hb : isContinuation b = true) :
    decodeFrom position (a :: b :: rest) =
      (decodeFrom (position + 2) rest).map
        (Char.ofNat ((a.toNat % 32) * 64 + bits b) :: ·) := by
  have hfirst : ¬a.toNat < 0x80 ∧ ¬a.toNat < 0xc2 ∧ ¬0xf4 < a.toNat := by omega
  simp [decodeFrom, UInt8.lt_iff_toNat_lt, hfirst, ha', hb]

theorem decodeFrom_three (ha : 0xe0 ≤ a.toNat) (ha' : a.toNat < 0xf0)
    (hb : isSecond a b = true) (hc : isContinuation c = true) :
    decodeFrom position (a :: b :: c :: rest) =
      (decodeFrom (position + 3) rest).map
        (Char.ofNat ((a.toNat % 16) * 4096 + bits b * 64 + bits c) :: ·) := by
  have hfirst : ¬a.toNat < 0x80 ∧ ¬a.toNat < 0xc2 ∧ ¬0xf4 < a.toNat ∧ ¬a.toNat < 0xe0 := by omega
  simp [decodeFrom, UInt8.lt_iff_toNat_lt, hfirst, ha', hb, hc]

theorem decodeFrom_four (ha : 0xf0 ≤ a.toNat) (ha' : a.toNat ≤ 0xf4)
    (hb : isSecond a b = true) (hc : isContinuation c = true) (hd : isContinuation d = true) :
    decodeFrom position (a :: b :: c :: d :: rest) =
      (decodeFrom (position + 4) rest).map
        (Char.ofNat ((a.toNat % 8) * 262144 + bits b * 4096 + bits c * 64 + bits d) :: ·) := by
  have hfirst : ¬a.toNat < 0x80 ∧ ¬a.toNat < 0xc2 ∧ ¬0xf4 < a.toNat ∧ ¬a.toNat < 0xe0 ∧
      ¬a.toNat < 0xf0 := by omega
  simp [decodeFrom, UInt8.lt_iff_toNat_lt, hfirst, hb, hc, hd]

end

theorem toNat_ofNat_of_lt {n : Nat} (h : n < 256) : (UInt8.ofNat n).toNat = n :=
  UInt8.toNat_ofNat'.trans (Nat.mod_eq_of_lt h)

/-- A byte that holds the last six bits of a number. -/
theorem isContinuation_ofNat (n : Nat) :
    isContinuation (UInt8.ofNat (n % 64 + 128)) = true ∧
      bits (UInt8.ofNat (n % 64 + 128)) = n % 64 := by
  have hn : (UInt8.ofNat (n % 64 + 128)).toNat = n % 64 + 128 := toNat_ofNat_of_lt (by omega)
  constructor
  · simp only [isContinuation, UInt8.le_iff_toNat_le, Bool.and_eq_true, decide_eq_true_eq, hn,
      UInt8.reduceToNat]
    omega
  · rw [bits, hn]
    omega

theorem isSecond_iff {first second : UInt8} :
    isSecond first second = true ↔ isContinuation second = true ∧
      (first.toNat = 0xe0 → 0xa0 ≤ second.toNat) ∧ (first.toNat = 0xed → second.toNat ≤ 0x9f) ∧
        (first.toNat = 0xf0 → 0x90 ≤ second.toNat) ∧
          (first.toNat = 0xf4 → second.toNat ≤ 0x8f) := by
  simp only [isSecond, Bool.and_eq_true, beq_iff_eq, ← UInt8.toNat_inj, UInt8.reduceToNat]
  refine and_congr_right fun _ => ?_
  split
  · simp [*, UInt8.le_iff_toNat_le]
  · split
    · simp [*, UInt8.le_iff_toNat_le]
    · split
      · simp [*, UInt8.le_iff_toNat_le]
      · split
        · simp [*, UInt8.le_iff_toNat_le]
        · simp [*]

section

variable {v : Nat} (position : Nat) (rest : List UInt8)

theorem decodeFrom_ofNat_one (hv : v < 0x80) :
    decodeFrom position (UInt8.ofNat v :: rest) =
      (decodeFrom (position + 1) rest).map (Char.ofNat v :: ·) := by
  have hfirst := toNat_ofNat_of_lt (n := v) (by omega)
  rw [decodeFrom_one _ _ (by omega), hfirst]

theorem decodeFrom_ofNat_two (hv : 0x7f < v) (hv' : v ≤ 0x7ff) :
    decodeFrom position (UInt8.ofNat (v / 64 % 32 + 192) :: UInt8.ofNat (v % 64 + 128) :: rest) =
      (decodeFrom (position + 2) rest).map (Char.ofNat v :: ·) := by
  have hfirst := toNat_ofNat_of_lt (n := v / 64 % 32 + 192) (by omega)
  obtain ⟨hsecond, hbits⟩ := isContinuation_ofNat v
  have hvalue : (v / 64 % 32 + 192) % 32 * 64 + v % 64 = v := by omega
  rw [decodeFrom_two position rest (by omega) (by omega) hsecond, hfirst, hbits, hvalue]

/-- There are no surrogates among the characters, as the second bytes after 0xed ask for. -/
theorem decodeFrom_ofNat_three (hv : 0x7ff < v) (hv' : v ≤ 0xffff)
    (hvalid : v < 0xd800 ∨ 0xdfff < v) :
    decodeFrom position (UInt8.ofNat (v / 4096 % 16 + 224) :: UInt8.ofNat (v / 64 % 64 + 128) ::
        UInt8.ofNat (v % 64 + 128) :: rest) =
      (decodeFrom (position + 3) rest).map (Char.ofNat v :: ·) := by
  have hfirst := toNat_ofNat_of_lt (n := v / 4096 % 16 + 224) (by omega)
  have hnext := toNat_ofNat_of_lt (n := v / 64 % 64 + 128) (by omega)
  obtain ⟨hsecond, hbits⟩ := isContinuation_ofNat (v / 64)
  obtain ⟨hthird, hbits'⟩ := isContinuation_ofNat v
  have hallowed : isSecond (UInt8.ofNat (v / 4096 % 16 + 224))
      (UInt8.ofNat (v / 64 % 64 + 128)) = true :=
    isSecond_iff.mpr ⟨hsecond, by omega, by omega, by omega, by omega⟩
  have hvalue : (v / 4096 % 16 + 224) % 16 * 4096 + v / 64 % 64 * 64 + v % 64 = v := by omega
  rw [decodeFrom_three position rest (by omega) (by omega) hallowed hthird, hfirst, hbits, hbits',
    hvalue]

theorem decodeFrom_ofNat_four (hv : 0xffff < v) (hv' : v < 0x110000) :
    decodeFrom position (UInt8.ofNat (v / 262144 % 8 + 240) ::
        UInt8.ofNat (v / 4096 % 64 + 128) :: UInt8.ofNat (v / 64 % 64 + 128) ::
        UInt8.ofNat (v % 64 + 128) :: rest) =
      (decodeFrom (position + 4) rest).map (Char.ofNat v :: ·) := by
  have hfirst := toNat_ofNat_of_lt (n := v / 262144 % 8 + 240) (by omega)
  have hnext := toNat_ofNat_of_lt (n := v / 4096 % 64 + 128) (by omega)
  obtain ⟨hsecond, hbits⟩ := isContinuation_ofNat (v / 4096)
  obtain ⟨hthird, hbits'⟩ := isContinuation_ofNat (v / 64)
  obtain ⟨hfourth, hbits''⟩ := isContinuation_ofNat v
  have hallowed : isSecond (UInt8.ofNat (v / 262144 % 8 + 240))
      (UInt8.ofNat (v / 4096 % 64 + 128)) = true :=
    isSecond_iff.mpr ⟨hsecond, by omega, by omega, by omega, by omega⟩
  have hvalue : (v / 262144 % 8 + 240) % 8 * 262144 + v / 4096 % 64 * 4096 +
      v / 64 % 64 * 64 + v % 64 = v := by omega
  rw [decodeFrom_four position rest (by omega) (by omega) hallowed hthird hfourth, hfirst, hbits,
    hbits', hbits'', hvalue]

end

/-- The bytes of a character are decoded to it, whatever follows them. -/
theorem decodeFrom_utf8EncodeChar (position : Nat) (c : Char) (rest : List UInt8) :
    ∃ n, decodeFrom position (String.utf8EncodeChar c ++ rest) =
      (decodeFrom (position + n) rest).map (c :: ·) := by
  have hvalid : c.toNat < 0xd800 ∨ 0xdfff < c.toNat ∧ c.toNat < 0x110000 := c.valid
  have hc : c = Char.ofNat c.toNat := c.ofNat_toNat.symm
  have hcode : c.val.toNat = c.toNat := rfl
  simp only [String.utf8EncodeChar, hcode]
  generalize c.toNat = v at hvalid hc
  rw [hc]
  split
  · exact ⟨1, decodeFrom_ofNat_one position rest (by omega)⟩
  · split
    · exact ⟨2, decodeFrom_ofNat_two position rest (by omega) (by omega)⟩
    · split
      · exact ⟨3, decodeFrom_ofNat_three position rest (by omega) (by omega) (by omega)⟩
      · exact ⟨4, decodeFrom_ofNat_four position rest (by omega) (by omega)⟩

/-! ## Texts -/

theorem decodeFrom_encode (position : Nat) (chars : List Char) :
    decodeFrom position (chars.flatMap String.utf8EncodeChar) = .ok chars := by
  induction chars generalizing position with
  | nil => rfl
  | cons c rest ih =>
    obtain ⟨n, hstep⟩ := decodeFrom_utf8EncodeChar position c (rest.flatMap String.utf8EncodeChar)
    rw [List.flatMap_cons, hstep, ih]
    rfl

/-- The text without a byte order mark in front. -/
def withoutMark : List Char → List Char
  | '\ufeff' :: rest => rest
  | chars => chars

/-- The bytes of a byte order mark begin a text only if the mark does. -/
theorem dropMark_encode (chars : List Char) :
    dropMark (chars.flatMap String.utf8EncodeChar) =
      (withoutMark chars).flatMap String.utf8EncodeChar := by
  by_cases hmark : ∃ rest, chars = '\ufeff' :: rest
  · obtain ⟨rest, rfl⟩ := hmark
    rfl
  · have hsame : withoutMark chars = chars := by
      unfold withoutMark
      split
      · exact absurd ⟨_, rfl⟩ hmark
      · rfl
    rw [hsame]
    unfold dropMark
    split
    · rename_i rest hbytes
      have hdecoded := decodeFrom_encode 0 chars
      rw [hbytes, decodeFrom_three 0 rest (by decide) (by decide) (by decide) (by decide)]
        at hdecoded
      cases hrest : decodeFrom (0 + 3) rest with
      | error fault =>
        rw [hrest] at hdecoded
        cases hdecoded
      | ok others =>
        rw [hrest] at hdecoded
        exact absurd ⟨others, (Except.ok.inj hdecoded).symm⟩ hmark
    · rfl

/-- The bytes of a text are decoded to it, less a byte order mark. -/
theorem decode_encode (text : String) :
    decode (encode text) = .ok (String.ofList (withoutMark text.toList)) := by
  rw [decode, encode, dropMark_encode, decodeFrom_encode]
  rfl

end Backfield.Text.Utf8

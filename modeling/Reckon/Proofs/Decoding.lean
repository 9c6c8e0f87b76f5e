import Mathlib.Algebra.Group.Nat.Defs
import Mathlib.Data.List.Induction
import Mathlib.Data.List.Infix
import Reckon.Text.Utf8

/-!
# Proofs — Decoding

What bytes read as that need not be UTF-8.  `Reads bytes cs` takes the bytes apart into encodings,
each of which reads as its character, and stray pieces, each of which reads as U+FFFD: where no
character stands, the piece is the longest that begins one, or a single byte (`Stray`).

The decoder keeps a lead for the bytes of a character that is not complete.  A lead knows which
characters begin with those bytes, and so which byte can come next (`Lead.Pending`); the table of
first bytes makes such leads (`Lead.pending_ofByte`), and every byte that is accepted makes another
or completes the character.

* `reads_iff`: the decoder gives the text the bytes read as, and there is no other.
* `decode_encode`: the encoding of a text reads as the text.
* `decode_newline`: bytes can be cut at a newline, which ends whatever was begun before it.
-/

namespace Reckon.Utf8

open String (utf8EncodeChar)

/-! ### Text that need not be valid -/

/-- The bytes are the first bytes of a character, or all of them. -/
def Begins (bytes : List UInt8) : Prop := ∃ c, bytes <+: utf8EncodeChar c

/-- The piece before `rest` is not UTF-8: no character stands there, and the piece is one byte or
the first bytes of a character, as long as it can be. -/
structure Stray (piece rest : List UInt8) : Prop where
  unread (c : Char) : ¬ utf8EncodeChar c <+: piece ++ rest
  size : piece.length = 1 ∨ piece ≠ [] ∧ Begins piece
  longest {longer : List UInt8} :
    longer <+: piece ++ rest → Begins longer → longer.length ≤ piece.length

/-- The bytes read as the text: a character for its encoding, and `replacement` for each piece that
is not UTF-8. -/
inductive Reads : List UInt8 → List Char → Prop
  | nil : Reads [] []
  | char (c : Char) {rest : List UInt8} {cs : List Char} (h : Reads rest cs) :
      Reads (utf8EncodeChar c ++ rest) (c :: cs)
  | stray {piece rest : List UInt8} {cs : List Char} (hpiece : Stray piece rest)
      (h : Reads rest cs) : Reads (piece ++ rest) (replacement :: cs)

theorem Begins.shorten {bytes longer : List UInt8} (h : Begins longer) (hp : bytes <+: longer) :
    Begins bytes := by
  obtain ⟨c, hc⟩ := h
  exact ⟨c, hp.trans hc⟩

theorem begins_encode (c : Char) : Begins (utf8EncodeChar c) := ⟨c, List.prefix_rfl⟩

/-- If no character goes on with what follows the piece, its first bytes lie in the piece. -/
theorem prefix_of_begins {piece rest bytes : List UInt8}
    (hrest : ∀ b ∈ rest.head?, ¬ Begins (piece ++ [b])) (hp : bytes <+: piece ++ rest)
    (hb : Begins bytes) : bytes <+: piece := by
  cases rest with
  | nil => rwa [List.append_nil] at hp
  | cons b rest =>
      have hb' : piece ++ [b] <+: piece ++ b :: rest := by
        rw [List.prefix_append_right_inj]
        exact ⟨rest, rfl⟩
      rcases List.prefix_or_prefix_of_prefix hp hb' with h | h
      · rcases List.prefix_concat_iff.mp h with rfl | h
        · exact absurd hb (hrest b rfl)
        · exact h
      · exact absurd (hb.shorten h) (hrest b rfl)

theorem stray_of_head {piece rest : List UInt8}
    (hsize : piece.length = 1 ∨ piece ≠ [] ∧ Begins piece)
    (hunread : ∀ c, ¬ utf8EncodeChar c <+: piece)
    (hrest : ∀ b ∈ rest.head?, ¬ Begins (piece ++ [b])) : Stray piece rest where
  unread c hc := hunread c (prefix_of_begins hrest hc (begins_encode c))
  size := hsize
  longest hp hb := (prefix_of_begins hrest hp hb).length_le

/-! ### Encodings -/

/-- The byte with the six bits of `v` above the lowest `n` times six. -/
def trail (n v : Nat) : UInt8 := UInt8.ofNat (0x80 + v / 64 ^ n % 64)

/-- The last `n` bytes of the encoding of `v`. -/
def trails : Nat → Nat → List UInt8
  | 0, _ => []
  | n + 1, v => trail n v :: trails n v

theorem toNat_trail (n v : Nat) : (trail n v).toNat = 0x80 + v / 64 ^ n % 64 := by
  rw [trail, UInt8.toNat_ofNat']
  omega

theorem length_trails (n v : Nat) : (trails n v).length = n := by
  induction n with
  | zero => rfl
  | succ n ih => rw [trails, List.length_cons, ih]

theorem of_mem_trails {n v : Nat} {b : UInt8} (h : b ∈ trails n v) :
    0x80 ≤ b.toNat ∧ b.toNat ≤ 0xBF := by
  induction n with
  | zero => cases h
  | succ n ih =>
      rcases List.mem_cons.mp h with rfl | h
      · rw [toNat_trail]
        omega
      · exact ih h

theorem toNat_lt (c : Char) : c.toNat < 0x110000 ∧ (c.toNat < 0xD800 ∨ 0xDFFF < c.toNat) := by
  rcases c.valid with h | h
  · exact ⟨Nat.lt_trans h (by decide), .inl h⟩
  · exact ⟨h.2, .inr h.1⟩

/-- The values of characters are those below `0x110000` that are no surrogates. -/
theorem exists_char {v : Nat} (hlt : v < 0x110000) (hv : v < 0xD800 ∨ 0xDFFF < v) :
    ∃ c : Char, c.toNat = v := by
  have hvalid : v.isValidChar := by
    rcases hv with h | h
    · exact .inl h
    · exact .inr ⟨h, hlt⟩
  exact ⟨Char.ofNatAux v hvalid, rfl⟩

/-- Characters of `n + 2` bytes lie from the one bound up to the other, and their first byte has a
mark beside the bits above `n + 1` times six. -/
inductive Width : (n lo hi mark : Nat) → Prop
  | two : Width 0 0x80 0x800 0xC0
  | three : Width 1 0x800 0x10000 0xE0
  | four : Width 2 0x10000 0x110000 0xF0

theorem width_cases (c : Char) :
    c.toNat < 0x80 ∨ ∃ n lo hi mark, Width n lo hi mark ∧ lo ≤ c.toNat ∧ c.toNat < hi := by
  obtain ⟨hlt, -⟩ := toNat_lt c
  by_cases h₁ : c.toNat < 0x80
  · exact .inl h₁
  by_cases h₂ : c.toNat < 0x800
  · exact .inr ⟨_, _, _, _, .two, by omega, h₂⟩
  by_cases h₃ : c.toNat < 0x10000
  · exact .inr ⟨_, _, _, _, .three, by omega, h₃⟩
  · exact .inr ⟨_, _, _, _, .four, by omega, hlt⟩

theorem encode_of_lt {c : Char} (h : c.toNat < 0x80) :
    utf8EncodeChar c = [UInt8.ofNat c.toNat] := by
  have hle : c.val.toNat ≤ 0x7F := Nat.le_of_lt_succ h
  rw [utf8EncodeChar, if_pos hle]
  rfl

theorem encode_of_width {n lo hi mark : Nat} (hw : Width n lo hi mark) {c : Char}
    (hlo : lo ≤ c.toNat) (hhi : c.toNat < hi) :
    utf8EncodeChar c = UInt8.ofNat (mark + c.toNat / 64 ^ (n + 1)) :: trails (n + 1) c.toNat := by
  have hc : c.val.toNat = c.toNat := rfl
  simp only [utf8EncodeChar, hc]
  cases hw with
  | two =>
      rw [if_neg (by omega), if_pos (by omega), Nat.mod_eq_of_lt (by omega)]
      simp [trails, trail, Nat.add_comm]
  | three =>
      rw [if_neg (by omega), if_neg (by omega), if_pos (by omega), Nat.mod_eq_of_lt (by omega)]
      simp [trails, trail, Nat.add_comm]
  | four =>
      rw [if_neg (by omega), if_neg (by omega), if_neg (by omega), Nat.mod_eq_of_lt (by omega)]
      simp [trails, trail, Nat.add_comm]

/-- Behind its first byte a character has bytes from `0x80` to `0xBF` alone. -/
theorem of_mem_tail {c : Char} {b : UInt8} (h : b ∈ (utf8EncodeChar c).tail) :
    0x80 ≤ b.toNat ∧ b.toNat ≤ 0xBF := by
  rcases width_cases c with hc | ⟨n, lo, hi, mark, hw, hlo, hhi⟩
  · rw [encode_of_lt hc] at h
    cases h
  · rw [encode_of_width hw hlo hhi] at h
    exact of_mem_trails h

/-- A byte that goes on with a character lies from `0x80` to `0xBF`. -/
theorem of_begins_concat {piece : List UInt8} {b : UInt8} (hpiece : piece ≠ [])
    (h : Begins (piece ++ [b])) : 0x80 ≤ b.toNat ∧ b.toNat ≤ 0xBF := by
  obtain ⟨c, tail, hc⟩ := h
  refine of_mem_tail (c := c) ?_
  obtain ⟨first, others, rfl⟩ := List.exists_cons_of_ne_nil hpiece
  rw [← hc]
  simp

theorem not_begins_newline {piece : List UInt8} (h : piece ≠ []) : ¬ Begins (piece ++ [0x0A]) := by
  intro hb
  exact absurd (of_begins_concat h hb).1 (by decide)

/-- No character is the beginning of another. -/
theorem eq_of_encode_starts {c d : Char} (h : utf8EncodeChar c <+: utf8EncodeChar d) : c = d := by
  obtain ⟨tail, htail⟩ := h
  have hc := ByteArray.utf8DecodeChar?_utf8EncodeChar_append (b := tail.toByteArray) (c := c)
  have hd := ByteArray.utf8DecodeChar?_utf8EncodeChar_append (b := ByteArray.empty) (c := d)
  rw [ByteArray.append_empty, ← htail, List.toByteArray_append, hc] at hd
  exact Option.some.inj hd

/-! ### Characters of which some bytes have been read -/

/-- The lowest bits of a byte. -/
theorem toNat_and (b : UInt8) (k : Nat) (hk : k < 8) :
    (b &&& UInt8.ofNat (2 ^ k - 1)).toNat = b.toNat % 2 ^ k := by
  have hlt : 2 ^ k < 2 ^ 8 := Nat.pow_lt_pow_right (by decide) hk
  rw [UInt8.toNat_and, UInt8.toNat_ofNat', Nat.mod_eq_of_lt (by omega),
    Nat.and_two_pow_sub_one_eq_mod]

namespace Lead

theorem accepts_iff {l : Lead} {b : UInt8} :
    l.accepts b = true ↔ l.low.toNat ≤ b.toNat ∧ b.toNat ≤ l.high.toNat := by
  simp [accepts, UInt8.le_iff_toNat_le]

/-- The piece is the bytes of the lead, with `n + 1` to come.  Every value that has the bits of the
lead and goes on with a byte it accepts is that of a character that begins with the piece, and no
character goes on with another byte. -/
structure Pending (l : Lead) (n : Nat) (piece : List UInt8) : Prop where
  missing : l.missing = n + 1
  range : 0x80 ≤ l.low.toNat ∧ l.low.toNat ≤ l.high.toNat ∧ l.high.toNat ≤ 0xBF
  ne_nil : piece ≠ []
  encodes {v : Nat} (hbits : v / 64 ^ (n + 1) = l.bits) (hnext : l.accepts (trail n v) = true) :
    ∃ c : Char, c.toNat = v ∧ utf8EncodeChar c = piece ++ trails (n + 1) v
  accepts {b : UInt8} (h : Begins (piece ++ [b])) : l.accepts b = true

/-- A value with the bits of the lead and of a byte it accepts goes on with that byte. -/
theorem Pending.extend_eq {l : Lead} {n : Nat} {piece : List UInt8} (h : l.Pending n piece)
    {b : UInt8} (hb : l.accepts b = true) {v : Nat} (hv : v / 64 ^ n = l.extend b) :
    v / 64 ^ (n + 1) = l.bits ∧ trail n v = b := by
  obtain ⟨hlow, -, hhigh⟩ := h.range
  obtain ⟨hb₁, hb₂⟩ := accepts_iff.mp hb
  have hextend : l.extend b = l.bits * 64 + b.toNat % 64 := by
    rw [extend]
    exact congrArg (l.bits * 64 + ·) (toNat_and b 6 (by decide))
  rw [hextend] at hv
  refine ⟨?_, UInt8.toNat.inj ?_⟩
  · rw [Nat.pow_succ, ← Nat.div_div_eq_div_mul, hv]
    omega
  · rw [toNat_trail, hv]
    omega

/-- The last byte completes the character. -/
theorem Pending.complete {l : Lead} {piece : List UInt8} (h : l.Pending 0 piece) {b : UInt8}
    (hb : l.accepts b = true) : utf8EncodeChar (Char.ofNat (l.extend b)) = piece ++ [b] := by
  obtain ⟨hbits, htrail⟩ := h.extend_eq hb (v := l.extend b) (by simp)
  obtain ⟨c, hc, hencode⟩ := h.encodes hbits (by rwa [htrail])
  rw [← hc, Char.ofNat_toNat, hencode, trails, htrail, trails]

/-- A byte that is accepted makes the next lead. -/
theorem Pending.extend {l : Lead} {n : Nat} {piece : List UInt8} (h : l.Pending (n + 1) piece)
    {b : UInt8} (hb : l.accepts b = true) :
    Pending { bits := l.extend b, missing := l.missing - 1 } n (piece ++ [b]) where
  missing := by simp [h.missing]
  range := ⟨Nat.le_refl 0x80, (by decide : 0x80 ≤ 0xBF), Nat.le_refl 0xBF⟩
  ne_nil := by simp
  encodes hv _ := by
    obtain ⟨hbits, htrail⟩ := h.extend_eq hb hv
    obtain ⟨c, hc, hencode⟩ := h.encodes hbits (by rwa [htrail])
    refine ⟨c, hc, ?_⟩
    rw [hencode, trails, htrail, List.append_assoc]
    rfl
  accepts hb' := accepts_iff.mpr (of_begins_concat (by simp) hb')

/-- The bytes of a lead begin a character, which is not complete. -/
theorem Pending.begins {l : Lead} {n : Nat} {piece : List UInt8} (h : l.Pending n piece) :
    Begins piece ∧ ∀ c, ¬ utf8EncodeChar c <+: piece := by
  -- the least byte that is accepted, with no bits behind it, makes one character of the lead
  obtain ⟨-, hle, -⟩ := h.range
  have hb : l.accepts l.low = true := accepts_iff.mpr ⟨Nat.le_refl _, hle⟩
  obtain ⟨hbits, htrail⟩ := h.extend_eq hb (v := l.extend l.low * 64 ^ n)
    (Nat.mul_div_cancel _ (Nat.pow_pos (by decide)))
  obtain ⟨c, -, hencode⟩ := h.encodes hbits (by rwa [htrail])
  have hpiece : piece <+: utf8EncodeChar c := ⟨_, hencode.symm⟩
  refine ⟨⟨c, hpiece⟩, fun d hd => ?_⟩
  obtain rfl := eq_of_encode_starts (hd.trans hpiece)
  have hlength := hd.length_le
  rw [hencode, List.length_append, length_trails] at hlength
  omega

/-! ### The first byte -/

/-- The lead of a first byte.  With two or three bytes to follow, the second is kept away from
overlong forms, surrogates and what lies above U+10FFFF. -/
inductive Opens (b : UInt8) : Option Lead → Prop
  | none (h : b.toNat < 0xC2 ∨ 0xF4 < b.toNat) : Opens b none
  | two (h : 0xC2 ≤ b.toNat ∧ b.toNat < 0xE0) : Opens b (some ⟨b.toNat % 32, 1, 0x80, 0xBF⟩)
  | three {low high : UInt8} (h : 0xE0 ≤ b.toNat ∧ b.toNat < 0xF0)
      (hlow : b.toNat = 0xE0 ∧ low.toNat = 0xA0 ∨ b.toNat ≠ 0xE0 ∧ low.toNat = 0x80)
      (hhigh : b.toNat = 0xED ∧ high.toNat = 0x9F ∨ b.toNat ≠ 0xED ∧ high.toNat = 0xBF) :
      Opens b (some ⟨b.toNat % 16, 2, low, high⟩)
  | four {low high : UInt8} (h : 0xF0 ≤ b.toNat ∧ b.toNat ≤ 0xF4)
      (hlow : b.toNat = 0xF0 ∧ low.toNat = 0x90 ∨ b.toNat ≠ 0xF0 ∧ low.toNat = 0x80)
      (hhigh : b.toNat = 0xF4 ∧ high.toNat = 0x8F ∨ b.toNat ≠ 0xF4 ∧ high.toNat = 0xBF) :
      Opens b (some ⟨b.toNat % 8, 3, low, high⟩)

theorem opens (b : UInt8) : Opens b (ofByte? b) := by
  have hfive : (b &&& 0x1F).toNat = b.toNat % 32 := toNat_and b 5 (by decide)
  have hfour : (b &&& 0x0F).toNat = b.toNat % 16 := toNat_and b 4 (by decide)
  have hthree : (b &&& 0x07).toNat = b.toNat % 8 := toNat_and b 3 (by decide)
  simp only [ofByte?, UInt8.lt_iff_toNat_lt, ← UInt8.toNat_inj, UInt8.reduceToNat, hfive, hfour,
    hthree]
  by_cases h₁ : b.toNat < 0xC2
  · rw [if_pos h₁]
    exact .none (by omega)
  by_cases h₂ : b.toNat < 0xE0
  · rw [if_neg h₁, if_pos h₂]
    exact .two (by omega)
  by_cases h₃ : b.toNat = 0xE0
  · rw [if_neg h₁, if_neg h₂, if_pos h₃]
    exact .three (by omega) (.inl ⟨h₃, rfl⟩) (.inr ⟨by omega, rfl⟩)
  by_cases h₄ : b.toNat = 0xED
  · rw [if_neg h₁, if_neg h₂, if_neg h₃, if_pos h₄]
    exact .three (by omega) (.inr ⟨h₃, rfl⟩) (.inl ⟨h₄, rfl⟩)
  by_cases h₅ : b.toNat < 0xF0
  · rw [if_neg h₁, if_neg h₂, if_neg h₃, if_neg h₄, if_pos h₅]
    exact .three (by omega) (.inr ⟨h₃, rfl⟩) (.inr ⟨h₄, rfl⟩)
  rw [if_neg h₁, if_neg h₂, if_neg h₃, if_neg h₄, if_neg h₅]
  by_cases h₆ : b.toNat = 0xF0
  · rw [if_pos h₆]
    exact .four (by omega) (.inl ⟨h₆, rfl⟩) (.inr ⟨by omega, rfl⟩)
  by_cases h₇ : b.toNat < 0xF4
  · rw [if_neg h₆, if_pos h₇]
    exact .four (by omega) (.inr ⟨h₆, rfl⟩) (.inr ⟨by omega, rfl⟩)
  by_cases h₈ : b.toNat = 0xF4
  · rw [if_neg h₆, if_neg h₇, if_pos h₈]
    exact .four (by omega) (.inr ⟨h₆, rfl⟩) (.inl ⟨h₈, rfl⟩)
  · rw [if_neg h₆, if_neg h₇, if_neg h₈]
    exact .none (by omega)

/-- A value is that of a character with this first byte if and only if the byte makes a lead with
the bits of the value, which accepts the second byte. -/
theorem ofByte?_iff {n lo hi mark : Nat} (hw : Width n lo hi mark) (b : UInt8) (v : Nat) :
    (lo ≤ v ∧ v < hi ∧ (v < 0xD800 ∨ 0xDFFF < v) ∧ b.toNat = mark + v / 64 ^ (n + 1)) ↔
      ∃ l, ofByte? b = some l ∧ l.missing = n + 1 ∧ v / 64 ^ (n + 1) = l.bits ∧
        l.accepts (trail n v) = true := by
  simp only [accepts_iff, toNat_trail]
  have ho := opens b
  generalize ofByte? b = o at ho
  -- a first byte of one width against each of the widths: what is left is arithmetic
  cases ho with
  | none h => cases hw <;> simp <;> omega
  | two h => cases hw <;> simp <;> omega
  | three h hlow hhigh => cases hw <;> simp <;> omega
  | four h hlow hhigh => cases hw <;> simp <;> omega

theorem exists_width {b : UInt8} {l : Lead} (h : ofByte? b = some l) :
    ∃ n lo hi mark, Width n lo hi mark ∧ l.missing = n + 1 ∧ 0x80 ≤ l.low.toNat ∧
      l.low.toNat ≤ l.high.toNat ∧ l.high.toNat ≤ 0xBF := by
  have ho := opens b
  rw [h] at ho
  cases ho with
  | two h => exact ⟨_, _, _, _, .two, rfl, by simp⟩
  | three h hlow hhigh => exact ⟨_, _, _, _, .three, rfl, by simp only; omega⟩
  | four h hlow hhigh => exact ⟨_, _, _, _, .four, rfl, by simp only; omega⟩

/-- The first byte of a character is all of it, or makes a lead that accepts the second byte. -/
theorem ofByte?_of_encode {c : Char} {b : UInt8} {others : List UInt8}
    (h : utf8EncodeChar c = b :: others) :
    b.toNat < 0x80 ∧ others = [] ∨
      ∃ l, ofByte? b = some l ∧ ∀ b' ∈ others.head?, l.accepts b' = true := by
  rcases width_cases c with hlt | ⟨n, lo, hi, mark, hw, hlo, hhi⟩
  · rw [encode_of_lt hlt] at h
    obtain ⟨rfl, rfl⟩ := List.cons.inj h
    rw [UInt8.toNat_ofNat']
    exact .inl ⟨by omega, rfl⟩
  · rw [encode_of_width hw hlo hhi] at h
    obtain ⟨rfl, rfl⟩ := List.cons.inj h
    have hfirst : (UInt8.ofNat (mark + c.toNat / 64 ^ (n + 1))).toNat =
        mark + c.toNat / 64 ^ (n + 1) := by
      rw [UInt8.toNat_ofNat']
      cases hw <;> omega
    obtain ⟨l, hl, -, -, hnext⟩ := (ofByte?_iff hw _ c.toNat).mp
      ⟨hlo, hhi, (toNat_lt c).2, hfirst⟩
    refine .inr ⟨l, hl, fun b' hb' => ?_⟩
    obtain rfl : trail n c.toNat = b' := Option.some.inj hb'
    exact hnext

/-- **The table of first bytes makes leads that are pending.** -/
theorem pending_ofByte {b : UInt8} {l : Lead} (h : ofByte? b = some l) :
    ∃ n, l.Pending n [b] := by
  obtain ⟨n, lo, hi, mark, hw, hmissing, hrange⟩ := exists_width h
  refine ⟨n, hmissing, hrange, by simp, fun {v} hbits hnext => ?_, fun {b'} hb' => ?_⟩
  · obtain ⟨hlo, hhi, hgap, hb⟩ := (ofByte?_iff hw b v).mpr ⟨l, h, hmissing, hbits, hnext⟩
    obtain ⟨c, rfl⟩ := exists_char (v := v) (by cases hw <;> omega) hgap
    refine ⟨c, rfl, ?_⟩
    rw [encode_of_width hw hlo hhi, ← hb]
    simp
  · obtain ⟨c, others, hc⟩ := hb'
    rcases ofByte?_of_encode hc.symm with ⟨-, hnil⟩ | ⟨l', hl', haccepts⟩
    · cases hnil
    · obtain rfl : l = l' := Option.some.inj (h.symm.trans hl')
      exact haccepts b' rfl

/-- A byte that is neither a character nor a lead begins none. -/
theorem not_begins_of_ofByte? {b : UInt8} (hb : 0x80 ≤ b.toNat) (h : ofByte? b = none) :
    ¬ Begins [b] := by
  rintro ⟨c, others, hc⟩
  rcases ofByte?_of_encode hc.symm with ⟨hlt, -⟩ | ⟨l, hl, -⟩
  · omega
  · rw [h] at hl
    cases hl

end Lead

/-! ### The decoder -/

namespace Decoder

/-- The decoder waits for the rest of a character that begins with the piece, or for any character
if the piece is empty. -/
def Awaits (d : Decoder) (piece : List UInt8) : Prop :=
  match d.lead with
  | none => piece = []
  | some l => ∃ n, l.Pending n piece

/-- The decoder has read the bytes: whatever follows, the text is what it has given and then what
the piece it waits behind and the following bytes read as. -/
def HasRead (d : Decoder) (bytes : List UInt8) : Prop :=
  ∃ piece, d.Awaits piece ∧
    ∀ rest cs, Reads (piece ++ rest) cs → Reads (bytes ++ rest) (d.out.toList ++ cs)

/-- A byte is read where a character begins. -/
theorem hasRead_start {out : Array Char} {bytes : List UInt8} {b : UInt8}
    (h : ∀ rest cs, Reads (b :: rest) cs → Reads (bytes ++ b :: rest) (out.toList ++ cs)) :
    HasRead (start out b) (bytes ++ [b]) := by
  simp only [HasRead, List.append_assoc, List.singleton_append]
  by_cases hb : b < 0x80
  · have hlt : b.toNat < 0x80 := hb
    obtain ⟨c, hc⟩ := exists_char (v := b.toNat) (by omega) (by omega)
    have hencode : utf8EncodeChar c = [b] := by
      rw [encode_of_lt (by omega), hc, UInt8.ofNat_toNat]
    refine ⟨[], by simp [start, hb, Awaits], fun rest cs hrest => ?_⟩
    have hchar := Reads.char c hrest
    rw [hencode] at hchar
    simpa [start, hb, ← hc, Char.ofNat_toNat] using h rest _ hchar
  have hle : 0x80 ≤ b.toNat := Nat.le_of_not_lt hb
  cases hl : Lead.ofByte? b with
  | some l =>
      refine ⟨[b], by simpa [start, hb, hl, Awaits] using Lead.pending_ofByte hl, ?_⟩
      simpa [start, hb, hl] using h
  | none =>
      refine ⟨[], by simp [start, hb, hl, Awaits], fun rest cs hrest => ?_⟩
      have hbegins := Lead.not_begins_of_ofByte? hle hl
      have hstray : Stray [b] rest := by
        refine stray_of_head (.inl rfl) (fun c hc => ?_) fun b' _ hb' => hbegins (hb'.shorten ?_)
        · have hlength : [b].length ≤ (utf8EncodeChar c).length :=
            List.length_pos_iff.mpr String.utf8EncodeChar_ne_nil
          exact hbegins ((hc.eq_of_length_le hlength) ▸ begins_encode c)
        · exact List.prefix_append _ _
      simpa [start, hb, hl] using h rest _ (.stray hstray hrest)

/-- **One byte more.**  A byte that is not accepted shows that the piece before it is stray. -/
theorem HasRead.feed {d : Decoder} {bytes : List UInt8} (h : d.HasRead bytes) (b : UInt8) :
    (d.feed b).HasRead (bytes ++ [b]) := by
  obtain ⟨out, lead⟩ := d
  obtain ⟨piece, hpiece, hread⟩ := h
  cases lead with
  | none =>
      obtain rfl : piece = [] := hpiece
      exact hasRead_start fun rest cs => hread (b :: rest) cs
  | some l =>
      obtain ⟨n, hpending⟩ : ∃ n, l.Pending n piece := hpiece
      by_cases hb : l.accepts b = true
      · cases n with
        | zero =>
            have hmissing : l.missing ≤ 1 := by rw [hpending.missing]
            have hencode := hpending.complete hb
            simp only [Decoder.feed, hb, hmissing, if_true]
            refine ⟨[], rfl, fun rest cs hrest => ?_⟩
            have hchar := Reads.char (Char.ofNat (l.extend b)) hrest
            rw [hencode] at hchar
            simpa using hread (b :: rest) _ (by simpa using hchar)
        | succ n =>
            have hmissing : ¬ l.missing ≤ 1 := by rw [hpending.missing]; omega
            simp only [Decoder.feed, hb, hmissing, if_true, if_false]
            refine ⟨piece ++ [b], ⟨n, hpending.extend hb⟩, fun rest cs hrest => ?_⟩
            simpa using hread (b :: rest) cs (by simpa using hrest)
      · obtain ⟨hbegins, hunread⟩ := hpending.begins
        have hstray (rest : List UInt8) : Stray piece (b :: rest) := by
          refine stray_of_head (.inr ⟨hpending.ne_nil, hbegins⟩) hunread fun b' hb' hb'' => ?_
          obtain rfl : b = b' := Option.some.inj hb'
          exact hb (hpending.accepts hb'')
        -- the byte itself is read once more, where a character begins
        simp only [Decoder.feed, hb]
        refine hasRead_start fun rest cs hrest => ?_
        simpa using hread (b :: rest) _ (.stray (hstray rest) hrest)

theorem hasRead_foldl (bytes : List UInt8) : HasRead (bytes.foldl feed {}) bytes := by
  induction bytes using List.reverseRecOn with
  | nil => exact ⟨[], rfl, fun rest cs h => h⟩
  | append_singleton bytes b ih =>
      rw [List.foldl_append]
      exact ih.feed b

theorem HasRead.finish {d : Decoder} {bytes : List UInt8} (h : d.HasRead bytes) :
    Reads bytes d.finish.toList := by
  obtain ⟨out, lead⟩ := d
  obtain ⟨piece, hpiece, hread⟩ := h
  cases lead with
  | none =>
      obtain rfl : piece = [] := hpiece
      simpa [Decoder.finish] using hread [] [] .nil
  | some l =>
      obtain ⟨n, hpending⟩ : ∃ n, l.Pending n piece := hpiece
      obtain ⟨hbegins, hunread⟩ := hpending.begins
      have hstray : Stray piece [] :=
        stray_of_head (.inr ⟨hpending.ne_nil, hbegins⟩) hunread nofun
      simpa [Decoder.finish] using hread [] _ (.stray hstray .nil)

end Decoder

theorem reads_decode (bytes : List UInt8) : Reads bytes (decode bytes) :=
  (Decoder.hasRead_foldl bytes).finish

/-! ### One text for all bytes -/

theorem Stray.ne_nil {piece rest : List UInt8} (h : Stray piece rest) : piece ≠ [] := by
  rintro rfl
  rcases h.size with hone | ⟨hne, -⟩
  · cases hone
  · exact hne rfl

/-- Pieces that are not UTF-8 end at the same place. -/
theorem Stray.length_le {piece rest piece' rest' : List UInt8} (h : Stray piece rest)
    (h' : Stray piece' rest') (heq : piece ++ rest = piece' ++ rest') :
    piece.length ≤ piece'.length := by
  rcases h.size with hone | ⟨-, hbegins⟩
  · rw [hone]
    exact List.length_pos_iff.mpr h'.ne_nil
  · exact h'.longest ⟨rest, heq⟩ hbegins

/-- **Bytes read as one text only.** -/
theorem Reads.unique {bytes : List UInt8} {cs cs' : List Char} (h : Reads bytes cs)
    (h' : Reads bytes cs') : cs = cs' := by
  induction h generalizing cs' with
  | nil =>
      generalize hbytes : [] = bytes at h'
      cases h' with
      | nil => rfl
      | char c h' =>
          exact absurd (List.append_eq_nil_iff.mp hbytes.symm).1 String.utf8EncodeChar_ne_nil
      | stray hpiece h' => exact absurd (List.append_eq_nil_iff.mp hbytes.symm).1 hpiece.ne_nil
  | @char c rest cs h ih =>
      generalize hbytes : utf8EncodeChar c ++ rest = bytes at h'
      cases h' with
      | nil => exact absurd (List.append_eq_nil_iff.mp hbytes).1 String.utf8EncodeChar_ne_nil
      | @char d rest' cs' h' =>
          have hcd : c = d := by
            rcases List.prefix_or_prefix_of_prefix (List.prefix_append _ rest)
              ⟨rest', hbytes.symm⟩ with hp | hp
            · exact eq_of_encode_starts hp
            · exact (eq_of_encode_starts hp).symm
          subst hcd
          rw [ih (List.append_cancel_left hbytes ▸ h')]
      | stray hpiece h' => exact absurd ⟨rest, hbytes⟩ (hpiece.unread c)
  | @stray piece rest cs hpiece h ih =>
      generalize hbytes : piece ++ rest = bytes at h'
      cases h' with
      | nil => exact absurd (List.append_eq_nil_iff.mp hbytes).1 hpiece.ne_nil
      | @char c rest' cs' h' => exact absurd ⟨rest', hbytes.symm⟩ (hpiece.unread c)
      | @stray piece' rest' cs' hpiece' h' =>
          have hlength : piece.length = piece'.length :=
            Nat.le_antisymm (hpiece.length_le hpiece' hbytes) (hpiece'.length_le hpiece hbytes.symm)
          obtain ⟨-, rfl⟩ := List.append_inj hbytes hlength
          rw [ih h']

/-- **The decoder reads any bytes as their text.** -/
theorem reads_iff {bytes : List UInt8} {cs : List Char} : Reads bytes cs ↔ cs = decode bytes :=
  ⟨fun h => h.unique (reads_decode bytes), fun h => h ▸ reads_decode bytes⟩

/-- No bytes but none read as no text. -/
theorem decode_eq_nil {bytes : List UInt8} (h : decode bytes = []) : bytes = [] := by
  have hreads := reads_decode bytes
  rw [h] at hreads
  cases hreads with
  | nil => rfl

/-- Valid text reads as its characters. -/
theorem decode_encode (cs : List Char) : decode (cs.flatMap utf8EncodeChar) = cs := by
  refine (reads_iff.mp ?_).symm
  induction cs with
  | nil => exact .nil
  | cons c cs ih => exact .char c ih

theorem decode_toUTF8 (s : String) : decode s.toUTF8.data.toList = s.toList := by
  have hbytes := String.toByteArray_ofList (l := s.toList)
  rw [String.ofList_toList] at hbytes
  rw [String.toUTF8, hbytes, List.utf8Encode, List.data_toByteArray, List.toList_toArray,
    decode_encode]

/-! ### Lines -/

/-- A piece that is not UTF-8 does not go on behind a newline. -/
theorem Stray.append_newline {piece rest : List UInt8} (h : Stray piece rest) (more : List UInt8) :
    Stray piece (rest ++ 0x0A :: more) := by
  have hne : piece ++ rest ≠ [] := by
    intro hnil
    exact h.ne_nil (List.append_eq_nil_iff.mp hnil).1
  have hshort {bytes : List UInt8} (hp : bytes <+: piece ++ (rest ++ 0x0A :: more))
      (hb : Begins bytes) : bytes <+: piece ++ rest := by
    rw [← List.append_assoc] at hp
    refine prefix_of_begins (fun b hb => ?_) hp hb
    obtain rfl : 0x0A = b := Option.some.inj hb
    exact not_begins_newline hne
  exact ⟨fun c hc => h.unread c (hshort hc (begins_encode c)), h.size,
    fun hp hb => h.longest (hshort hp hb) hb⟩

theorem Reads.append_newline {bytes more : List UInt8} {cs ds : List Char} (h : Reads bytes cs)
    (hmore : Reads more ds) : Reads (bytes ++ 0x0A :: more) (cs ++ '\n' :: ds) := by
  induction h with
  | nil => exact .char '\n' hmore
  | char c h ih =>
      rw [List.append_assoc]
      exact .char c ih
  | stray hpiece h ih =>
      rw [List.append_assoc]
      exact .stray (hpiece.append_newline more) ih

/-- **A newline byte ends whatever was begun**, so bytes can be cut there. -/
theorem decode_newline (bytes more : List UInt8) :
    decode (bytes ++ 0x0A :: more) = decode bytes ++ '\n' :: decode more :=
  (reads_iff.mp ((reads_decode bytes).append_newline (reads_decode more))).symm

/-- Only a newline byte reads as a newline. -/
theorem Reads.mem_newline {bytes : List UInt8} {cs : List Char} (h : Reads bytes cs)
    (hcs : '\n' ∈ cs) : 0x0A ∈ bytes := by
  induction h with
  | nil => cases hcs
  | char c h ih =>
      rcases List.mem_cons.mp hcs with rfl | hcs
      · exact List.mem_append_left _ (by decide)
      · exact List.mem_append_right _ (ih hcs)
  | stray hpiece h ih =>
      rcases List.mem_cons.mp hcs with hc | hcs
      · cases hc
      · exact List.mem_append_right _ (ih hcs)

/-- A line reads the same whatever follows it. -/
theorem decode_line (before more : List UInt8) :
    decode (before ++ 0x0A :: more) = decode (before ++ [0x0A]) ++ decode more := by
  rw [decode_newline, decode_newline, List.append_assoc]
  rfl

end Reckon.Utf8

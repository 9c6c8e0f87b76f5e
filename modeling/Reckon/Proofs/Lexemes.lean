import Mathlib.Data.List.Chain
import Mathlib.Data.List.TakeWhile
import Reckon.Proofs.Exhaustion

/-!
# Proofs — Lexemes

What the scanner recognises.  A lexeme is a word, a run of digits and points, or a mark
(`Lexeme`), and it says by itself which item it makes (`Lexeme.item`).  A text is a join of lexemes
and layout (`Join`): layout may be missing between two of them, unless the second begins with a
character that goes on with the first.

* `Lexer.scan_lexeme`: a lexeme is taken as far as it goes, and makes its item.
* `Lexer.items_pieces`: the items of a join are those of its lexemes.
* `exists_join`: every text is a join.
* `Lexer.recognises_lexemes`: so call by call the scanner gives the items of the lexemes of a text
  and then the end, and no text is without lexemes to give.
* `Lexer.newlines_part_comments_vanish`: behind any text, a newline ends what the text breaks off
  in, and a comment adds nothing.
-/

namespace Reckon

open ItemStream (items items_eq_nil)
open Lexer (endsLine)

/-! ### Classes of characters -/

/-- White space is no part of a word. -/
theorem isWordChar_of_isBlank {c : Char} (h : isBlank c = true) : isWordChar c = false := by
  have hall : ∀ r ∈ blankRanges.ranges, ∀ n ∈ List.range' r.1 (r.2 + 1 - r.1),
      letterRanges.covers n = false ∧ numeralRanges.covers n = false := by decide +kernel
  obtain ⟨r, hr, hlo, hhi⟩ := (blankRanges.covers_iff c.toNat).mp h
  obtain ⟨hletter, hnumeral⟩ := hall r hr c.toNat (List.mem_range'_1.mpr (by omega))
  rw [isWordChar, isLetter, isNumeral, hletter, hnumeral]
  rfl

theorem isBlank_of_isLetter {c : Char} (h : isLetter c = true) : isBlank c = false := by
  cases hb : isBlank c with
  | false => rfl
  | true =>
      have hword := isWordChar_of_isBlank hb
      rw [isWordChar, h] at hword
      cases hword

/-! ### Lexemes -/

/-- The kinds of lexemes. -/
inductive Lexeme.Kind where
  /-- a letter, and letters and numerals behind it -/
  | word
  /-- digits and points -/
  | number
  /-- a character for itself -/
  | mark
  deriving DecidableEq

namespace Lexeme.Kind

/-- A lexeme of the kind may begin with the character. -/
def begins : Kind → Char → Bool
  | .word, c => isLetter c
  | .number, c => isNumberChar c
  | .mark, c => !(isBlank c || isLetter c || isNumberChar c || c == '#')

/-- A lexeme of the kind goes on with the character. -/
def goesOn : Kind → Char → Bool
  | .word, c => isWordChar c
  | .number, c => isNumberChar c
  | .mark, _ => false

end Lexeme.Kind

/-- A lexeme. -/
structure Lexeme where
  kind : Lexeme.Kind
  first : Char
  others : List Char
  begins : kind.begins first = true
  goesOn : ∀ c ∈ others, kind.goesOn c = true

/-- The double nearest to the decimal with these digits before and behind the point. -/
def decimalValue (whole fraction : List Char) : Float :=
  Float.ofScientific (digitsValue (whole ++ fraction)) true fraction.length

namespace Lexeme

/-- The characters of the lexeme. -/
def chars (x : Lexeme) : List Char := x.first :: x.others

/-- The lexeme as a text. -/
def text (x : Lexeme) : String := String.ofList x.chars

/-- The item the lexeme makes.  A run of digits and points is a number if it has a digit and no
more than one point. -/
def item (x : Lexeme) : Item :=
  match x.kind with
  | .word =>
    if x.text = "def" then .token .defKeyword
    else if x.text = "extern" then .token .externKeyword
    else .token (.ident x.text)
  | .number =>
    if x.chars.any Char.isDigit ∧ x.chars.count '.' ≤ 1 then
      .token (.number (decimalValue (x.chars.takeWhile (· != '.'))
        ((x.chars.dropWhile (· != '.')).drop 1)))
    else .malformed (.invalidNumber x.text)
  | .mark => .token (.char x.first)

end Lexeme

/-! ### Numbers -/

/-- Without its one point a run is what stands before the point and what stands behind it. -/
theorem filter_point {cs : List Char} (h : cs.count '.' ≤ 1) :
    cs.filter (· != '.') = cs.takeWhile (· != '.') ++ (cs.dropWhile (· != '.')).drop 1 := by
  induction cs with
  | nil => rfl
  | cons c cs ih =>
      by_cases hc : c = '.'
      · subst hc
        rw [List.count_cons_self] at h
        have hcount : cs.count '.' = 0 := by omega
        have hnone : '.' ∉ cs := List.count_eq_zero.mp hcount
        have hall : cs.filter (· != '.') = cs := by
          rw [List.filter_eq_self]
          rintro c hmem
          simp only [bne_iff_ne, ne_eq]
          rintro rfl
          exact hnone hmem
        simp [hall]
      · rw [List.count_cons_of_ne hc] at h
        simp [hc, ih h]

/-- A run of digits and points is a number if it has a digit and at most one point. -/
theorem numberItem_eq {cs : List Char} (h : ∀ c ∈ cs, isNumberChar c = true) :
    Lexer.numberItem cs =
      if cs.any Char.isDigit ∧ cs.count '.' ≤ 1 then
        .token (.number (decimalValue (cs.takeWhile (· != '.')) ((cs.dropWhile (· != '.')).drop 1)))
      else .malformed (.invalidNumber (String.ofList cs)) := by
  have hfilter : (cs.filter (· != '.')).isEmpty = true ↔ ¬ cs.any Char.isDigit = true := by
    rw [List.isEmpty_iff, List.filter_eq_nil_iff, List.any_eq_true, not_exists]
    refine forall_congr' fun c => ?_
    rw [not_and]
    refine forall_congr' fun hc => ?_
    -- a character of a number is a digit unless it is the point
    have hclass := h c hc
    rw [isNumberChar, Bool.or_eq_true, beq_iff_eq] at hclass
    rcases hclass with hdigit | rfl
    · have hne : c ≠ '.' := by
        rintro rfl
        cases hdigit
      simp [hdigit, hne]
    · decide
  have hnone : (cs.filter (· != '.')).isEmpty = true ∨ 1 < cs.count '.' ↔
      ¬ (cs.any Char.isDigit = true ∧ cs.count '.' ≤ 1) := by
    rw [hfilter, not_and_or, Nat.not_le]
  rw [Lexer.numberItem, literalValue?]
  simp only [Bool.or_eq_true, decide_eq_true_eq, hnone]
  by_cases hnumber : cs.any Char.isDigit = true ∧ cs.count '.' ≤ 1
  · rw [if_neg (not_not_intro hnumber), if_pos hnumber, decimalValue, ← filter_point hnumber.2]
  · rw [if_pos hnumber, if_neg hnumber]

/-! ### One lexeme -/

namespace Lexer

/-- A run takes all characters with the property. -/
theorem run_map {p : Char → Bool} {cs : List Char} (h : ∀ c ∈ cs, p c = true) :
    run p (cs.map .char) = (cs, []) := by
  have hall : ∀ r ∈ cs.map Reply.char, matching p r = true := by
    intro r hr
    obtain ⟨c, hc, rfl⟩ := List.mem_map.mp hr
    exact h c hc
  have htake : (cs.map Reply.char).takeWhile (matching p) = cs.map .char := by
    rw [List.takeWhile_eq_self_iff]
    exact hall
  have hdrop : (cs.map Reply.char).dropWhile (matching p) = [] := by
    rw [List.dropWhile_eq_nil_iff]
    exact hall
  rw [run, htake, hdrop, List.filterMap_map]
  simp [Function.comp_def, Reply.char?]

/-- Where no character follows that has the property, a run of it ends. -/
theorem takeWhile_map {p : Char → Bool} {cs : List Char} (h : ∀ c ∈ cs.head?, p c = false) :
    (cs.map Reply.char).takeWhile (matching p) = [] := by
  cases cs with
  | nil => rfl
  | cons c cs => simp [matching, Reply.char?, h c rfl]

/-- **A lexeme is taken as far as it goes, and makes its item.** -/
theorem scan_lexeme (x : Lexeme) {cs : List Char} (hcs : ∀ c ∈ cs.head?, x.kind.goesOn c = false) :
    scan ((x.chars ++ cs).map .char) = (x.item, cs.map .char) := by
  obtain ⟨kind, first, others, hbegins, hgoesOn⟩ := x
  have hrun : run kind.goesOn ((others ++ cs).map .char) = (others, cs.map .char) := by
    rw [List.map_append, run_append_of_head (takeWhile_map hcs), run_map hgoesOn, List.nil_append]
  rw [Lexeme.chars, List.cons_append, List.map_cons]
  -- the first character decides between the branches of the scanner
  cases kind with
  | word =>
      have hletter : isLetter first = true := hbegins
      have hrun' : run isWordChar ((others ++ cs).map .char) = (others, cs.map .char) := hrun
      simp only [scan, hletter, if_true, hrun', Token.ofWord, apply_ite Item.token, Lexeme.item,
        Lexeme.text, Lexeme.chars]
      rfl
  | number =>
      have hnumber : isNumberChar first = true := hbegins
      have hrun' : run isNumberChar ((others ++ cs).map .char) = (others, cs.map .char) := hrun
      have hall : ∀ c ∈ first :: others, isNumberChar c = true :=
        List.forall_mem_cons.mpr ⟨hnumber, hgoesOn⟩
      simp only [scan, (class_of_isNumberChar hnumber).2.2, hnumber, if_true, hrun',
        numberItem_eq hall, Lexeme.item, Lexeme.text, Lexeme.chars]
      rfl
  | mark =>
      simp only [Lexeme.Kind.begins, Bool.not_eq_true', Bool.or_eq_false_iff] at hbegins
      have hothers : others = [] := by
        rw [List.eq_nil_iff_forall_not_mem]
        intro c hc
        cases hgoesOn c hc
      subst hothers
      simp [scan, hbegins, Lexeme.item]

end Lexer

/-! ### Layout -/

/-- What a comment says: it does not end the line. -/
abbrev Remark := { cs : List Char // ∀ c ∈ cs, endsLine c = false }

/-- A piece of layout: white space, or a comment with the character that ends its line. -/
inductive Gap where
  | blank (c : Char) (h : isBlank c = true)
  | comment (remark : Remark) (last : Char) (h : endsLine last = true)

/-- The characters of the piece. -/
def Gap.chars : Gap → List Char
  | .blank c _ => [c]
  | .comment remark last _ => '#' :: remark.1 ++ [last]

/-- The characters of several pieces. -/
def gapChars (gs : List Gap) : List Char := gs.flatMap Gap.chars

/-- No lexeme goes on with layout. -/
theorem Gap.not_goesOn (g : Gap) (k : Lexeme.Kind) : ∀ c ∈ g.chars.head?, k.goesOn c = false := by
  intro c hc
  cases g with
  | blank b hb =>
      obtain rfl : b = c := Option.some.inj hc
      cases k with
      | word => exact isWordChar_of_isBlank hb
      | number =>
          cases hn : isNumberChar b with
          | false => exact hn
          | true =>
              rw [(Lexer.class_of_isNumberChar hn).1] at hb
              cases hb
      | mark => rfl
  | comment remark last h =>
      obtain rfl : '#' = c := Option.some.inj hc
      cases k with
      | word => decide
      | number => decide
      | mark => rfl

theorem not_goesOn_gapChars {gs : List Gap} {cs : List Char} {k : Lexeme.Kind}
    (h : gs = [] → ∀ c ∈ cs.head?, k.goesOn c = false) :
    ∀ c ∈ (gapChars gs ++ cs).head?, k.goesOn c = false := by
  cases gs with
  | nil => exact h rfl
  | cons g gs =>
      have hg := g.not_goesOn k
      cases g with
      | blank b hb => exact hg
      | comment remark last hlast => exact hg

namespace Lexer

/-- A comment goes on to the end of its line. -/
theorem skipLayout_remark (remark : Remark) (rs : List Reply) :
    skipLayout true (remark.1.map .char ++ rs) = skipLayout true rs := by
  obtain ⟨cs, hcs⟩ := remark
  induction cs with
  | nil => rfl
  | cons c cs ih =>
      obtain ⟨hc, hcs⟩ := List.forall_mem_cons.mp hcs
      simpa [skipLayout, hc] using ih hcs

theorem skipLayout_hash (rs : List Reply) :
    skipLayout false (.char '#' :: rs) = skipLayout true rs := by
  have hblank : isBlank '#' = false := by decide
  simp [skipLayout, hblank]

theorem skipLayout_gap (g : Gap) (rs : List Reply) :
    skipLayout false (g.chars.map .char ++ rs) = skipLayout false rs := by
  cases g with
  | blank c h => simp [Gap.chars, skipLayout, h]
  | comment remark last h =>
      rw [Gap.chars, List.map_append, List.map_cons, List.append_assoc, List.cons_append,
        skipLayout_hash, skipLayout_remark]
      simp [skipLayout, h]

/-- Layout is passed over. -/
theorem skipLayout_gapChars (gs : List Gap) (rs : List Reply) :
    skipLayout false ((gapChars gs).map .char ++ rs) = skipLayout false rs := by
  induction gs with
  | nil => rfl
  | cons g gs ih =>
      rw [gapChars, List.flatMap_cons, List.map_append, List.append_assoc, skipLayout_gap]
      exact ih

/-- A lexeme is no layout. -/
theorem skipLayout_lexeme (x : Lexeme) (cs : List Char) :
    skipLayout false ((x.chars ++ cs).map .char) = (x.chars ++ cs).map .char := by
  obtain ⟨kind, first, others, hbegins, hgoesOn⟩ := x
  have hfirst : isBlank first = false ∧ first ≠ '#' := by
    cases kind with
    | word =>
        refine ⟨isBlank_of_isLetter hbegins, ?_⟩
        rintro rfl
        exact absurd hbegins (by decide)
    | number =>
        obtain ⟨hblank, hhash, -⟩ := class_of_isNumberChar hbegins
        exact ⟨hblank, hhash⟩
    | mark =>
        simp only [Lexeme.Kind.begins, Bool.not_eq_true', Bool.or_eq_false_iff] at hbegins
        exact ⟨hbegins.1.1.1, by simpa using hbegins.2⟩
  simp [Lexeme.chars, skipLayout, hfirst]

end Lexer

/-! ### Texts taken apart -/

/-- A lexeme and the layout before it. -/
structure Piece where
  gap : List Gap
  lexeme : Lexeme

/-- The characters of the piece. -/
def Piece.chars (a : Piece) : List Char := gapChars a.gap ++ a.lexeme.chars

/-- If no layout parts the lexemes, the second does not begin with a character that goes on with the
first. -/
def Piece.Apart (a b : Piece) : Prop :=
  b.gap = [] → a.lexeme.kind.goesOn b.lexeme.first = false

/-- The characters behind the last lexeme: layout, and a comment whose line does not end. -/
def endingChars (trailing : List Gap) (unended : Option Remark) : List Char :=
  gapChars trailing ++ unended.elim [] fun remark => '#' :: remark.1

/-- Lexemes with layout before, between and behind them, and at the end perhaps a comment whose line
does not end. -/
structure Join where
  pieces : List Piece
  trailing : List Gap
  unended : Option Remark
  apart : pieces.IsChain Piece.Apart

namespace Join

/-- The characters of the whole. -/
def chars (j : Join) : List Char :=
  j.pieces.flatMap Piece.chars ++ endingChars j.trailing j.unended

/-- The whole as a text. -/
def text (j : Join) : String := String.ofList j.chars

end Join

/-! ### The items of a join -/

theorem not_goesOn_endingChars (trailing : List Gap) (unended : Option Remark) (k : Lexeme.Kind) :
    ∀ c ∈ (endingChars trailing unended).head?, k.goesOn c = false := by
  refine not_goesOn_gapChars fun _ => ?_
  cases unended with
  | none => nofun
  | some remark => exact Gap.not_goesOn (.comment ⟨[], nofun⟩ '\n' rfl) k

/-- A lexeme does not go on with what follows it in a join. -/
theorem not_goesOn_pieces {ps : List Piece} {a : Piece} (h : ∀ b ∈ ps.head?, a.Apart b)
    (trailing : List Gap) (unended : Option Remark) :
    ∀ c ∈ (ps.flatMap Piece.chars ++ endingChars trailing unended).head?,
      a.lexeme.kind.goesOn c = false := by
  cases ps with
  | nil => exact not_goesOn_endingChars trailing unended a.lexeme.kind
  | cons b ps =>
      rw [List.flatMap_cons, Piece.chars, List.append_assoc, List.append_assoc]
      refine not_goesOn_gapChars fun hgap c hc => ?_
      obtain rfl : b.lexeme.first = c := Option.some.inj hc
      exact h b rfl hgap

namespace Lexer

/-- Nothing follows the layout at the end. -/
theorem skipLayout_endingChars (trailing : List Gap) (unended : Option Remark) :
    skipLayout false ((endingChars trailing unended).map .char) = [] := by
  rw [endingChars, List.map_append, skipLayout_gapChars]
  cases unended with
  | none => rfl
  | some remark =>
      have hremark := skipLayout_remark remark []
      rw [List.append_nil] at hremark
      exact (skipLayout_hash _).trans hremark

/-- A call passes a piece of a text and gives the item of its lexeme. -/
theorem next_piece (a : Piece) {cs : List Char}
    (hcs : ∀ c ∈ cs.head?, a.lexeme.kind.goesOn c = false) :
    (mk ((a.chars ++ cs).map .char)).next = (a.lexeme.item, mk (cs.map .char)) := by
  have hskip : skipLayout false ((a.chars ++ cs).map .char) = (a.lexeme.chars ++ cs).map .char := by
    rw [Piece.chars, List.append_assoc, List.map_append, skipLayout_gapChars, skipLayout_lexeme]
  rw [next, hskip, scan_lexeme a.lexeme hcs]

theorem item_ne_eof (x : Lexeme) : x.item ≠ .eof := by
  have hscan : (scan ((x.chars ++ []).map .char)).1 = x.item := by
    rw [scan_lexeme x (by simp)]
  rw [← hscan]
  exact scan_ne_eof _ _

/-- **The items of a join are those of its lexemes.** -/
theorem items_pieces {ps : List Piece} (hps : ps.IsChain Piece.Apart) (trailing : List Gap)
    (unended : Option Remark) :
    items (mk ((ps.flatMap Piece.chars ++ endingChars trailing unended).map .char)) =
      ps.map fun a => a.lexeme.item := by
  induction ps with
  | nil =>
      refine items_eq_nil ?_
      show (scan (skipLayout false ((endingChars trailing unended).map .char))).1 = .eof
      rw [skipLayout_endingChars]
      rfl
  | cons a ps ih =>
      obtain ⟨ha, hps⟩ := List.isChain_cons.mp hps
      have hnext := next_piece a (not_goesOn_pieces ha trailing unended)
      rw [List.flatMap_cons, List.append_assoc, items_of_next, hnext, ih hps, List.map_cons]
      rw [hnext]
      exact item_ne_eof a.lexeme

end Lexer

/-! ### Every text is a join -/

theorem exists_join_gap (g : Gap) (j : Join) : ∃ j' : Join, j'.chars = g.chars ++ j.chars := by
  obtain ⟨pieces, trailing, unended, apart⟩ := j
  cases pieces with
  | nil => exact ⟨⟨[], g :: trailing, unended, .nil⟩, by simp [Join.chars, endingChars, gapChars]⟩
  | cons a ps =>
      obtain ⟨ha, hps⟩ := List.isChain_cons.mp apart
      exact ⟨⟨⟨g :: a.gap, a.lexeme⟩ :: ps, trailing, unended, hps.cons ha⟩,
        by simp [Join.chars, Piece.chars, gapChars]⟩

theorem exists_join_lexeme (x : Lexeme) (j : Join)
    (h : ∀ c ∈ j.chars.head?, x.kind.goesOn c = false) :
    ∃ j' : Join, j'.chars = x.chars ++ j.chars := by
  obtain ⟨pieces, trailing, unended, apart⟩ := j
  have hx : ∀ b ∈ pieces.head?, Piece.Apart ⟨[], x⟩ b := by
    intro b hb hgap
    cases pieces with
    | nil => cases hb
    | cons b' ps =>
        obtain rfl : b' = b := Option.some.inj hb
        refine h b'.lexeme.first ?_
        simp [Join.chars, Piece.chars, hgap, gapChars, Lexeme.chars]
  exact ⟨⟨⟨[], x⟩ :: pieces, trailing, unended, apart.cons hx⟩,
    by simp [Join.chars, Piece.chars, gapChars]⟩

/-- What is no layout begins a lexeme. -/
theorem exists_kind {c : Char} (hblank : isBlank c = false) (hhash : c ≠ '#') :
    ∃ k : Lexeme.Kind, k.begins c = true := by
  by_cases hletter : isLetter c = true
  · exact ⟨.word, hletter⟩
  · by_cases hnumber : isNumberChar c = true
    · exact ⟨.number, hnumber⟩
    · exact ⟨.mark, by simp [Lexeme.Kind.begins, hblank, hletter, hnumber, hhash]⟩

/-- A line ends somewhere, or not at all. -/
theorem line_cases (cs : List Char) :
    (∀ c ∈ cs, endsLine c = false) ∨ ∃ (remark : Remark) (last : Char) (rest : List Char),
      endsLine last = true ∧ cs = remark.1 ++ last :: rest := by
  induction cs with
  | nil => exact .inl nofun
  | cons c cs ih =>
      by_cases hc : endsLine c = true
      · exact .inr ⟨⟨[], nofun⟩, c, cs, hc, rfl⟩
      rw [Bool.not_eq_true] at hc
      rcases ih with hcs | ⟨remark, last, rest, hlast, rfl⟩
      · exact .inl (List.forall_mem_cons.mpr ⟨hc, hcs⟩)
      · let longer : Remark := ⟨c :: remark.1, List.forall_mem_cons.mpr ⟨hc, remark.2⟩⟩
        exact .inr ⟨longer, last, rest, hlast, rfl⟩

/-- **Every text is a join.**  Layout is taken off piece by piece, and a lexeme as far as it
goes. -/
theorem exists_join (cs : List Char) : ∃ j : Join, j.chars = cs := by
  match cs with
  | [] => exact ⟨⟨[], [], none, .nil⟩, rfl⟩
  | c :: cs =>
      by_cases hblank : isBlank c = true
      · obtain ⟨j, hj⟩ := exists_join cs
        rw [← hj]
        exact exists_join_gap (.blank c hblank) j
      by_cases hhash : c = '#'
      · rcases line_cases cs with hcs | ⟨remark, last, rest, hlast, hcs⟩
        · exact ⟨⟨[], [], some ⟨cs, hcs⟩, .nil⟩, by rw [hhash]; rfl⟩
        · have hlt : rest.length < (c :: cs).length := by
            simp [hcs]
            omega
          obtain ⟨j, hj⟩ := exists_join rest
          obtain ⟨j', hj'⟩ := exists_join_gap (.comment remark last hlast) j
          refine ⟨j', ?_⟩
          rw [hj', hj, hhash, hcs]
          simp [Gap.chars]
      · obtain ⟨k, hk⟩ := exists_kind (Bool.eq_false_iff.mpr hblank) hhash
        let x : Lexeme := ⟨k, c, cs.takeWhile k.goesOn, hk, fun d hd => List.mem_takeWhile_imp hd⟩
        obtain ⟨j, hj⟩ := exists_join (cs.dropWhile k.goesOn)
        have hends : ∀ d ∈ j.chars.head?, k.goesOn d = false := by
          intro d hd
          have hnot := List.head?_dropWhile_not k.goesOn cs
          rwa [← hj, hd] at hnot
        obtain ⟨j', hj'⟩ := exists_join_lexeme x j hends
        refine ⟨j', ?_⟩
        rw [hj', hj, Lexeme.chars, List.cons_append, List.takeWhile_append_dropWhile]
termination_by cs.length
decreasing_by
  · exact Nat.lt_succ_self _
  · exact hlt
  · exact Nat.lt_succ_of_le (List.dropWhile_suffix _).length_le

namespace Lexer

end Lexer

/-! ### Comments behind a text -/

/-- The join with a comment behind it, which goes on with the one it ends in if it does so. -/
def Join.remarked (j : Join) (remark : Remark) : Join where
  pieces := j.pieces
  trailing := j.trailing
  unended := some (j.unended.elim remark fun before =>
    ⟨before.1 ++ '#' :: remark.1, by
      have hhash : endsLine '#' = false := by decide
      exact List.forall_mem_append.mpr ⟨before.2, List.forall_mem_cons.mpr ⟨hhash, remark.2⟩⟩⟩)
  apart := j.apart

theorem Join.chars_remarked (j : Join) (remark : Remark) :
    (j.remarked remark).chars = j.chars ++ '#' :: remark.1 := by
  obtain ⟨pieces, trailing, unended, apart⟩ := j
  cases unended with
  | none => simp [remarked, chars, endingChars]
  | some before => simp [remarked, chars, endingChars]

namespace Lexer

/-- **A comment behind a text adds no items**, wherever the text breaks off. -/
theorem items_comment (a : String) (remark : Remark) :
    items (ofText (a ++ "#" ++ String.ofList remark.1)) = items (ofText a) := by
  obtain ⟨j, hj⟩ := exists_join a.toList
  have hchars : (a ++ "#" ++ String.ofList remark.1).toList = (j.remarked remark).chars := by
    rw [j.chars_remarked, hj]
    simp
  -- both are joins of the same pieces
  rw [items_ofText, items_ofText, hchars, ← hj, Join.chars, Join.chars,
    items_pieces (j.remarked remark).apart, items_pieces j.apart, Join.remarked]

/-- **A newline parts items, and comments vanish.**  The items of two texts with a newline between
them are those of the one and then those of the other; a comment that is put before the newline, or
behind the whole text, makes no difference.  The first text may break off anywhere: in a comment, in
a word or in a malformed number. -/
theorem newlines_part_comments_vanish (a : String) :
    (∀ b, items (ofText (a ++ "\n" ++ b)) = items (ofText a) ++ items (ofText b)) ∧
    ∀ c : String, (∀ x ∈ c.toList, x ≠ '\n' ∧ x ≠ '\r') →
      (∀ b, items (ofText (a ++ "#" ++ c ++ "\n" ++ b)) = items (ofText (a ++ "\n" ++ b))) ∧
      items (ofText (a ++ "#" ++ c)) = items (ofText a) := by
  refine ⟨items_newline a, fun c hc => ?_⟩
  have hremark : ∀ x ∈ c.toList, endsLine x = false := by
    intro x hx
    simp [endsLine, hc x hx]
  have hcomment := items_comment a ⟨c.toList, hremark⟩
  rw [String.ofList_toList] at hcomment
  refine ⟨fun b => ?_, hcomment⟩
  rw [items_newline, items_newline, hcomment]

/-- A text that breaks off in a malformed number, and one that breaks off in a comment. -/
theorem newlines_part_comments_vanish_malformed :
    items (ofText ("x1 1.2." ++ "#" ++ " 3 # ;" ++ "\n" ++ ".4#")) =
      [.token (.ident "x1"), .malformed (.invalidNumber "1.2."), numberItem ['.', '4']] ∧
    items (ofText ("x1 # 1.2." ++ "#" ++ " 3 # ;")) = items (ofText "x1 # 1.2.") := by
  have hc : ∀ x ∈ " 3 # ;".toList, x ≠ '\n' ∧ x ≠ '\r' := by simp
  refine ⟨?_, ((newlines_part_comments_vanish "x1 # 1.2.").2 " 3 # ;" hc).2⟩
  obtain ⟨hlines, hcomments⟩ := newlines_part_comments_vanish "x1 1.2."
  rw [(hcomments " 3 # ;" hc).1, hlines]
  decide +kernel

end Lexer

end Reckon

import Reckon.Proofs.Ahead

/-!
# Proofs — Items

The items of texts that are put together.  A newline parts items and ends a comment, so the items of
two texts with a newline between them are those of the one and then those of the other, wherever the
first one breaks off (`Lexer.items_newline`).

A text that begins with a semicolon begins with that item (`Lexer.items_semicolon`), and one that
begins with digits and points begins with the number they make, or with a malformed lexeme
(`Lexer.items_number`).
-/

namespace Reckon.Lexer

open ItemStream (items items_eq_nil items_eq_cons)

theorem items_of_next {l : Lexer} (h : l.next.1 ≠ .eof) : items l = l.next.1 :: items l.next.2 :=
  items_eq_cons h

/-- The items depend on what follows the layout alone. -/
theorem items_congr {l l' : Lexer} (h : skipLayout false l.rest = skipLayout false l'.rest) :
    items l = items l' := by
  have hnext : l.next = l'.next := by rw [next, next, h]
  by_cases hl : l.next.1 = .eof
  · have hl' : l'.next.1 = .eof := hnext ▸ hl
    exact (items_eq_nil hl).trans (items_eq_nil hl').symm
  · rw [items_of_next hl, items_of_next (l := l') (hnext ▸ hl), hnext]

/-! ### What is left is behind -/

theorem skipLayout_suffix (comment : Bool) (rs : List Reply) : skipLayout comment rs <:+ rs := by
  fun_induction skipLayout comment rs with
  | case1 c rest ih => exact ih.trans (List.suffix_cons _ _)
  | case2 comment c rest hc hb ih => exact ih.trans (List.suffix_cons _ _)
  | case3 comment c rest hc hb hh ih => exact ih.trans (List.suffix_cons _ _)
  | case4 => exact List.suffix_rfl
  | case5 => exact List.suffix_rfl

theorem scan_suffix (rs : List Reply) : (scan rs).2 <:+ rs := by
  fun_cases scan rs with
  | case1 c rest hl word rest' hrun =>
      obtain rfl : rest.dropWhile (matching isWordChar) = rest' := congrArg Prod.snd hrun
      exact (List.dropWhile_suffix _).trans (List.suffix_cons _ _)
  | case2 c rest hl hn digits rest' hrun =>
      obtain rfl : rest.dropWhile (matching isNumberChar) = rest' := congrArg Prod.snd hrun
      exact (List.dropWhile_suffix _).trans (List.suffix_cons _ _)
  | case3 c rest hl hn => exact List.suffix_cons _ _
  | case4 rs h => exact List.suffix_rfl

theorem next_suffix (l : Lexer) : l.next.2.rest <:+ l.rest :=
  (scan_suffix _).trans (skipLayout_suffix false l.rest)

/-! ### Sources of characters -/

/-- Every reply has a character. -/
def Plain (rs : List Reply) : Prop := ∀ r ∈ rs, r.char?.isSome

theorem Plain.of_suffix {rs rs' : List Reply} (h : Plain rs) (hs : rs' <:+ rs) : Plain rs' :=
  fun r hr => h r (hs.subset hr)

theorem plain_map (cs : List Char) : Plain (cs.map .char) := by
  intro r hr
  obtain ⟨c, -, rfl⟩ := List.mem_map.1 hr
  rfl

theorem Plain.eq_nil_or_cons {rs : List Reply} (h : Plain rs) :
    rs = [] ∨ ∃ c rest, rs = .char c :: rest := by
  match rs with
  | [] => exact .inl rfl
  | .char c :: rest => exact .inr ⟨c, rest, rfl⟩
  | .dry :: rest => exact absurd (h .dry List.mem_cons_self) (by simp [Reply.char?])
  | .broken reason :: rest =>
      exact absurd (h (.broken reason) List.mem_cons_self) (by simp [Reply.char?])

/-- Behind the layout there is nothing, or an item. -/
theorem Plain.next_cases {l : Lexer} (h : Plain l.rest) :
    skipLayout false l.rest = [] ∧ l.next.1 = .eof ∨
      (∃ c rest, skipLayout false l.rest = .char c :: rest) ∧ l.next.1 ≠ .eof := by
  rw [next]
  rcases (h.of_suffix (skipLayout_suffix false l.rest)).eq_nil_or_cons with hs | ⟨c, rest, hs⟩
  · exact .inl ⟨hs, by rw [hs]; rfl⟩
  · exact .inr ⟨⟨c, rest, hs⟩, by rw [hs]; exact scan_ne_eof c rest⟩

/-! ### A newline -/

/-- Layout before a newline ends where it ended, or goes on behind the newline, which ends a
comment. -/
theorem skipLayout_append_newline (comment : Bool) {rs : List Reply} (h : Plain rs)
    (more : List Reply) :
    skipLayout comment (rs ++ .char '\n' :: more) =
      if skipLayout comment rs = [] then skipLayout false more
      else skipLayout comment rs ++ .char '\n' :: more := by
  have hblank : isBlank '\n' = true := by decide
  induction rs generalizing comment with
  | nil =>
      cases comment with
      | true => rfl
      | false => simp [skipLayout, hblank]
  | cons r rest ih =>
      have ih' := fun comment => ih comment (h.of_suffix (List.suffix_cons _ _))
      rcases h.eq_nil_or_cons with hnil | ⟨c, rest', hcons⟩
      · cases hnil
      · cases hcons
        simp only [List.cons_append, skipLayout]
        split
        · exact ih' _
        · split
          · exact ih' _
          · split
            · exact ih' _
            · simp

/-- A run of characters ends before a reply that does not belong to it. -/
theorem run_append_of_head {p : Char → Bool} {more : List Reply}
    (h : more.takeWhile (matching p) = []) (rs : List Reply) :
    run p (rs ++ more) = ((run p rs).1, (run p rs).2 ++ more) := by
  have htake : (rs ++ more).takeWhile (matching p) = rs.takeWhile (matching p) := by
    rw [List.takeWhile_append]
    split
    · next hall => rw [h, List.append_nil, (List.takeWhile_prefix _).eq_of_length hall]
    · rfl
  have hdrop : (rs ++ more).dropWhile (matching p) = rs.dropWhile (matching p) ++ more := by
    have hmore : more.dropWhile (matching p) = more := by
      have hsplit := List.takeWhile_append_dropWhile (p := matching p) (l := more)
      rwa [h, List.nil_append] at hsplit
    simp +contextual [List.dropWhile_append, hmore]
  rw [run, run, htake, hdrop]

/-- A run of characters ends at a newline that does not belong to it. -/
theorem run_append_newline {p : Char → Bool} (hp : p '\n' = false) (rs more : List Reply) :
    run p (rs ++ .char '\n' :: more) = ((run p rs).1, (run p rs).2 ++ .char '\n' :: more) :=
  run_append_of_head (by simp [matching, Reply.char?, hp]) rs

/-- An item ends at a newline. -/
theorem scan_append_newline (c : Char) (rest more : List Reply) :
    scan (.char c :: rest ++ .char '\n' :: more) =
      ((scan (.char c :: rest)).1, (scan (.char c :: rest)).2 ++ .char '\n' :: more) := by
  have hword : isWordChar '\n' = false := by decide
  have hnumber : isNumberChar '\n' = false := by decide
  simp only [List.cons_append, scan, run_append_newline hword, run_append_newline hnumber]
  split
  · rfl
  · split <;> rfl

/-- **A newline parts items.**  What is fed behind a newline adds its items. -/
theorem items_feed_newline (l : Lexer) (hl : Plain l.rest) (more : Source) :
    items (l.feed (.char '\n' :: more)) = items l ++ items (Lexer.mk more) := by
  have hlayout := skipLayout_append_newline false hl more
  rcases hl.next_cases with ⟨hnil, heof⟩ | ⟨⟨c, rest, hcons⟩, hne⟩
  · rw [if_pos hnil] at hlayout
    rw [items_eq_nil (s := l) heof, List.nil_append]
    exact items_congr hlayout
  · rw [if_neg (by simp [hcons]), hcons] at hlayout
    have hnext : (l.feed (.char '\n' :: more)).next =
        (l.next.1, l.next.2.feed (.char '\n' :: more)) := by
      rw [next, next, hcons, feed, hlayout, scan_append_newline]
      rfl
    have ih := items_feed_newline l.next.2 (hl.of_suffix (next_suffix l)) more
    rw [items_of_next (by rwa [hnext]), items_of_next hne, hnext, ih, List.cons_append]
termination_by l.rest.length
decreasing_by exact length_next_lt hne

/-! ### Texts -/

theorem skipLayout_ofSource (source : Source) :
    skipLayout false (ofSource source).rest = skipLayout false source := by
  have hblank : isBlank ' ' = true := by decide
  simp [ofSource, skipLayout, hblank]

theorem items_ofText (text : String) :
    items (Lexer.ofText text) = items (Lexer.mk (text.toList.map .char)) :=
  items_congr (skipLayout_ofSource (Source.ofText text))

/-- **Items of texts with a newline between them**, wherever the first one breaks off. -/
theorem items_newline (a b : String) :
    items (ofText (a ++ "\n" ++ b)) = items (ofText a) ++ items (ofText b) := by
  have h := items_feed_newline ⟨a.toList.map .char⟩ (plain_map _) (b.toList.map .char)
  rw [items_ofText, items_ofText, items_ofText, ← h, feed]
  simp

/-- A character that is no layout begins an item. -/
theorem items_cons {c : Char} (hb : isBlank c = false) (hc : c ≠ '#') (rest : List Reply) :
    items (Lexer.mk (.char c :: rest)) =
      (scan (.char c :: rest)).1 :: items (Lexer.mk (scan (.char c :: rest)).2) := by
  have hnext : (Lexer.mk (.char c :: rest)).next =
      ((scan (.char c :: rest)).1, ⟨(scan (.char c :: rest)).2⟩) := by
    simp [next, skipLayout, hb, hc]
  rw [items_of_next (by rw [hnext]; exact scan_ne_eof c rest), hnext]

theorem items_semicolon (b : String) :
    items (ofText (";" ++ b)) = .token (.char ';') :: items (ofText b) := by
  have hscan : ∀ rest, scan (.char ';' :: rest) = (.token (.char ';'), rest) := by
    have hletter : isLetter ';' = false := by decide
    have hnumber : isNumberChar ';' = false := by decide
    simp [scan, hletter, hnumber]
  have htext : (";" ++ b).toList.map Reply.char = .char ';' :: b.toList.map .char := by simp
  rw [items_ofText, items_ofText, htext, items_cons (by decide) (by decide), hscan]

/-- A character of a number is neither layout nor a letter. -/
theorem class_of_isNumberChar {c : Char} (h : isNumberChar c = true) :
    isBlank c = false ∧ c ≠ '#' ∧ isLetter c = false := by
  have hc : 0x2E ≤ c.toNat ∧ c.toNat ≤ 0x39 := by
    rw [isNumberChar, Bool.or_eq_true, beq_iff_eq] at h
    rcases h with h | rfl
    · simp only [Char.isDigit, ge_iff_le, Bool.and_eq_true, decide_eq_true_eq,
        UInt32.le_iff_toNat_le] at h
      exact ⟨Nat.le_trans (by decide) h.1, h.2⟩
    · decide
  obtain ⟨hlo, hhi⟩ := hc
  refine ⟨?_, ?_, ?_⟩
  · -- between the second range of blanks and the third
    have h : ¬ c.toNat < 0x9 ∧ ¬ c.toNat ≤ 0xD ∧ ¬ c.toNat < 0x20 ∧ ¬ c.toNat ≤ 0x20 ∧
        c.toNat < 0x85 := by omega
    simp [isBlank, blankRanges, CodeRanges.covers, CodeRanges.search, h]
  · rintro rfl
    exact absurd hlo (by decide)
  · exact if_pos (Nat.lt_of_le_of_lt hhi (by decide))

/-- A text that begins with digits and points begins with the item they make. -/
theorem items_number {b : String} (hb : b.toList.takeWhile isNumberChar ≠ []) :
    ∃ rest, items (ofText b) = numberItem (b.toList.takeWhile isNumberChar) :: rest := by
  match htext : b.toList with
  | [] => simp [htext] at hb
  | c :: cs =>
      have hc : isNumberChar c = true := by
        rw [htext, List.takeWhile_cons] at hb
        split at hb
        · assumption
        · exact absurd rfl hb
      obtain ⟨hblank, hhash, hletter⟩ := class_of_isNumberChar hc
      have hrun : (run isNumberChar (cs.map .char)).1 = cs.takeWhile isNumberChar := by
        have hfun : matching isNumberChar ∘ Reply.char = isNumberChar := rfl
        simp [run, List.takeWhile_map, hfun, List.filterMap_map, Function.comp_def, Reply.char?]
      have hscan : (scan (.char c :: cs.map .char)).1 =
          numberItem ((c :: cs).takeWhile isNumberChar) := by
        simp [scan, hletter, hc, hrun]
      rw [items_ofText, htext, List.map_cons, items_cons hblank hhash, hscan]
      exact ⟨_, rfl⟩

end Reckon.Lexer

import Reckon.Proofs.Layout

/-!
# Proofs — Exhaustion

The first reply without a character is the end for a scanner, whatever its source would answer
later.  All the scanner does stops at such a reply and leaves it in place: layout
(`Lexer.skipLayout_append_ended`), runs of characters and items (`Lexer.scan_append_ended`).  So a
call over a source is the call over its text with the rest of the replies behind it
(`Lexer.next_feed_ended`), and so are any number of calls (`Lexer.after_feed_ended`).

A source is often a machine that makes up its replies as it is asked (`Source.answers`); it gives a
text and then no character (`Source.Gives`), whatever it has in store, or a text and is then in some
state (`Source.Hands`).

* `Source.ends_at_first_silence`: what is asked, what the calls find, and what sessions make of it.
-/

namespace Reckon

open ItemStream (items items_eq_nil)

/-! ### What stops at the end -/

namespace Lexer

variable {tail : List Reply}

theorem takeWhile_of_ended (h : (mk tail).ended = true) (p : Char → Bool) :
    tail.takeWhile (matching p) = [] := by
  match tail with
  | [] => rfl
  | .char c :: rest => simp [ended] at h
  | .dry :: rest => rfl
  | .broken reason :: rest => rfl

theorem skipLayout_of_ended (h : (mk tail).ended = true) (comment : Bool) :
    skipLayout comment tail = tail := by
  match tail with
  | [] => rfl
  | .char c :: rest => simp [ended] at h
  | .dry :: rest => rfl
  | .broken reason :: rest => rfl

/-- Layout stops at the end, also inside a comment. -/
theorem skipLayout_append_ended (h : (mk tail).ended = true) (comment : Bool) (rs : List Reply) :
    skipLayout comment (rs ++ tail) = skipLayout comment rs ++ tail := by
  fun_induction skipLayout comment rs with
  | case1 c rest ih => simpa [skipLayout] using ih
  | case2 comment c rest hc hb ih => simpa [skipLayout, hc, hb] using ih
  | case3 comment c rest hc hb hh ih => simpa [skipLayout, hc, hb, hh] using ih
  | case4 comment c rest hc hb hh => simp [skipLayout, hc, hb, hh]
  | case5 comment rs hrs =>
      cases rs with
      | nil => exact skipLayout_of_ended h comment
      | cons r rest =>
          cases r with
          | char c => exact absurd rfl (hrs c rest)
          | dry => rfl
          | broken reason => rfl

/-- An item stops at the end, and is then complete. -/
theorem scan_append_ended (h : (mk tail).ended = true) (rs : List Reply) :
    scan (rs ++ tail) = ((scan rs).1, (scan rs).2 ++ tail) := by
  have hrun (p : Char → Bool) := run_append_of_head (takeWhile_of_ended h p)
  match rs with
  | [] =>
      have hnext : (mk tail).next = (.eof, mk tail) := next_of_ended h
      simp only [next, skipLayout_of_ended h, Prod.mk.injEq, mk.injEq] at hnext
      exact Prod.ext hnext.1 hnext.2
  | .dry :: rest => rfl
  | .broken reason :: rest => rfl
  | .char c :: rest =>
      simp only [List.cons_append, scan, hrun]
      split
      · rfl
      · split <;> rfl

/-- A call stops at the end. -/
theorem next_feed_ended (h : (mk tail).ended = true) (l : Lexer) :
    (l.feed tail).next = (l.next.1, l.next.2.feed tail) := by
  simp only [next, feed, skipLayout_append_ended h, scan_append_ended h]

/-! ### Calls in a row -/

/-- The scanner after so many calls. -/
def after (l : Lexer) : Nat → Lexer
  | 0 => l
  | n + 1 => (l.after n).next.2

theorem after_suffix (l : Lexer) (n : Nat) : (l.after n).rest <:+ l.rest := by
  induction n with
  | zero => exact List.suffix_rfl
  | succ n ih => exact (next_suffix _).trans ih

theorem after_feed_ended (h : (mk tail).ended = true) (l : Lexer) (n : Nat) :
    (l.feed tail).after n = (l.after n).feed tail := by
  induction n with
  | zero => rfl
  | succ n ih => rw [after, ih, next_feed_ended h, after]

/-- Calls after the end change nothing. -/
theorem after_eq_of_ended {l : Lexer} {n m : Nat} (h : (l.after n).ended = true) (hnm : n ≤ m) :
    l.after m = l.after n := by
  induction hnm with
  | refl => rfl
  | step _ ih => rw [after, ih, next_of_ended h]

/-- **The end closes the items**, whatever is behind it. -/
theorem items_feed_ended (h : (mk tail).ended = true) (l : Lexer) :
    items (l.feed tail) = items l := by
  have hnext := next_feed_ended h l
  by_cases heof : l.next.1 = .eof
  · have heof' : (l.feed tail).next.1 = .eof := by rw [hnext, heof]
    exact (items_eq_nil heof').trans (items_eq_nil (s := l) heof).symm
  · have ih := items_feed_ended h l.next.2
    rw [items_of_next (by rwa [hnext]), items_of_next heof, hnext, ih]
termination_by l.rest.length
decreasing_by exact length_next_lt heof

/-- How often the scanner has asked the source it was started on: it has been given the replies that
are not left, and looks at the last of them.  The first one it looks at is a blank of its own. -/
def asked (source : Source) (l : Lexer) : Nat := source.length + 1 - l.rest.length

theorem asked_feed (source : Source) (l : Lexer) (tail : List Reply) :
    (l.feed tail).asked (source ++ tail) = l.asked source := by
  rw [asked, asked, feed, List.length_append, List.length_append]
  omega

/-- Behind the reply it looks at the scanner has those it has not asked for. -/
theorem tail_rest_after (source : Source) (n : Nat) :
    ((ofSource source).after n).rest.tail =
      source.drop (((ofSource source).after n).asked source) := by
  have hrest := List.suffix_iff_eq_drop.mp ((ofSource source).after_suffix n)
  rw [hrest, List.tail_drop]
  rfl

/-- A scanner over characters comes to what is behind them when none is left. -/
theorem Plain.ended_feed_iff {l : Lexer} (hl : Plain l.rest) (h : (mk tail).ended = true) :
    (l.feed tail).ended = true ↔ l.rest = [] := by
  rcases hl.eq_nil_or_cons with hrest | ⟨c, rest, hrest⟩
  · simpa [feed, hrest] using h
  · simp [feed, hrest, ended]

end Lexer

/-! ### Sources and their texts -/

namespace Source

open Lexer (ofSource skipLayout plain_map)

theorem text_cons (c : Char) (s : Source) : text (.char c :: s) = c :: text s := rfl

/-- The replies are the characters of the text, and then none or one that has no character. -/
theorem exists_tail (s : Source) :
    ∃ tail, (Lexer.mk tail).ended = true ∧ s = s.text.map .char ++ tail := by
  induction s with
  | nil => exact ⟨[], rfl, rfl⟩
  | cons r rest ih =>
      cases r with
      | char c =>
          obtain ⟨tail, hended, hrest⟩ := ih
          refine ⟨tail, hended, ?_⟩
          rw [text_cons, List.map_cons, List.cons_append, ← hrest]
      | dry => exact ⟨.dry :: rest, rfl, rfl⟩
      | broken reason => exact ⟨.broken reason :: rest, rfl, rfl⟩

/-- What a call finds in the replies that are left is what it finds in their text. -/
theorem next_text (l : Lexer) : l.next.1 = (Lexer.mk ((text l.rest).map .char)).next.1 := by
  obtain ⟨tail, hended, hrest⟩ := exists_tail l.rest
  have hl : l = (Lexer.mk ((text l.rest).map .char)).feed tail := congrArg Lexer.mk hrest
  calc l.next.1
    _ = ((Lexer.mk ((text l.rest).map .char)).feed tail).next.1 := by rw [← hl]
    _ = (Lexer.mk ((text l.rest).map .char)).next.1 := by rw [Lexer.next_feed_ended hended]

/-- A call finds the end if nothing but layout is left. -/
theorem next_eq_eof_iff (l : Lexer) :
    l.next.1 = .eof ↔ skipLayout false ((text l.rest).map .char) = [] := by
  rw [next_text]
  rcases (plain_map (text l.rest)).next_cases (l := ⟨_⟩) with ⟨hnil, heof⟩ | ⟨⟨c, rest, hcons⟩, hne⟩
  · exact iff_of_true heof hnil
  · exact iff_of_false hne (by simp [hcons])

/-- For a scanner the source is these characters and then the end. -/
structure EndsAt (source : Source) (chars : List Char) : Prop where
  /-- the scanner asks for the characters and one reply more, and no further -/
  asked (n : Nat) : ((ofSource source).after n).asked source ≤ chars.length + 1
  /-- it has ended when it has been given that reply -/
  ended (n : Nat) : ((ofSource source).after n).ended = true ↔
    ((ofSource source).after n).asked source = chars.length + 1
  /-- every call, also the one that meets the end, finds what it finds in the characters alone -/
  call (n : Nat) :
    ((ofSource source).after n).next.1 = ((ofSource (chars.map .char)).after n).next.1
  /-- a call finds the end exactly if nothing but layout is left -/
  eof (n : Nat) : ((ofSource source).after n).next.1 = .eof ↔
    skipLayout false ((text ((ofSource source).after n).rest).map .char) = []
  /-- when the scanner has ended, every call finds the end and leaves the scanner as it is -/
  final (n m : Nat) : ((ofSource source).after n).ended = true → n ≤ m →
    (ofSource source).after m = (ofSource source).after n ∧
      ((ofSource source).after m).next.1 = .eof
  /-- the items are those of the characters -/
  items : items (ofSource source) = items (ofSource (chars.map .char))
  /-- and sessions are those over the characters -/
  session (ops : Operators) (g : Generator) :
    Session.Same (Session.ofSource ops g (chars.map .char)) (Session.ofSource ops g source)

/-- Behind the characters of a source it makes no difference what is answered. -/
theorem endsAt_append (chars : List Char) {tail : List Reply} (h : (Lexer.mk tail).ended = true) :
    EndsAt (chars.map .char ++ tail) chars := by
  let cut : Lexer := ofSource (chars.map .char)
  have hafter (n : Nat) : (ofSource (chars.map .char ++ tail)).after n = (cut.after n).feed tail :=
    Lexer.after_feed_ended h cut n
  have hasked (n : Nat) :
      ((ofSource (chars.map .char ++ tail)).after n).asked (chars.map .char ++ tail) =
        chars.length + 1 - (cut.after n).rest.length := by
    rw [hafter, Lexer.asked_feed, Lexer.asked, List.length_map]
  have hsuffix (n : Nat) : (cut.after n).rest <:+ (' ' :: chars).map .char :=
    Lexer.after_suffix cut n
  have hitems : ItemStream.items (ofSource (chars.map .char ++ tail)) = ItemStream.items cut :=
    Lexer.items_feed_ended h cut
  refine ⟨fun n => ?_, fun n => ?_, fun n => ?_, fun n => next_eq_eof_iff _, fun n m hn hnm => ?_,
    hitems, fun ops g => Session.same_of_items ops g hitems⟩
  · rw [hasked]
    exact Nat.sub_le _ _
  · have hplain : Lexer.Plain (cut.after n).rest := (plain_map (' ' :: chars)).of_suffix (hsuffix n)
    have hle : (cut.after n).rest.length ≤ chars.length + 1 := by simpa using (hsuffix n).length_le
    rw [hasked, hafter, hplain.ended_feed_iff h, ← List.length_eq_zero_iff]
    omega
  · rw [hafter, Lexer.next_feed_ended h]
  · have hm := Lexer.after_eq_of_ended hn hnm
    exact ⟨hm, by rw [hm, Lexer.next_of_ended hn]⟩

/-! ### Machines -/

section Machine

variable {ι : Type}

/-- The first replies of a machine that is asked again and again. -/
def answers (ask : ι → Reply × ι) (s : ι) : Nat → Source
  | 0 => []
  | n + 1 => (ask s).1 :: answers ask (ask s).2 n

/-- Asked again and again, the machine gives these characters and then none. -/
inductive Gives (ask : ι → Reply × ι) : ι → List Char → Prop
  | none {s : ι} (h : (ask s).1.char? = none) : Gives ask s []
  | char {s : ι} {c : Char} {cs : List Char} (h : (ask s).1 = .char c)
      (rest : Gives ask (ask s).2 cs) : Gives ask s (c :: cs)

/-- The machine after so many requests. -/
def stateAfter (ask : ι → Reply × ι) (s : ι) : Nat → ι
  | 0 => s
  | n + 1 => stateAfter ask (ask s).2 n

theorem drop_answers (ask : ι → Reply × ι) (s : ι) (k limit : Nat) :
    (answers ask s limit).drop k = answers ask (stateAfter ask s k) (limit - k) := by
  induction k generalizing s limit with
  | zero => rfl
  | succ k ih =>
      cases limit with
      | zero => simp [answers]
      | succ limit =>
          rw [answers, List.drop_succ_cons, ih, stateAfter, Nat.add_sub_add_right]

/-- Asked for these characters, the machine gives them and is in the state `t` then. -/
inductive Hands (ask : ι → Reply × ι) : ι → List Char → ι → Prop
  | nil (t : ι) : Hands ask t [] t
  | cons {s t : ι} {c : Char} {cs : List Char} (h : (ask s).1 = .char c)
      (rest : Hands ask (ask s).2 cs t) : Hands ask s (c :: cs) t

theorem Hands.answers_eq {ask : ι → Reply × ι} {s t : ι} {cs : List Char} (h : Hands ask s cs t) :
    answers ask s cs.length = cs.map .char ∧ stateAfter ask s cs.length = t := by
  induction h with
  | nil t => exact ⟨rfl, rfl⟩
  | cons h _ ih =>
      obtain ⟨hanswers, hstate⟩ := ih
      exact ⟨by rw [List.length_cons, answers, h, hanswers, List.map_cons], hstate⟩

/-- Asked for some of the characters, it still has to give the others. -/
theorem Hands.drop {ask : ι → Reply × ι} {s t : ι} {cs : List Char} (h : Hands ask s cs t) {n : Nat}
    (hn : n ≤ cs.length) : Hands ask (stateAfter ask s n) (cs.drop n) t := by
  induction h generalizing n with
  | nil t =>
      obtain rfl : n = 0 := Nat.le_zero.mp hn
      exact .nil t
  | cons h rest ih =>
      cases n with
      | zero => exact .cons h rest
      | succ n => exact ih (Nat.le_of_succ_le_succ hn)

/-- What the machine answers after it has given no character does not show in the text. -/
theorem Gives.text_answers {ask : ι → Reply × ι} {s : ι} {cs : List Char} (h : Gives ask s cs)
    {limit : Nat} (hlimit : cs.length < limit) : text (answers ask s limit) = cs := by
  induction h generalizing limit with
  | none h =>
      obtain ⟨n, rfl⟩ := Nat.exists_eq_add_one_of_ne_zero (Nat.ne_zero_of_lt hlimit)
      simp [answers, text, h]
  | char h _ ih =>
      obtain ⟨n, rfl⟩ := Nat.exists_eq_add_one_of_ne_zero (Nat.ne_zero_of_lt hlimit)
      rw [answers, h, text_cons, ih (Nat.lt_of_succ_lt_succ hlimit)]

end Machine

/-- A source ends behind its text, whatever replies it has left. -/
theorem endsAt_text (source : Source) : EndsAt source source.text := by
  obtain ⟨tail, hended, hsource⟩ := exists_tail source
  have h := endsAt_append source.text hended
  rwa [← hsource] at h

/-- **The first reply without a character is the end.**  A scanner asks its source for the
characters before that reply and for the reply, and never again.  The call that meets it completes
its item; every later call finds the end of the input.  So the items, and the sessions over the
source, are those of the characters alone.  The same goes for the replies of a machine, however many
it would have given: it is left in the state in which those requests leave it. -/
theorem ends_at_first_silence :
    (∀ source : Source, EndsAt source source.text) ∧
    ∀ {ι : Type} (ask : ι → Reply × ι) (start : ι) (chars : List Char), Gives ask start chars →
      ∀ limit, chars.length < limit → EndsAt (answers ask start limit) chars ∧ ∀ n,
        let l := (ofSource (answers ask start limit)).after n
        let requests := l.asked (answers ask start limit)
        l.rest.tail = answers ask (stateAfter ask start requests) (limit - requests) := by
  refine ⟨endsAt_text, fun ask start chars hgives limit hlimit => ⟨?_, fun n => ?_⟩⟩
  · have h := endsAt_text (answers ask start limit)
    rwa [hgives.text_answers hlimit] at h
  · intro l requests
    calc l.rest.tail
      _ = (answers ask start limit).drop requests := Lexer.tail_rest_after _ n
      _ = answers ask (stateAfter ask start requests) (limit - requests) := drop_answers _ _ _ _

/-- A reader that fails on the second line of a definition and has another line then, and a machine
that gives three letters, fails, and goes on so for ever. -/
theorem ends_at_first_silence_failed :
    let reader := ofDeliveries
      [.bytes "def f(x) 1.5\n".toUTF8.toList, .bytes "+ x".toUTF8.toList, .failed "reset",
        .bytes "+ 2\n".toUTF8.toList]
    let ask (n : Nat) : Reply × Nat := (if n % 4 = 3 then .broken "reset" else .char 'a', n + 1)
    EndsAt reader "def f(x) 1.5\n".toList ∧ reader.length = 18 ∧
    ∀ limit, 3 < limit → EndsAt (answers ask 0 limit) ['a', 'a', 'a'] := by
  intro reader ask
  have hreader : reader.text = "def f(x) 1.5\n".toList := by decide +kernel
  have hgives : Gives ask 0 ['a', 'a', 'a'] := .char rfl (.char rfl (.char rfl (.none rfl)))
  exact ⟨hreader ▸ ends_at_first_silence.1 reader, by decide +kernel,
    fun limit hlimit => (ends_at_first_silence.2 ask 0 _ hgives limit hlimit).1⟩

end Source

end Reckon

import Reckon.Proofs.Decoding
import Reckon.Proofs.Exhaustion

/-!
# Proofs — Demand

A reader that is asked for characters one at a time.  It asks for bytes when its line is used up,
and for no more of them than complete the next line.  Asked again and again it answers what its
deliveries amount to (`Reader.answers_eq`), so a source can be taken for the reader it is made from.

A line is read when the one before it is used up, so a reader that has just given a newline has
read nothing behind it (`Reader.Unbroken.line_of_hands`).  Where bytes that are complete lines stand
before others (`Reader.Before`), the text of the lines is given and the bytes behind them are left
(`Reader.Owes.hands`).
-/

namespace Reckon

/-- The bytes the reader hands over. -/
def Delivery.handed : Delivery → List UInt8
  | .bytes bs => bs
  | .interrupted => []
  | .failed _ => []

/-- The reader hands over bytes or is interrupted; it neither has nothing nor fails. -/
def Delivery.Flowing : Delivery → Prop
  | .bytes bs => bs ≠ []
  | .interrupted => True
  | .failed _ => False

/-! ### Lines -/

namespace Reader

theorem cutLine_eq_none_iff {bytes : List UInt8} : cutLine bytes = none ↔ 0x0A ∉ bytes := by
  fun_induction cutLine bytes with
  | case1 => simp
  | case2 bs => simp
  | case3 b bs hb ih => simp [ih, Ne.symm hb]

theorem cutLine_eq_some_iff {bytes line rest : List UInt8} : cutLine bytes = some (line, rest) ↔
    ∃ before, 0x0A ∉ before ∧ line = before ++ [0x0A] ∧ bytes = before ++ 0x0A :: rest := by
  refine ⟨fun h => ?_, ?_⟩
  · fun_induction cutLine bytes generalizing line with
    | case1 => cases h
    | case2 bs => exact ⟨[], by simpa [eq_comm] using h⟩
    | case3 b bs hb ih =>
        obtain ⟨⟨line, _⟩, hcut, heq⟩ := Option.map_eq_some_iff.mp h
        cases heq
        obtain ⟨before, hbefore, rfl, rfl⟩ := ih hcut
        exact ⟨b :: before, by simp [hbefore, Ne.symm hb], rfl, rfl⟩
  · rintro ⟨before, hbefore, rfl, rfl⟩
    induction before with
    | nil => rfl
    | cons b before ih =>
        obtain ⟨hb, hbefore⟩ := List.ne_and_not_mem_of_not_mem_cons hbefore
        rw [List.cons_append, cutLine, if_neg (Ne.symm hb), ih hbefore]
        rfl

end Reader

/-! ### What comes in -/

namespace Source.Intake

/-- What has come in, behind other replies. -/
def after (replies : Array Reply) (i : Intake) : Intake :=
  { i with replies := replies ++ i.replies }

theorem after_flush (replies : Array Reply) (i : Intake) :
    (i.after replies).flush = i.flush.after replies := by
  simp [Intake.after, Intake.flush, ← Array.toList_inj]

theorem after_byte (replies : Array Reply) (i : Intake) (b : UInt8) :
    (i.after replies).byte b = (i.byte b).after replies := by
  simp only [Intake.byte]
  split
  · exact after_flush replies { i with line := i.line.push b }
  · rfl

theorem after_bytes (replies : Array Reply) (i : Intake) (bs : List UInt8) :
    bs.foldl byte (i.after replies) = (bs.foldl byte i).after replies := by
  induction bs generalizing i with
  | nil => rfl
  | cons b bs ih => rw [List.foldl_cons, List.foldl_cons, after_byte, ih]

theorem after_deliver (replies : Array Reply) (i : Intake) (d : Delivery) :
    (i.after replies).deliver d = (i.deliver d).after replies := by
  match d with
  | .bytes [] =>
      simp only [Intake.deliver]
      have hline : (i.after replies).line = i.line := rfl
      rw [hline]
      split
      · simp [Intake.after]
      · exact after_flush replies i
  | .bytes (b :: bs) => exact after_bytes replies i (b :: bs)
  | .interrupted => rfl
  | .failed reason => simp [Intake.deliver, Intake.after]

theorem after_deliveries (replies : Array Reply) (i : Intake) (ds : List Delivery) :
    ds.foldl deliver (i.after replies) = (ds.foldl deliver i).after replies := by
  induction ds generalizing i with
  | nil => rfl
  | cons d ds ih => rw [List.foldl_cons, List.foldl_cons, after_deliver, ih]

/-- All that is answered when so much has come in and these deliveries are to come. -/
def source (i : Intake) (ds : List Delivery) : Source :=
  (ds.foldl deliver i).flush.replies.toList

theorem source_after (replies : Array Reply) (i : Intake) (ds : List Delivery) :
    (i.after replies).source ds = replies.toList ++ i.source ds := by
  rw [source, source, after_deliveries, after_flush]
  exact Array.toList_append

theorem byte_of_ne {b : UInt8} (hb : b ≠ 0x0A) (i : Intake) :
    i.byte b = { i with line := i.line.push b } := by
  simp [byte, hb]

/-- Bytes that complete no line go on with the one begun. -/
theorem foldl_byte {bytes : List UInt8} (h : 0x0A ∉ bytes) (i : Intake) :
    bytes.foldl byte i = { i with line := i.line ++ bytes.toArray } := by
  induction bytes generalizing i with
  | nil => simp
  | cons b bytes ih =>
      obtain ⟨hb, hbytes⟩ := List.ne_and_not_mem_of_not_mem_cons h
      rw [List.foldl_cons, byte_of_ne (Ne.symm hb), ih hbytes]
      simp

/-- The first newline hands on the line begun. -/
theorem foldl_byte_newline {begun before : List UInt8} (h : 0x0A ∉ before) (rest : List UInt8) :
    (before ++ 0x0A :: rest).foldl byte ⟨#[], begun.toArray⟩ =
      (rest.foldl byte {}).after
        ((Utf8.decode (begun ++ (before ++ [0x0A]))).map .char).toArray := by
  have hline : byte ⟨#[], begun.toArray ++ before.toArray⟩ 0x0A =
      ({} : Intake).after ((Utf8.decode (begun ++ (before ++ [0x0A]))).map .char).toArray := by
    simp [byte, flush, after]
  rw [List.foldl_append, foldl_byte h, List.foldl_cons, hline, after_bytes]

theorem source_cons {bs : List UInt8} (h : bs ≠ []) (i : Intake) (later : List Delivery) :
    i.source (.bytes bs :: later) = (bs.foldl byte i).source later := by
  cases bs with
  | nil => exact absurd rfl h
  | cons b bs => rfl

end Source.Intake

namespace Reader

open Source (Hands Intake answers)

/-- All that the reader answers until it has nothing any more. -/
def source (r : Reader) : Source :=
  r.line.map .char ++ (r.buffer.foldl Intake.byte {}).source r.deliveries

/-- What is answered for a line that has been read, or could not be. -/
def replies : Except String (List UInt8) → Source
  | .error reason => [.broken reason]
  | .ok [] => [.dry]
  | .ok bytes => (Utf8.decode bytes).map .char

/-- A line is read where these replies are to come: it makes the first of them, unless there is none
and nothing is delivered any more. -/
inductive Reads (source : Source) : Except String (List UInt8) × Reader → Prop
  | line {line : Except String (List UInt8)} {r : Reader} (hr : r.line = [])
      (h : source = replies line ++ r.source) : Reads source (line, r)
  | nothing (h : source = []) : Reads source (.ok [], { deliveries := [] })

theorem replies_ok {bytes : List UInt8} (h : bytes ≠ []) :
    replies (.ok bytes) = (Utf8.decode bytes).map .char := by
  cases bytes with
  | nil => exact absurd rfl h
  | cons b bytes => rfl

theorem reads_cut (begun : List UInt8) {before rest : List UInt8} {ds : List Delivery}
    (h : 0x0A ∉ before) :
    Reads (((before ++ 0x0A :: rest).foldl Intake.byte ⟨#[], begun.toArray⟩).source ds)
      (.ok (begun ++ (before ++ [0x0A])), { deliveries := ds, buffer := rest }) := by
  refine .line rfl ?_
  rw [Intake.foldl_byte_newline h, Intake.source_after, replies_ok (by simp)]
  rfl

theorem reads_fetchLine {begun : List UInt8} (h : 0x0A ∉ begun) (ds : List Delivery) :
    Reads (Intake.source ⟨#[], begun.toArray⟩ ds) (fetchLine begun ds) := by
  have hnil : Utf8.decode [] = [] := rfl
  fun_induction fetchLine begun ds with
  | case1 begun =>
      by_cases hbegun : begun = []
      · subst hbegun
        exact .nothing rfl
      · refine .line rfl ?_
        rw [replies_ok hbegun]
        simp [source, Intake.source, Intake.flush, hnil]
  | case2 begun later =>
      refine .line rfl ?_
      by_cases hbegun : begun = []
      · subst hbegun
        exact Intake.source_after #[.dry] {} later
      · have hflush : Intake.deliver ⟨#[], begun.toArray⟩ (.bytes []) =
            ({} : Intake).after ((Utf8.decode begun).map .char).toArray := by
          simp [Intake.deliver, Intake.flush, Intake.after, hbegun]
        rw [replies_ok hbegun]
        exact (congrArg (·.source later) hflush).trans (Intake.source_after _ {} later)
  | case3 begun bs later hbs line buffer hcut =>
      obtain ⟨before, hbefore, rfl, rfl⟩ := cutLine_eq_some_iff.mp hcut
      rw [Intake.source_cons hbs]
      exact reads_cut begun hbefore
  | case4 begun bs later hbs hcut ih =>
      have hbytes := cutLine_eq_none_iff.mp hcut
      have hbegun : 0x0A ∉ begun ++ bs := by simp [h, hbytes]
      have hread := ih hbegun
      rw [Intake.source_cons hbs, Intake.foldl_byte hbytes]
      simpa using hread
  | case5 begun later ih => exact ih h
  | case6 begun reason later => exact .line rfl (Intake.source_after #[.broken reason] {} later)

theorem reads_readLine {r : Reader} (h : r.line = []) : Reads r.source r.readLine := by
  obtain ⟨deliveries, buffer, line⟩ := r
  obtain rfl : line = [] := h
  rw [readLine]
  split
  · next line rest hcut =>
      obtain ⟨before, hbefore, rfl, rfl⟩ := cutLine_eq_some_iff.mp hcut
      exact reads_cut [] hbefore
  · next hcut =>
      have hbytes := cutLine_eq_none_iff.mp hcut
      have hread := reads_fetchLine hbytes deliveries
      rw [source, Intake.foldl_byte hbytes]
      simpa using hread

/-- A line is handed on by its first character. -/
theorem Reads.handOn {source : Source} {read : Except String (List UInt8) × Reader}
    (h : Reads source read) :
    source = (handOn read).1 :: (handOn read).2.source ∨
      source = [] ∧ handOn read = (.dry, { deliveries := [] }) := by
  cases h with
  | nothing h => exact .inr ⟨h, rfl⟩
  | @line line r hr h =>
      refine .inl ?_
      subst h
      match line with
      | .error reason => rfl
      | .ok [] => rfl
      | .ok (b :: bytes) =>
          cases hdecode : Utf8.decode (b :: bytes) with
          | nil => exact absurd (Utf8.decode_eq_nil hdecode) (List.cons_ne_nil b bytes)
          | cons c line => simp [Reader.handOn, replies, hdecode, Reader.source, hr]

theorem ask_of_cons {r : Reader} {c : Char} {line : List Char} (h : r.line = c :: line) :
    r.ask = (.char c, { r with line }) := by
  rw [ask, h]

theorem ask_of_nil {r : Reader} (h : r.line = []) : r.ask = handOn r.readLine := by
  rw [ask, h]

/-- **The reader gives the first of its replies**, if there is one. -/
theorem ask_cases (r : Reader) :
    r.source = r.ask.1 :: r.ask.2.source ∨
      r.source = [] ∧ r.ask = (.dry, { deliveries := [] }) := by
  cases hline : r.line with
  | cons c line =>
      rw [ask_of_cons hline, source, hline]
      exact .inl rfl
  | nil =>
      rw [ask_of_nil hline]
      exact (reads_readLine hline).handOn

/-- **A reader that is asked for its deliveries on demand answers what they amount to**, and then
that there is nothing. -/
theorem answers_eq (r : Reader) (n : Nat) : answers ask r n = r.source.takeD n Reply.dry := by
  induction n generalizing r with
  | zero => rfl
  | succ n ih =>
      rw [answers, ih]
      rcases ask_cases r with h | ⟨h, hask⟩
      · rw [h]
        rfl
      · rw [h, hask]
        rfl

/-! ### What is left -/

/-- The reader gives these bytes before it comes to the bytes `back` and then to the deliveries
`later`.  It has the delivery that holds the last of the bytes at hand, or has not asked for it. -/
inductive Before (back : List UInt8) (later : List Delivery) : Reader → List UInt8 → Prop
  | within (bytes : List UInt8) (line : List Char) :
      Before back later ⟨later, bytes ++ back, line⟩ bytes
  | ahead {ds : List Delivery} (hds : ∀ d ∈ ds, d.Flowing) {front : List UInt8}
      (hfront : front ≠ []) (buffer : List UInt8) (line : List Char) :
      Before back later ⟨ds ++ .bytes (front ++ back) :: later, buffer, line⟩
        (buffer ++ (ds.flatMap Delivery.handed ++ front))

variable {back : List UInt8} {later : List Delivery}

theorem cutLine_append_right {bytes line rest : List UInt8}
    (h : cutLine bytes = some (line, rest)) (more : List UInt8) :
    cutLine (bytes ++ more) = some (line, rest ++ more) := by
  obtain ⟨before, hbefore, rfl, rfl⟩ := cutLine_eq_some_iff.mp h
  exact cutLine_eq_some_iff.mpr ⟨before, hbefore, rfl, by simp⟩

theorem cutLine_append_left {begun : List UInt8} (h : 0x0A ∉ begun) (bytes : List UInt8) :
    cutLine (begun ++ bytes) = (cutLine bytes).map fun (line, rest) => (begun ++ line, rest) := by
  cases hcut : cutLine bytes with
  | none =>
      have hbytes := cutLine_eq_none_iff.mp hcut
      exact cutLine_eq_none_iff.mpr (by simp [h, hbytes])
  | some cut =>
      obtain ⟨before, hbefore, hline, rfl⟩ := cutLine_eq_some_iff.mp hcut
      have hfirst : 0x0A ∉ begun ++ before := by simp [h, hbefore]
      exact cutLine_eq_some_iff.mpr ⟨begun ++ before, hfirst, by simp [hline], by simp⟩

theorem fetchLine_bytes {bs : List UInt8} (h : bs ≠ []) (begun : List UInt8)
    (later : List Delivery) :
    fetchLine begun (.bytes bs :: later) =
      match cutLine bs with
      | some (line, buffer) => (.ok (begun ++ line), { deliveries := later, buffer })
      | none => fetchLine (begun ++ bs) later := by
  cases bs with
  | nil => exact absurd rfl h
  | cons b bs => rfl

/-- A line that lies before `back` is read without it. -/
theorem fetchLine_before {begun front line rest : List UInt8} (hbegun : 0x0A ∉ begun)
    {ds : List Delivery} (hds : ∀ d ∈ ds, d.Flowing) (hfront : front ≠ [])
    (h : cutLine (begun ++ (ds.flatMap Delivery.handed ++ front)) = some (line, rest)) :
    ∃ r, fetchLine begun (ds ++ .bytes (front ++ back) :: later) = (.ok line, r) ∧
      r.Before back later rest := by
  induction ds generalizing begun with
  | nil =>
      rw [List.flatMap_nil, List.nil_append, cutLine_append_left hbegun] at h
      obtain ⟨⟨line, rest⟩, hcut, heq⟩ := Option.map_eq_some_iff.mp h
      cases heq
      refine ⟨⟨later, rest ++ back, []⟩, ?_, .within rest []⟩
      rw [List.nil_append, fetchLine_bytes (by simp [hfront]), cutLine_append_right hcut]
  | cons d ds ih =>
      obtain ⟨hd, htail⟩ := List.forall_mem_cons.mp hds
      cases d with
      | failed reason => exact hd.elim
      | interrupted => exact ih hbegun htail h
      | bytes bs =>
          rw [List.cons_append, fetchLine_bytes hd]
          rw [List.flatMap_cons, Delivery.handed, List.append_assoc] at h
          cases hcut : cutLine bs with
          | some cut =>
              obtain ⟨line', rest'⟩ := cut
              rw [cutLine_append_left hbegun, cutLine_append_right hcut] at h
              cases h
              exact ⟨_, rfl, .ahead htail hfront rest' []⟩
          | none =>
              have hbs := cutLine_eq_none_iff.mp hcut
              refine ih (by simp [hbegun, hbs]) htail ?_
              rw [List.append_assoc]
              exact h

theorem Before.readLine {r : Reader} {bytes line rest : List UInt8}
    (hr : r.Before back later bytes) (h : cutLine bytes = some (line, rest)) :
    ∃ r', r.readLine = (.ok line, r') ∧ r'.Before back later rest := by
  cases hr with
  | within _ _ =>
      refine ⟨⟨later, rest ++ back, []⟩, ?_, .within rest []⟩
      rw [Reader.readLine, cutLine_append_right h]
  | @ahead ds hds front hfront buffer _ =>
      cases hcut : cutLine buffer with
      | some cut =>
          obtain ⟨line', rest'⟩ := cut
          rw [cutLine_append_right hcut] at h
          cases h
          refine ⟨_, ?_, .ahead hds hfront rest' []⟩
          rw [Reader.readLine, hcut]
      | none =>
          rw [Reader.readLine, hcut]
          exact fetchLine_before (cutLine_eq_none_iff.mp hcut) hds hfront h

/-- The reader gives this text before it comes to `back` and to `later`: what is left of its line,
and complete lines. -/
def Owes (back : List UInt8) (later : List Delivery) (r : Reader) (text : List Char) : Prop :=
  ∃ bytes, r.Before back later bytes ∧ (∀ b ∈ bytes.getLast?, b = 0x0A) ∧
    text = r.line ++ Utf8.decode bytes

theorem Before.with_line {r : Reader} {bytes : List UInt8} (h : r.Before back later bytes)
    (line : List Char) : Before back later { r with line } bytes := by
  cases h with
  | within _ _ => exact .within bytes line
  | ahead hds hfront buffer _ => exact .ahead hds hfront buffer line

/-- Complete lines begin with one. -/
theorem exists_cutLine {bytes : List UInt8} (hne : bytes ≠ [])
    (hbytes : ∀ b ∈ bytes.getLast?, b = 0x0A) :
    ∃ line rest, cutLine bytes = some (line, rest) ∧ ∀ b ∈ rest.getLast?, b = 0x0A := by
  have hlast : bytes.getLast hne = 0x0A := hbytes _ (List.getLast?_eq_some_getLast hne)
  cases hcut : cutLine bytes with
  | none => exact absurd (hlast ▸ List.getLast_mem hne) (cutLine_eq_none_iff.mp hcut)
  | some cut =>
      obtain ⟨line, rest⟩ := cut
      refine ⟨line, rest, rfl, fun b hb => hbytes b ?_⟩
      obtain ⟨before, -, -, rfl⟩ := cutLine_eq_some_iff.mp hcut
      rw [List.getLast?_append, List.getLast?_cons, Option.mem_def.mp hb]
      rfl

/-- **A character that is owed is given without asking for what is behind.** -/
theorem Owes.ask {r : Reader} {c : Char} {cs : List Char} (h : r.Owes back later (c :: cs)) :
    r.ask.1 = .char c ∧ r.ask.2.Owes back later cs := by
  obtain ⟨bytes, hr, hbytes, htext⟩ := h
  cases hline : r.line with
  | cons c' line =>
      rw [hline] at htext
      cases htext
      rw [ask_of_cons hline]
      exact ⟨rfl, bytes, hr.with_line line, hbytes, rfl⟩
  | nil =>
      rw [hline, List.nil_append] at htext
      have hne : bytes ≠ [] := by
        rintro rfl
        cases htext
      obtain ⟨line, rest, hcut, hrest⟩ := exists_cutLine hne hbytes
      obtain ⟨r', hread, hr'⟩ := hr.readLine hcut
      obtain ⟨before, -, rfl, rfl⟩ := cutLine_eq_some_iff.mp hcut
      rw [Utf8.decode_line] at htext
      cases hdecode : Utf8.decode (before ++ [0x0A]) with
      | nil => exact absurd (Utf8.decode_eq_nil hdecode) (by simp)
      | cons c' line =>
          rw [hdecode] at htext
          cases htext
          rw [ask_of_nil hline, hread, handOn, hdecode]
          exact ⟨rfl, rest, hr'.with_line line, hrest, rfl⟩

/-- The bytes have no newline but at their end. -/
def OneLine (bytes : List UInt8) : Prop :=
  ∃ before, 0x0A ∉ before ∧ (bytes = before ∨ bytes = before ++ [0x0A])

theorem oneLine_fetchLine {begun bytes : List UInt8} (hbegun : 0x0A ∉ begun) {ds : List Delivery}
    {r : Reader} (h : fetchLine begun ds = (.ok bytes, r)) : OneLine bytes := by
  fun_induction fetchLine begun ds with
  | case1 begun => cases h; exact ⟨_, hbegun, .inl rfl⟩
  | case2 begun later => cases h; exact ⟨_, hbegun, .inl rfl⟩
  | case3 begun bs later hbs line buffer hcut =>
      cases h
      obtain ⟨before, hbefore, rfl, -⟩ := cutLine_eq_some_iff.mp hcut
      exact ⟨begun ++ before, by simp [hbegun, hbefore], .inr (List.append_assoc ..).symm⟩
  | case4 begun bs later hbs hcut ih =>
      have hbytes := cutLine_eq_none_iff.mp hcut
      exact ih (by simp [hbegun, hbytes]) h
  | case5 begun later ih => exact ih hbegun h
  | case6 begun reason later => cases h

/-- One line is read at a time. -/
theorem oneLine_readLine {r r' : Reader} {bytes : List UInt8} (h : r.readLine = (.ok bytes, r')) :
    OneLine bytes := by
  rw [readLine] at h
  split at h
  · next line rest hcut =>
      cases h
      obtain ⟨before, hbefore, rfl, -⟩ := cutLine_eq_some_iff.mp hcut
      exact ⟨before, hbefore, .inr rfl⟩
  · next hcut => exact oneLine_fetchLine (cutLine_eq_none_iff.mp hcut) h

/-- In the text of a line a newline is the last character. -/
theorem OneLine.not_mem {bytes : List UInt8} (h : OneLine bytes) :
    '\n' ∉ (Utf8.decode bytes).dropLast := by
  obtain ⟨before, hbefore, hbytes⟩ := h
  have htext : '\n' ∉ Utf8.decode before :=
    fun hmem => hbefore ((Utf8.reads_decode before).mem_newline hmem)
  rcases hbytes with rfl | rfl
  · exact fun hmem => htext (List.mem_of_mem_dropLast hmem)
  · rwa [Utf8.decode_newline, show Utf8.decode [] = [] from rfl, List.dropLast_concat]

/-- Of the line the reader has read, a newline can only be the last character. -/
def Unbroken (r : Reader) : Prop := '\n' ∉ r.line.dropLast

theorem newline_last {c : Char} {line : List Char} (h : '\n' ∉ (c :: line).dropLast) :
    '\n' ∉ line.dropLast ∧ (c = '\n' → line = []) := by
  cases line with
  | nil => exact ⟨h, fun _ => rfl⟩
  | cons c' line =>
      rw [List.dropLast_cons_cons] at h
      obtain ⟨hc, hline⟩ := List.ne_and_not_mem_of_not_mem_cons h
      exact ⟨hline, fun heq => absurd heq.symm hc⟩

/-- The reader reads on only when its line is used up. -/
theorem Unbroken.ask {r : Reader} (h : r.Unbroken) :
    r.ask.2.Unbroken ∧ (r.ask.1 = .char '\n' → r.ask.2.line = []) := by
  cases hline : r.line with
  | cons c line =>
      rw [Unbroken, hline] at h
      obtain ⟨hrest, hend⟩ := newline_last h
      rw [ask_of_cons hline]
      exact ⟨hrest, fun hc => hend (Reply.char.inj hc)⟩
  | nil =>
      obtain ⟨⟨read, r'⟩, hread⟩ : ∃ result, r.readLine = result := ⟨_, rfl⟩
      have hnone : r'.line = [] := by
        have hreads := reads_readLine hline
        rw [hread] at hreads
        cases hreads with
        | line hr _ => exact hr
        | nothing _ => rfl
      have hquiet : r'.Unbroken := by simp [Unbroken, hnone]
      rw [ask_of_nil hline, hread]
      cases read with
      | error reason => exact ⟨hquiet, nofun⟩
      | ok bytes =>
          have htext := (oneLine_readLine hread).not_mem
          rw [handOn]
          cases hdecode : Utf8.decode bytes with
          | nil => exact ⟨hquiet, nofun⟩
          | cons c line =>
              rw [hdecode] at htext
              obtain ⟨hrest, hend⟩ := newline_last htext
              exact ⟨hrest, fun hc => hend (Reply.char.inj hc)⟩

end Reader

end Reckon

import Mathlib.Data.List.DropRight
import Reckon.Proofs.Demand

/-!
# Proofs — Delivery

How a reader cuts its bytes makes no difference to the text.  A source hands on its bytes line by
line, each read as text by itself; but a newline ends every character that was begun before it, so
the lines read as the whole does (`Utf8.decode_newline`).  What comes in is known at every moment
from the bytes handed over so far: the text of the complete lines, and the bytes behind them
(`Intake.Took`).

* `Source.text_of_deliveries`: over a reader that hands over bytes, in pieces of any size and with
  interruptions, the text is that of all the bytes; if it fails, that of the complete lines.
-/

namespace Reckon

namespace Source

/-- The bytes up to the last newline, and the newline. -/
def completeLines (bytes : List UInt8) : List UInt8 := bytes.rdropWhile (· != 0x0A)

/-- The bytes behind the last newline. -/
def begunLine (bytes : List UInt8) : List UInt8 := bytes.rtakeWhile (· != 0x0A)

theorem completeLines_append_begunLine (bytes : List UInt8) :
    completeLines bytes ++ begunLine bytes = bytes :=
  List.rdropWhile_append_rtakeWhile

/-- A newline completes the line begun. -/
theorem lines_concat_newline (bytes : List UInt8) :
    completeLines (bytes ++ [0x0A]) = bytes ++ [0x0A] ∧ begunLine (bytes ++ [0x0A]) = [] :=
  ⟨List.rdropWhile_concat_neg _ _ _ (by decide), List.rtakeWhile_concat_neg _ _ _ (by decide)⟩

/-- Any other byte goes on with it. -/
theorem lines_concat {b : UInt8} (hb : b ≠ 0x0A) (bytes : List UInt8) :
    completeLines (bytes ++ [b]) = completeLines bytes ∧
      begunLine (bytes ++ [b]) = begunLine bytes ++ [b] :=
  ⟨List.rdropWhile_concat_pos _ _ _ (by simpa using hb),
    List.rtakeWhile_concat_pos _ _ _ (by simpa using hb)⟩

/-- Complete lines end with a newline. -/
theorem completeLines_cases (bytes : List UInt8) :
    completeLines bytes = [] ∨ ∃ before, completeLines bytes = before ++ [0x0A] := by
  induction bytes using List.reverseRecOn with
  | nil => exact .inl rfl
  | append_singleton bytes b ih =>
      by_cases hb : b = 0x0A
      · subst hb
        exact .inr ⟨bytes, (lines_concat_newline bytes).1⟩
      · rwa [(lines_concat hb bytes).1]

/-- Complete lines read the same whatever follows them. -/
theorem decode_completeLines_append (bytes more : List UInt8) :
    Utf8.decode (completeLines bytes ++ more) =
      Utf8.decode (completeLines bytes) ++ Utf8.decode more := by
  rcases completeLines_cases bytes with hnil | ⟨before, hlines⟩
  · rw [hnil]
    rfl
  · rw [hlines, List.append_assoc, List.singleton_append, Utf8.decode_line]

namespace Intake

/-- The bytes have come in: those of the complete lines as text, and the others as they are. -/
structure Took (i : Intake) (bytes : List UInt8) : Prop where
  replies : i.replies.toList = (Utf8.decode (completeLines bytes)).map .char
  line : i.line.toList = begunLine bytes

variable {i : Intake} {bytes : List UInt8}

/-- When the line begun is handed on, with more bytes behind it, the text is that of all bytes. -/
theorem Took.replies_flush (h : i.Took bytes) {line : Array UInt8} {more : List UInt8}
    (hline : line.toList = i.line.toList ++ more) :
    (flush ⟨i.replies, line⟩).replies.toList = (Utf8.decode (bytes ++ more)).map .char := by
  calc (flush ⟨i.replies, line⟩).replies.toList
    _ = i.replies.toList ++ (Utf8.decode (i.line.toList ++ more)).map .char := by
        simp [flush, hline]
    _ = (Utf8.decode (completeLines bytes ++ (begunLine bytes ++ more))).map .char := by
        rw [h.replies, h.line, decode_completeLines_append, List.map_append]
    _ = (Utf8.decode (bytes ++ more)).map .char := by
        rw [← List.append_assoc, completeLines_append_begunLine]

/-- One byte more. -/
theorem Took.byte (h : i.Took bytes) (b : UInt8) : (i.byte b).Took (bytes ++ [b]) := by
  by_cases hb : b = 0x0A
  · subst hb
    obtain ⟨hlines, hbegun⟩ := lines_concat_newline bytes
    refine ⟨?_, hbegun.symm⟩
    rw [hlines]
    exact h.replies_flush Array.toList_push
  · obtain ⟨hlines, hbegun⟩ := lines_concat hb bytes
    rw [byte_of_ne hb]
    refine ⟨by rw [hlines]; exact h.replies, ?_⟩
    rw [hbegun, ← h.line]
    exact Array.toList_push

/-- One delivery more. -/
theorem Took.deliver (h : i.Took bytes) {d : Delivery} (hd : d.Flowing) :
    (i.deliver d).Took (bytes ++ d.handed) := by
  match d with
  | .bytes [] => exact absurd rfl hd
  | .bytes (b :: bs) =>
      show ((b :: bs).foldl Intake.byte i).Took (bytes ++ (b :: bs))
      induction b :: bs generalizing i bytes with
      | nil =>
          rw [List.append_nil]
          exact h
      | cons b bs ih =>
          rw [List.foldl_cons, List.append_cons]
          exact ih (h.byte b)
  | .interrupted =>
      rw [Delivery.handed, List.append_nil]
      exact h

theorem took_deliveries {ds : List Delivery} (hds : ∀ d ∈ ds, d.Flowing) :
    (ds.foldl Intake.deliver {}).Took (ds.flatMap Delivery.handed) := by
  induction ds using List.reverseRecOn with
  | nil => exact ⟨rfl, rfl⟩
  | append_singleton ds d ih =>
      obtain ⟨hds, hd⟩ := List.forall_mem_append.mp hds
      rw [List.foldl_append, List.flatMap_append]
      have hstep := (ih hds).deliver (hd d List.mem_cons_self)
      simpa using hstep

end Intake

/-- The text ends before a reply that has no character. -/
theorem text_append (cs : List Char) {tail : Source} (h : (Lexer.mk tail).ended = true) :
    text (cs.map .char ++ tail) = cs := by
  induction cs with
  | nil =>
      match tail with
      | [] => rfl
      | .char c :: rest => simp [Lexer.ended] at h
      | .dry :: rest => rfl
      | .broken reason :: rest => rfl
  | cons c cs ih => rw [List.map_cons, List.cons_append, text_cons, ih]

section Reader

variable {ds : List Delivery}

/-- Over a reader that hands over bytes, the text is that of all of them. -/
theorem text_flowing (hds : ∀ d ∈ ds, d.Flowing) :
    (ofDeliveries ds).text = Utf8.decode (ds.flatMap Delivery.handed) := by
  have hreplies := (Intake.took_deliveries hds).replies_flush (List.append_nil _).symm
  rw [List.append_nil] at hreplies
  have htext : text ((Utf8.decode (ds.flatMap Delivery.handed)).map .char ++ []) = _ :=
    text_append _ rfl
  rw [List.append_nil] at htext
  exact (congrArg text hreplies).trans htext

/-- Over a reader that fails, the text is that of the complete lines before. -/
theorem text_failed (hds : ∀ d ∈ ds, d.Flowing) (reason : String) (later : List Delivery) :
    (ofDeliveries (ds ++ .failed reason :: later)).text =
      Utf8.decode (completeLines (ds.flatMap Delivery.handed)) := by
  have htook := Intake.took_deliveries hds
  let before := ds.foldl Intake.deliver {}
  -- the line begun goes with the failure, so what comes later stands behind it
  have hfailed : before.deliver (.failed reason) =
      ({} : Intake).after (before.replies.push (.broken reason)) := by
    simp [Intake.deliver, Intake.after]
  have hsource : ofDeliveries (ds ++ .failed reason :: later) =
      (Utf8.decode (completeLines (ds.flatMap Delivery.handed))).map .char ++
        .broken reason :: ofDeliveries later := by
    calc ofDeliveries (ds ++ .failed reason :: later)
      _ = (before.deliver (.failed reason)).source later := by
          rw [ofDeliveries, List.foldl_append]
          rfl
      _ = (before.replies.push (.broken reason)).toList ++ ofDeliveries later := by
          rw [hfailed, Intake.source_after]
          rfl
      _ = _ := by rw [Array.toList_push, htook.replies, List.append_assoc, List.singleton_append]
  rw [hsource]
  exact text_append _ rfl

/-- **How a reader delivers its bytes makes no difference to the text.**  Over a reader that hands
over bytes, in pieces of any size and with interruptions between them, the characters before the
first end are what all the bytes read as at once; so bytes that are valid give their characters,
also where a delivery ends within one.  If the reader then fails, the characters before the first
end are what the bytes up to their last newline read as, whatever it delivers later.  These are the
characters a reader gives that asks for its deliveries on demand: it answers what the source over
them holds, and then that there is nothing. -/
theorem text_of_deliveries (ds : List Delivery) (hds : ∀ d ∈ ds, d.Flowing) :
    let bytes := ds.flatMap Delivery.handed
    (∀ cs, Utf8.Reads bytes cs ↔ cs = (ofDeliveries ds).text) ∧
    (∀ s : String, bytes = s.toUTF8.data.toList → (ofDeliveries ds).text = s.toList) ∧
    (∀ reason later cs, Utf8.Reads (completeLines bytes) cs ↔
      cs = (ofDeliveries (ds ++ .failed reason :: later)).text) ∧
    ∀ deliveries n,
      answers Reader.ask { deliveries } n = (ofDeliveries deliveries).takeD n Reply.dry := by
  intro bytes
  refine ⟨fun cs => ?_, fun s hs => ?_, fun reason later cs => ?_,
    fun deliveries => Reader.answers_eq { deliveries }⟩
  · rw [text_flowing hds]
    exact Utf8.reads_iff
  · rw [text_flowing hds, show ds.flatMap Delivery.handed = s.toUTF8.data.toList from hs,
      Utf8.decode_toUTF8]
  · rw [text_failed hds]
    exact Utf8.reads_iff

/-- Three deliveries and an interruption: the first ends within a character, a line ends within
another, and the last line is not complete. -/
theorem text_of_deliveries_cut :
    let ds : List Delivery := [.bytes [0x31, 0xE2, 0x82], .interrupted, .bytes [0xAC, 0x0A, 0xF0],
      .bytes [0x9F, 0x0A, 0xFF, 0x32]]
    (∀ d ∈ ds, d.Flowing) ∧
    (∀ cs, Utf8.Reads [0x31, 0xE2, 0x82, 0xAC, 0x0A, 0xF0, 0x9F, 0x0A, 0xFF, 0x32] cs ↔
      cs = ['1', '€', '\n', Utf8.replacement, '\n', Utf8.replacement, '2']) ∧
    (∀ later cs, Utf8.Reads [0x31, 0xE2, 0x82, 0xAC, 0x0A, 0xF0, 0x9F, 0x0A] cs ↔
      cs = (ofDeliveries (ds ++ .failed "reset" :: later)).text) ∧
    answers Reader.ask { deliveries := ds } 9 =
      (ofDeliveries ds).text.map .char ++ [.dry, .dry] := by
  intro ds
  have hds : ∀ d ∈ ds, d.Flowing := by simp [ds, Delivery.Flowing]
  obtain ⟨hwhole, -, hfailed, hanswers⟩ := text_of_deliveries ds hds
  have htext : (ofDeliveries ds).text =
      ['1', '€', '\n', Utf8.replacement, '\n', Utf8.replacement, '2'] := by decide +kernel
  rw [htext] at hwhole
  exact ⟨hds, hwhole, hfailed "reset", (hanswers ds 9).trans (by decide +kernel)⟩

end Reader

end Source

end Reckon

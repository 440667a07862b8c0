import PipelineShell.Proofs.Transparency.Decoding

/-! How bytes become text on the way to a console. A pump reads piece by piece and writes line by
line, and a reader of the whole decodes at once; both come to the same text. -/

namespace PipelineShell

namespace Text

theorem append_push (a b : String) (c : Char) : (a ++ b).push c = a ++ b.push c := by
  simp [← String.toList_inj]

namespace Decoder

/-- The decoder with some text read before. -/
def after (text : String) (d : Decoder) : Decoder :=
  ⟨text ++ d.text, d.held⟩

theorem begin_after (text more : String) (b : UInt8) :
    begin (text ++ more) b = (begin more b).after text := by
  unfold begin after
  split <;> simp [append_push]

theorem step_after (text : String) (d : Decoder) (b : UInt8) :
    (d.after text).step b = (d.step b).after text := by
  obtain ⟨more, held⟩ := d
  have hafter : ∀ d : Decoder, after text d = ⟨text ++ d.text, d.held⟩ := fun d => rfl
  simp only [hafter, step]
  by_cases hgo : goesOn held b = true
  · simp only [hgo, if_true]
    cases complete? (held ++ [b]) <;> simp [append_push]
  · simp only [hgo, Bool.false_eq_true, if_false]
    split
    · exact begin_after text more b
    · rw [append_push]
      exact begin_after text _ b

theorem feed_after (text : String) (d : Decoder) (piece : ByteArray) :
    (d.after text).feed piece = (d.feed piece).after text := by
  unfold feed
  rw [← Array.foldl_toList, ← Array.foldl_toList]
  induction piece.data.toList generalizing d with
  | nil => rfl
  | cons b bs ih => rw [List.foldl_cons, List.foldl_cons, step_after, ih]

theorem foldl_feed_after (text : String) (d : Decoder) (pieces : List ByteArray) :
    pieces.foldl feed (d.after text) = (pieces.foldl feed d).after text := by
  induction pieces generalizing d with
  | nil => rfl
  | cons piece pieces ih => rw [List.foldl_cons, List.foldl_cons, feed_after, ih]

theorem finish_after (text : String) (d : Decoder) : (d.after text).finish = text ++ d.finish := by
  unfold finish after
  dsimp only
  split
  · rfl
  · rw [append_push]

theorem not_le_of_ascii {b : UInt8} (hb : b.toNat < 0x80) (low : UInt8)
    (hlow : 0x80 ≤ low.toNat) : ¬low ≤ b := by
  rw [UInt8.le_iff_toNat_le]
  omega

theorem goesOn_of_ascii {b : UInt8} (hb : b.toNat < 0x80) (held : List UInt8) :
    goesOn held b = false := by
  have hlow := not_le_of_ascii hb 0x80 (by decide)
  match held with
  | [] => rfl
  | [lead] =>
    unfold goesOn isSecond
    dsimp only
    split
    · simp [not_le_of_ascii hb 0xA0 (by decide)]
    · split
      · simp [not_le_of_ascii hb 0x90 (by decide)]
      · simp [hlow]
  | lead :: c :: more => simp [goesOn, hlow]

theorem step_of_ascii {b : UInt8} (hb : b.toNat < 0x80) (d : Decoder) :
    d.step b = ⟨d.finish.push (Char.ofNat b.toNat), []⟩ := by
  obtain ⟨text, held⟩ := d
  have hbegin : ∀ t : String, begin t b = ⟨t.push (Char.ofNat b.toNat), []⟩ := by
    intro t
    simp [begin, lengthFrom_eq, hb]
  simp only [step, goesOn_of_ascii hb held, Bool.false_eq_true, if_false, hbegin, finish]
  split <;> rfl

end Decoder

/-- A byte of one character is read as that, whatever is before it, and nothing is read across it:
so a carriage return stays where it is. -/
theorem decode_ascii {b : UInt8} (hb : b.toNat < 0x80) (before behind : ByteArray) :
    decode (before ++ ⟨#[b]⟩ ++ behind) =
      decode before ++ String.singleton (Char.ofNat b.toNat) ++ decode behind := by
  have hbyte : (Decoder.start.feed before).feed ⟨#[b]⟩ =
      Decoder.start.after (decode before ++ String.singleton (Char.ofNat b.toNat)) := by
    have hstep := Decoder.step_of_ascii hb (Decoder.start.feed before)
    simpa [Decoder.feed, Decoder.after, Decoder.start, decode] using hstep
  rw [decode, Decoder.feed_append, Decoder.feed_append, hbyte, Decoder.feed_after,
    Decoder.finish_after, ← decode]

end Text

namespace Console

open Text

/-- A pump that has read some text and cuts it into lines: of each piece it writes the lines that
are complete, and at the end what is left. -/
def pump (cut : String → List String × String) (d : Decoder) : List ByteArray → Console → Console
  | [], c => ((cut d.finish).1.foldl (fun c line => c.write line) c).write (cut d.finish).2
  | piece :: pieces, c =>
    pump cut ⟨(cut (d.feed piece).text).2, (d.feed piece).held⟩ pieces
      ((cut (d.feed piece).text).1.foldl (fun c line => c.write line) c)

theorem foldl_write (c : Console) (lines : List String) :
    lines.foldl (fun c line => c.write line) c = c.write (String.join lines) := by
  induction lines generalizing c with
  | nil => simp
  | cons line lines ih => rw [List.foldl_cons, ih, write_write, String.join_cons]

theorem pump_eq {cut : String → List String × String}
    (hcut : ∀ text, String.join (cut text).1 ++ (cut text).2 = text) (d : Decoder)
    (pieces : List ByteArray) (c : Console) :
    c.pump cut d pieces = c.write (pieces.foldl Decoder.feed d).finish := by
  induction pieces generalizing d c with
  | nil => rw [pump, foldl_write, write_write, hcut, List.foldl_nil]
  | cons piece pieces ih =>
    have hwhole : Decoder.after (String.join (cut (d.feed piece).text).1)
        ⟨(cut (d.feed piece).text).2, (d.feed piece).held⟩ = d.feed piece := by
      simp only [Decoder.after, hcut]
    rw [pump, ih, foldl_write, write_write, ← Decoder.finish_after, ← Decoder.foldl_feed_after,
      hwhole, List.foldl_cons]

/-- To a text in memory it is all one whether a pump writes to it or what a process writes is taken
in at once. -/
theorem pump_text {cut : String → List String × String}
    (hcut : ∀ text, String.join (cut text).1 ++ (cut text).2 = text) (written : String)
    (pieces : List ByteArray) :
    (text written).pump cut .start pieces = (text written).receive pieces := by
  rw [pump_eq hcut]
  rfl

end Console

end PipelineShell

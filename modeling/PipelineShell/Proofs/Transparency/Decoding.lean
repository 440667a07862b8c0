import PipelineShell.Proofs.Conduct
import PipelineShell.Relay
import PipelineShell.Text.Utf8

/-! The bytes that encode a text are decoded to that text again, in whatever pieces they come. -/

namespace PipelineShell

namespace Text

theorem lengthFrom_eq (b : UInt8) : lengthFrom b =
    if b.toNat < 0x80 then some 1
    else if b.toNat < 0xC2 then none
    else if b.toNat < 0xE0 then some 2
    else if b.toNat < 0xF0 then some 3
    else if b.toNat < 0xF5 then some 4
    else none := by
  simp only [lengthFrom, UInt8.lt_iff_toNat_lt]
  rfl

theorem isSecond_of_toNat {lead b : UInt8} (hlow : 0x80 ≤ b.toNat) (hhigh : b.toNat ≤ 0xBF)
    (he0 : lead.toNat = 0xE0 → 0xA0 ≤ b.toNat) (hed : lead.toNat = 0xED → b.toNat ≤ 0x9F)
    (hf0 : lead.toNat = 0xF0 → 0x90 ≤ b.toNat) (hf4 : lead.toNat = 0xF4 → b.toNat ≤ 0x8F) :
    isSecond lead b = true := by
  have hlead : ∀ n : Nat, n < 256 → (lead = UInt8.ofNat n ↔ lead.toNat = n) := by
    intro n hn
    rw [← UInt8.toNat_inj, UInt8.toNat_ofNat_of_lt' hn]
  have h1 : lead = 0xE0 ↔ lead.toNat = 0xE0 := hlead 0xE0 (by omega)
  have h2 : lead = 0xED ↔ lead.toNat = 0xED := hlead 0xED (by omega)
  have h3 : lead = 0xF0 ↔ lead.toNat = 0xF0 := hlead 0xF0 (by omega)
  have h4 : lead = 0xF4 ↔ lead.toNat = 0xF4 := hlead 0xF4 (by omega)
  simp only [isSecond, h1, h2, h3, h4, Bool.and_eq_true, decide_eq_true_eq,
    UInt8.le_iff_toNat_le]
  constructor
  · split
    · exact he0 ‹_›
    · split
      · exact hf0 ‹_›
      · exact hlow
  · split
    · exact hed ‹_›
    · split
      · exact hf4 ‹_›
      · exact hhigh

theorem lt_ofNat_iff (b : UInt8) {n : Nat} (hn : n < 256) : b < UInt8.ofNat n ↔ b.toNat < n := by
  rw [UInt8.lt_iff_toNat_lt, UInt8.toNat_ofNat_of_lt' hn]

theorem lt_e0_iff (b : UInt8) : b < 0xE0 ↔ b.toNat < 0xE0 :=
  lt_ofNat_iff b (show 0xE0 < 256 by omega)

theorem lt_f0_iff (b : UInt8) : b < 0xF0 ↔ b.toNat < 0xF0 :=
  lt_ofNat_iff b (show 0xF0 < 256 by omega)

theorem utf8EncodeChar_eq (c : Char) : String.utf8EncodeChar c =
    if c.toNat ≤ 0x7F then [UInt8.ofNat c.toNat]
    else if c.toNat ≤ 0x7FF then
      [UInt8.ofNat (c.toNat / 64 % 0x20 + 0xC0), UInt8.ofNat (c.toNat % 0x40 + 0x80)]
    else if c.toNat ≤ 0xFFFF then
      [UInt8.ofNat (c.toNat / 4096 % 0x10 + 0xE0), UInt8.ofNat (c.toNat / 64 % 0x40 + 0x80),
        UInt8.ofNat (c.toNat % 0x40 + 0x80)]
    else
      [UInt8.ofNat (c.toNat / 262144 % 0x08 + 0xF0), UInt8.ofNat (c.toNat / 4096 % 0x40 + 0x80),
        UInt8.ofNat (c.toNat / 64 % 0x40 + 0x80), UInt8.ofNat (c.toNat % 0x40 + 0x80)] := rfl

theorem charOf_eq {c : Char} {lead : Nat} {more : List UInt8}
    (h : more.foldl (fun n b => 64 * n + (b.toNat - 0x80)) lead = c.toNat) :
    charOf lead more = c := by
  rw [charOf, h, Char.ofNat_toNat]

namespace Decoder

variable {text : String} {held : List UInt8} {a b : UInt8} {c : Char}

theorem begin_of_lt (h : a.toNat < 0x80) :
    step ⟨text, []⟩ a = ⟨text.push (Char.ofNat a.toNat), []⟩ := by
  simp [step, goesOn, begin, lengthFrom_eq, h]

theorem begin_of_le (hlow : 0xC2 ≤ a.toNat) (hhigh : a.toNat < 0xF5) :
    step ⟨text, []⟩ a = ⟨text, [a]⟩ := by
  have h1 : ¬a.toNat < 0x80 := by omega
  have h2 : ¬a.toNat < 0xC2 := by omega
  by_cases h3 : a.toNat < 0xE0
  · simp [step, goesOn, begin, lengthFrom_eq, h1, h2, h3]
  · by_cases h4 : a.toNat < 0xF0
    · simp [step, goesOn, begin, lengthFrom_eq, h1, h2, h3, h4]
    · simp [step, goesOn, begin, lengthFrom_eq, h1, h2, h3, h4, hhigh]

theorem step_of_complete (hgo : goesOn held b = true) (h : complete? (held ++ [b]) = some c) :
    step ⟨text, held⟩ b = ⟨text.push c, []⟩ := by
  simp [step, hgo, h]

theorem step_of_more (hgo : goesOn held b = true) (h : complete? (held ++ [b]) = none) :
    step ⟨text, held⟩ b = ⟨text, held ++ [b]⟩ := by
  simp [step, hgo, h]

theorem goesOn_tail {b' : UInt8} {bs : List UInt8} (hlow : 0x80 ≤ b.toNat)
    (hhigh : b.toNat ≤ 0xBF) :
    goesOn (a :: b' :: bs) b = true := by
  simp only [goesOn, Bool.and_eq_true, decide_eq_true_eq, UInt8.le_iff_toNat_le]
  exact ⟨hlow, hhigh⟩

theorem foldl_two (ha : 0xC2 ≤ a.toNat) (ha' : a.toNat < 0xE0) (hb : 0x80 ≤ b.toNat)
    (hb' : b.toNat ≤ 0xBF) (hc : 64 * (a.toNat - 0xC0) + (b.toNat - 0x80) = c.toNat) :
    [a, b].foldl step ⟨text, []⟩ = ⟨text.push c, []⟩ := by
  have hgo : goesOn [a] b = true := by
    apply isSecond_of_toNat hb hb' <;> omega
  have hdone : complete? [a, b] = some c := by
    have hchar : charOf (a.toNat - 0xC0) [b] = c := charOf_eq hc
    rw [complete?, if_pos ((lt_e0_iff a).mpr ha'), hchar]
  rw [List.foldl_cons, begin_of_le ha (by omega)]
  exact step_of_complete hgo hdone

theorem foldl_three {b' : UInt8} (ha : 0xE0 ≤ a.toNat) (ha' : a.toNat < 0xF0)
    (hb : 0x80 ≤ b.toNat) (hb' : b.toNat ≤ 0xBF) (he0 : a.toNat = 0xE0 → 0xA0 ≤ b.toNat)
    (hed : a.toNat = 0xED → b.toNat ≤ 0x9F) (hd : 0x80 ≤ b'.toNat) (hd' : b'.toNat ≤ 0xBF)
    (hc : 64 * (64 * (a.toNat - 0xE0) + (b.toNat - 0x80)) + (b'.toNat - 0x80) = c.toNat) :
    [a, b, b'].foldl step ⟨text, []⟩ = ⟨text.push c, []⟩ := by
  have hgo : goesOn [a] b = true := by
    apply isSecond_of_toNat hb hb' he0 hed <;> omega
  have hmore : complete? [a, b] = none := by
    rw [complete?, if_neg (mt (lt_e0_iff a).mp (Nat.not_lt.mpr ha))]
  have hdone : complete? [a, b, b'] = some c := by
    have hchar : charOf (a.toNat - 0xE0) [b, b'] = c := charOf_eq hc
    rw [complete?, if_pos ((lt_f0_iff a).mpr ha'), hchar]
  rw [List.foldl_cons, begin_of_le (by omega) (by omega), List.foldl_cons, step_of_more hgo hmore]
  exact step_of_complete (goesOn_tail hd hd') hdone

theorem foldl_four {b' b'' : UInt8} (ha : 0xF0 ≤ a.toNat) (ha' : a.toNat < 0xF5)
    (hb : 0x80 ≤ b.toNat) (hb' : b.toNat ≤ 0xBF) (hf0 : a.toNat = 0xF0 → 0x90 ≤ b.toNat)
    (hf4 : a.toNat = 0xF4 → b.toNat ≤ 0x8F) (hd : 0x80 ≤ b'.toNat) (hd' : b'.toNat ≤ 0xBF)
    (he : 0x80 ≤ b''.toNat) (he' : b''.toNat ≤ 0xBF)
    (hc : 64 * (64 * (64 * (a.toNat - 0xF0) + (b.toNat - 0x80)) + (b'.toNat - 0x80)) +
      (b''.toNat - 0x80) = c.toNat) :
    [a, b, b', b''].foldl step ⟨text, []⟩ = ⟨text.push c, []⟩ := by
  have hgo : goesOn [a] b = true := by
    apply isSecond_of_toNat hb hb' _ _ hf0 hf4 <;> omega
  have hmore : complete? [a, b] = none := by
    have hlead : ¬a.toNat < 0xE0 := by omega
    rw [complete?, if_neg (mt (lt_e0_iff a).mp hlead)]
  have hmore' : complete? [a, b, b'] = none := by
    rw [complete?, if_neg (mt (lt_f0_iff a).mp (Nat.not_lt.mpr ha))]
  have hdone : complete? [a, b, b', b''] = some c := by
    have hchar : charOf (a.toNat - 0xF0) [b, b', b''] = c := charOf_eq hc
    rw [complete?, hchar]
  have hthird : step ⟨text, [a, b]⟩ b' = ⟨text, [a, b, b']⟩ :=
    step_of_more (goesOn_tail hd hd') hmore'
  rw [List.foldl_cons, begin_of_le (by omega) ha', List.foldl_cons, step_of_more hgo hmore,
    List.foldl_cons, List.singleton_append, hthird]
  exact step_of_complete (goesOn_tail he he') hdone

theorem foldl_utf8EncodeChar (c : Char) (text : String) :
    (String.utf8EncodeChar c).foldl step ⟨text, []⟩ = ⟨text.push c, []⟩ := by
  have hvalid : c.toNat < 0xD800 ∨ 0xDFFF < c.toNat ∧ c.toNat < 0x110000 := c.valid
  have hbyte : ∀ n : Nat, n < 256 → (UInt8.ofNat n).toNat = n := fun n hn =>
    UInt8.toNat_ofNat_of_lt' hn
  rw [utf8EncodeChar_eq]
  by_cases h1 : c.toNat ≤ 0x7F
  · have ha := hbyte c.toNat (by omega)
    rw [if_pos h1, List.foldl_cons, begin_of_lt (by omega), ha, Char.ofNat_toNat]
    rfl
  rw [if_neg h1]
  by_cases h2 : c.toNat ≤ 0x7FF
  · have ha := hbyte (c.toNat / 64 % 0x20 + 0xC0) (by omega)
    have hb := hbyte (c.toNat % 0x40 + 0x80) (by omega)
    rw [if_pos h2]
    apply foldl_two <;> omega
  rw [if_neg h2]
  by_cases h3 : c.toNat ≤ 0xFFFF
  · have ha := hbyte (c.toNat / 4096 % 0x10 + 0xE0) (by omega)
    have hb := hbyte (c.toNat / 64 % 0x40 + 0x80) (by omega)
    have hd := hbyte (c.toNat % 0x40 + 0x80) (by omega)
    rw [if_pos h3]
    apply foldl_three <;> omega
  · have ha := hbyte (c.toNat / 262144 % 0x08 + 0xF0) (by omega)
    have hb := hbyte (c.toNat / 4096 % 0x40 + 0x80) (by omega)
    have hd := hbyte (c.toNat / 64 % 0x40 + 0x80) (by omega)
    have he := hbyte (c.toNat % 0x40 + 0x80) (by omega)
    rw [if_neg h3]
    apply foldl_four <;> omega

theorem feed_append (d : Decoder) (a b : ByteArray) : d.feed (a ++ b) = (d.feed a).feed b := by
  simp [feed]

theorem feed_utf8Encode (cs : List Char) (text : String) :
    feed ⟨text, []⟩ cs.utf8Encode = ⟨text ++ String.ofList cs, []⟩ := by
  induction cs generalizing text with
  | nil => simp [feed]
  | cons c cs ih =>
    have hc : feed ⟨text, []⟩ [c].utf8Encode = ⟨text.push c, []⟩ := by
      rw [List.utf8Encode_singleton, feed, List.data_toByteArray, List.foldl_toArray]
      exact foldl_utf8EncodeChar c text
    rw [List.utf8Encode_cons, feed_append, hc, ih]
    congr 1
    rw [← String.toList_inj]
    simp

theorem foldl_feed (d : Decoder) (pieces : List ByteArray) (done : ByteArray) :
    pieces.foldl feed (d.feed done) = d.feed (pieces.foldl (· ++ ·) done) := by
  induction pieces generalizing done with
  | nil => rfl
  | cons piece pieces ih => rw [List.foldl_cons, List.foldl_cons, ← feed_append, ih]

end Decoder

theorem decode_encode (text : String) : decode (encode text) = text := by
  have hbytes : encode text = text.toList.utf8Encode := String.utf8Encode_toList.symm
  have hfeed := Decoder.feed_utf8Encode text.toList ""
  rw [decode, hbytes, Decoder.start, hfeed]
  simp [Decoder.finish]

theorem decodePieces_eq (pieces : List ByteArray) :
    decodePieces pieces = decode (Relay.joined pieces) := by
  have hstart : Decoder.start = Decoder.start.feed .empty := rfl
  rw [decodePieces, decode, Relay.joined, hstart, Decoder.foldl_feed, ← hstart]

theorem decodePieces_of_joined {pieces : List ByteArray} {text : String}
    (h : Relay.joined pieces = encode text) : decodePieces pieces = text := by
  rw [decodePieces_eq, h, decode_encode]

theorem decodePieces_encode (text : String) : decodePieces [encode text] = text :=
  decodePieces_of_joined ByteArray.empty_append

end Text

namespace Console

theorem receive_encode (c : Console) (said : String) :
    c.receive [Text.encode said] = c.write said := by
  cases c with
  | text written => rw [receive, Text.decodePieces_encode]; rfl
  | raw written => rfl

theorem foldl_append (written : ByteArray) (pieces : List ByteArray) :
    pieces.foldl (· ++ ·) written = written ++ Relay.joined pieces := by
  have h : ∀ acc : ByteArray, pieces.foldl (· ++ ·) (written ++ acc) =
      written ++ pieces.foldl (· ++ ·) acc := by
    induction pieces with
    | nil => exact fun _ => rfl
    | cons piece pieces ih =>
      intro acc
      rw [List.foldl_cons, List.foldl_cons, ByteArray.append_assoc, ih]
  simpa [Relay.joined] using h .empty

/-- What a process wrote is the same as text just when its bytes encode one, or when the console
takes text anyway. -/
theorem receive_eq_write_iff {c : Console} {pieces : List ByteArray} :
    c.receive pieces = c.write (Text.decodePieces pieces) ↔
      ∃ said, c.receive pieces = c.write said := by
  refine ⟨fun h => ⟨_, h⟩, fun ⟨said, h⟩ => ?_⟩
  cases c with
  | text written => rfl
  | raw written =>
    have hbytes : written ++ Relay.joined pieces = written ++ Text.encode said := by
      rw [← foldl_append]
      exact Console.raw.inj h
    have hjoined : Relay.joined pieces = Text.encode said :=
      (ByteArray.append_right_inj written).mp hbytes
    rw [h, Text.decodePieces_of_joined hjoined]

end Console

end PipelineShell

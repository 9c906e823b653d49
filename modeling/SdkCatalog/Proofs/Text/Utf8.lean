import SdkCatalog.Text.Utf8

/-! Reading back what was written as UTF-8: the bytes of a text spell that text. -/

namespace SdkCatalog.Utf8

theorem toNat_ofNat {n : Nat} (h : n < 256) : (UInt8.ofNat n).toNat = n :=
  UInt8.toNat_ofNat_of_lt' h

theorem lead?_one {byte : UInt8} (h : byte.toNat < 0x80) :
    lead? byte = some ⟨byte.toNat, 0, 0x80, 0xBF⟩ := by
  simp [lead?, h]

theorem lead?_two {byte : UInt8} (hlow : 0xC2 ≤ byte.toNat) (hhigh : byte.toNat < 0xE0) :
    lead? byte = some ⟨byte.toNat - 0xC0, 1, 0x80, 0xBF⟩ := by
  simp only [lead?]
  rw [if_neg (by omega), if_neg (by omega), if_pos hhigh]

/-- The bytes that announce two more narrow the next one where a shorter form or half a pair of
code units would be spelled otherwise. -/
theorem lead?_three {byte : UInt8} (hlow : 0xE0 ≤ byte.toNat) (hhigh : byte.toNat < 0xF0) :
    lead? byte = some ⟨byte.toNat - 0xE0, 2, if byte.toNat = 0xE0 then 0xA0 else 0x80,
      if byte.toNat = 0xED then 0x9F else 0xBF⟩ := by
  simp only [lead?]
  rw [if_neg (by omega), if_neg (by omega), if_neg (by omega)]
  by_cases h0 : byte.toNat = 0xE0
  · simp [h0]
  · by_cases hD : byte.toNat = 0xED
    · simp [hD]
    · simp [h0, hD, hhigh]

theorem lead?_four {byte : UInt8} (hlow : 0xF0 ≤ byte.toNat) (hhigh : byte.toNat ≤ 0xF4) :
    lead? byte = some ⟨byte.toNat - 0xF0, 3, if byte.toNat = 0xF0 then 0x90 else 0x80,
      if byte.toNat = 0xF4 then 0x8F else 0xBF⟩ := by
  simp only [lead?]
  rw [if_neg (by omega), if_neg (by omega), if_neg (by omega), if_neg (by omega),
    if_neg (by omega), if_neg (by omega)]
  by_cases h0 : byte.toNat = 0xF0
  · simp [h0]
  · by_cases h4 : byte.toNat = 0xF4
    · simp [h4]
    · simp [h0, h4, show byte.toNat < 0xF4 by omega]

theorem continuations_cons {least greatest count : Nat} {byte : UInt8} {rest : List UInt8}
    (hlow : least ≤ byte.toNat) (hhigh : byte.toNat ≤ greatest) :
    continuations least greatest (count + 1) (byte :: rest) =
      byte :: continuations 0x80 0xBF count rest := by
  simp [continuations, hlow, hhigh]

/-- Characters are the code points outside the range of halves of pairs. -/
theorem toNat_char (c : Char) :
    c.val.toNat < 0xD800 ∨ (0xDFFF < c.val.toNat ∧ c.val.toNat < 0x110000) :=
  c.valid

/-- A first byte with all the bytes it announces is read as the character of their code point. -/
theorem decodeFrom_append {position : Nat} {first : UInt8} (more : List UInt8) {rest : List UInt8}
    {lead : Lead} {c : Char} (hlead : lead? first = some lead)
    (hlength : more.length = lead.continuations)
    (hmore : continuations lead.least lead.greatest lead.continuations (more ++ rest) = more)
    (hpoint : codePoint lead.bits more = c.val.toNat) :
    ∃ next, decodeFrom position (first :: (more ++ rest)) =
      (decodeFrom next rest).map (c :: ·) := by
  refine ⟨position + (more.length + 1), ?_⟩
  rw [decodeFrom]
  simp only [hlead, hmore]
  rw [if_pos hlength, List.drop_left, hpoint, show Char.ofNat c.val.toNat = c from
    Char.ofNat_toNat c]

theorem decodeFrom_encodeChar (position : Nat) (c : Char) (rest : List UInt8) :
    ∃ next, decodeFrom position (String.utf8EncodeChar c ++ rest) =
      (decodeFrom next rest).map (c :: ·) := by
  have hvalid := toNat_char c
  simp only [String.utf8EncodeChar]
  by_cases h1 : c.val.toNat ≤ 0x7F
  · rw [if_pos h1]
    have hb := toNat_ofNat (n := c.val.toNat) (by omega)
    exact decodeFrom_append [] (lead?_one (by omega)) rfl rfl hb
  rw [if_neg h1]
  have hlast := toNat_ofNat (n := c.val.toNat % 0x40 + 0x80) (by omega)
  have hthird := toNat_ofNat (n := c.val.toNat / 64 % 0x40 + 0x80) (by omega)
  by_cases h2 : c.val.toNat ≤ 0x7FF
  · rw [if_pos h2]
    have hb := toNat_ofNat (n := c.val.toNat / 64 % 0x20 + 0xC0) (by omega)
    refine decodeFrom_append [UInt8.ofNat (c.val.toNat % 0x40 + 0x80)]
      (lead?_two (by omega) (by omega)) rfl ?_ ?_
    · simp only [List.cons_append, List.nil_append]
      rw [continuations_cons (by omega) (by omega), continuations]
    · simp only [codePoint, List.foldl_cons, List.foldl_nil]
      omega
  rw [if_neg h2]
  by_cases h3 : c.val.toNat ≤ 0xFFFF
  · rw [if_pos h3]
    have hb := toNat_ofNat (n := c.val.toNat / 4096 % 0x10 + 0xE0) (by omega)
    refine decodeFrom_append [UInt8.ofNat (c.val.toNat / 64 % 0x40 + 0x80),
      UInt8.ofNat (c.val.toNat % 0x40 + 0x80)] (lead?_three (by omega) (by omega)) rfl ?_ ?_
    · simp only [List.cons_append, List.nil_append]
      rw [continuations_cons (by split <;> omega) (by split <;> omega),
        continuations_cons (by omega) (by omega), continuations]
    · simp only [codePoint, List.foldl_cons, List.foldl_nil]
      omega
  · rw [if_neg h3]
    have hb := toNat_ofNat (n := c.val.toNat / 262144 % 0x08 + 0xF0) (by omega)
    have hsecond := toNat_ofNat (n := c.val.toNat / 4096 % 0x40 + 0x80) (by omega)
    refine decodeFrom_append [UInt8.ofNat (c.val.toNat / 4096 % 0x40 + 0x80),
      UInt8.ofNat (c.val.toNat / 64 % 0x40 + 0x80), UInt8.ofNat (c.val.toNat % 0x40 + 0x80)]
      (lead?_four (by omega) (by omega)) rfl ?_ ?_
    · simp only [List.cons_append, List.nil_append]
      rw [continuations_cons (by split <;> omega) (by split <;> omega),
        continuations_cons (by omega) (by omega), continuations_cons (by omega) (by omega),
        continuations]
    · simp only [codePoint, List.foldl_cons, List.foldl_nil]
      omega

theorem decodeFrom_encode (position : Nat) (cs : List Char) :
    decodeFrom position (encode cs) = .ok cs := by
  induction cs generalizing position with
  | nil => rw [encode, List.flatMap_nil, decodeFrom]
  | cons c cs ih =>
    obtain ⟨next, hnext⟩ := decodeFrom_encodeChar position c (encode cs)
    rw [show encode (c :: cs) = String.utf8EncodeChar c ++ encode cs from List.flatMap_cons,
      hnext, ih]
    rfl

theorem decode_encode (cs : List Char) : decode (encode cs) = .ok cs :=
  decodeFrom_encode 0 cs

end SdkCatalog.Utf8

namespace SdkCatalog

theorem RawText.chars?_ofString (text : String) : (ofString text).chars? = some text.toList := by
  rw [chars?, ofString]
  induction text.toList with
  | nil => rfl
  | cons c cs ih =>
    rw [List.map_cons, List.mapM_cons, ih]
    rfl

/-- The bytes of a text that begins with characters are those of the characters and of more. -/
theorem RawText.exists_encode_of_append {text : String} {rest : RawText} {content : List UInt8}
    (h : (ofString text ++ rest).encode? = some content) :
    ∃ cs, content = Utf8.encode (text.toList ++ cs) := by
  obtain ⟨all, hall, rfl⟩ := Option.map_eq_some_iff.mp h
  have hstart := chars?_ofString text
  rw [chars?] at hall hstart
  rw [List.mapM_append, hstart] at hall
  obtain ⟨first, hfirst, hrest⟩ := Option.bind_eq_some_iff.mp hall
  obtain ⟨cs, -, hcs⟩ := Option.bind_eq_some_iff.mp hrest
  injection hfirst with hfirst
  injection hcs with hcs
  exact ⟨cs, by rw [← hcs, hfirst]⟩

end SdkCatalog

import SdkCatalog.Proofs.Json.Number

/-! Reading back what was written as JSON: a value whose whole numbers can be written, and in whose
objects no key occurs twice, is read from its text as it was. -/

namespace SdkCatalog.Json

/-! ### What a value can start with -/

theorem digits_nil_of_head {c : Char} {cs : List Char} (h : c.isDigit = false) :
    digits (c :: cs) = ([], c :: cs) := by
  simp [digits, h]

theorem wholeDigits_of_ne_zero {c : Char} {cs : List Char} (h : c ≠ '0') :
    wholeDigits (c :: cs) = digits (c :: cs) := by
  rw [wholeDigits]
  intro tail heq
  injection heq with heq
  exact h heq

/-- A number starts with a digit. -/
theorem isDigit_of_number_ok {negative : Bool} {here cs : List Char} {found : Value × List Char}
    (h : number negative here cs = .ok found) : ∃ c tail, cs = c :: tail ∧ c.isDigit = true := by
  cases cs with
  | nil => simp [number, wholeDigits, digits, complain] at h
  | cons c tail =>
    refine ⟨c, tail, rfl, ?_⟩
    by_contra hdigit
    have hfalse : c.isDigit = false := by simpa using hdigit
    have hzero : c ≠ '0' := by
      rintro rfl
      exact hdigit rfl
    simp [number, wholeDigits_of_ne_zero hzero, digits_nil_of_head hfalse, complain] at h

theorem value_eq_atom {steps : Nat} {c : Char} {cs : List Char} (hquote : c ≠ '"')
    (hbracket : c ≠ '[') (hbrace : c ≠ '\x7b') : value (steps + 1) (c :: cs) = atom (c :: cs) := by
  rw [value]
  · intro rest h
    injection h with h
    exact hquote h
  · intro rest h
    injection h with h
    exact hbracket h
  · intro rest h
    injection h with h
    exact hbrace h

/-- Between tokens no value starts, nor at the end of an array, nor at a byte-order mark. -/
theorem head_of_value_ok {steps : Nat} {cs : List Char} {found : Value × List Char}
    (h : value steps cs = .ok found) :
    ∃ c tail, cs = c :: tail ∧ isSpace c = false ∧ c ≠ ']' ∧ c ≠ '\uFEFF' := by
  cases steps with
  | zero => simp [value, complain] at h
  | succ steps =>
    cases cs with
    | nil => simp [value, atom, word?, words, number, wholeDigits, digits, complain] at h
    | cons c tail =>
      have hatom : ∀ d ∈ [' ', '\t', '\n', '\r', ']', '\uFEFF'], c ≠ d := by
        rintro d hd rfl
        simp only [List.mem_cons, List.not_mem_nil, or_false] at hd
        rcases hd with rfl | rfl | rfl | rfl | rfl | rfl <;>
          · rw [value_eq_atom (by decide) (by decide) (by decide)] at h
            simp [atom, word?, words, number, wholeDigits, digits, complain] at h
      refine ⟨c, tail, rfl, ?_, hatom _ (by simp), hatom _ (by simp)⟩
      simp [isSpace, hatom]

/-! ### Numbers and words -/

theorem word?_of_isDigit {c : Char} {cs : List Char} (h : c.isDigit = true) :
    word? (c :: cs) = none := by
  have hne : ∀ d : Char, d.isDigit = false → d ≠ c := by
    rintro d hd rfl
    rw [h] at hd
    exact Bool.noConfusion hd
  simp [word?, words, hne]

theorem word?_minus_of_isDigit {c : Char} {cs : List Char} (h : c.isDigit = true) :
    word? ('-' :: c :: cs) = none := by
  have hne : 'I' ≠ c := by
    rintro rfl
    exact Bool.noConfusion h
  simp [word?, words, hne]

theorem value_of_number {steps : Nat} {cs : List Char} {found : Value × List Char}
    (h : number false cs cs = .ok found) : value (steps + 1) cs = .ok found := by
  obtain ⟨c, tail, rfl, hc⟩ := isDigit_of_number_ok h
  have hne : ∀ d : Char, d.isDigit = false → c ≠ d := by
    rintro d hd rfl
    rw [hc] at hd
    exact Bool.noConfusion hd
  rw [value_eq_atom (hne _ rfl) (hne _ rfl) (hne _ rfl), atom, word?_of_isDigit hc]
  · exact h
  · intro rest heq
    injection heq with heq
    exact hne _ rfl heq

theorem value_of_number_minus {steps : Nat} {cs : List Char} {found : Value × List Char}
    (h : number true ('-' :: cs) cs = .ok found) : value (steps + 1) ('-' :: cs) = .ok found := by
  obtain ⟨c, tail, rfl, hc⟩ := isDigit_of_number_ok h
  rw [value_eq_atom (by decide) (by decide) (by decide), atom, word?_minus_of_isDigit hc]
  exact h

theorem length_toDigits_le {n limit : Nat} (hlimit : 0 < limit) (h : n < Nat.pow 10 limit) :
    (Nat.toDigits 10 n).length ≤ limit :=
  (Nat.length_toDigits_le_iff (by decide) hlimit).mpr h

/-- The text of a number that can be written reads back as the number. -/
theorem value_writeNumber {steps : Nat} {rest : List Char} (n : Number) (hn : n.isWritable = true)
    (hrest : Ends rest) : value (steps + 1) (writeNumber n ++ rest) = .ok (.number n, rest) := by
  cases n with
  | int i =>
    have hshort : (Nat.toDigits 10 i.natAbs).length ≤ digitLimit := by
      simp only [Number.isWritable, decide_eq_true_eq] at hn
      unfold shortestTooLong at hn
      exact @length_toDigits_le _ digitLimit (by decide) hn
    have hvalue : Nat.ofDigitChars 10 (Nat.toDigits 10 i.natAbs) 0 = i.natAbs :=
      Nat.ofDigitChars_ten_toDigits
    rw [writeNumber, intText]
    by_cases hneg : i < 0
    · rw [if_pos hneg, List.cons_append]
      apply value_of_number_minus
      rw [number_whole (whole_toDigits _) hshort hrest, hvalue, Numeral.signed, if_pos rfl,
        show -(i.natAbs : Int) = i by omega]
    · rw [if_neg hneg]
      apply value_of_number
      rw [number_whole (whole_toDigits _) hshort hrest, hvalue, Numeral.signed, if_neg (by decide),
        show (i.natAbs : Int) = i by omega]
  | float x =>
    cases x with
    | finite d =>
      have hread := fun here => @number_magnitudeText here rest d hrest
      rw [writeNumber, FloatingPoint.textWith, Double.text, String.toList_ofList]
      cases hsign : d.negative with
      | true =>
        rw [if_pos rfl, List.cons_append]
        apply value_of_number_minus
        rw [← hsign, hread]
      | false =>
        rw [if_neg (by decide)]
        apply value_of_number
        rw [← hsign, hread]
    | infinite negative =>
      cases negative <;>
        · rw [writeNumber, FloatingPoint.textWith]
          simp only [String.toList, List.cons_append]
          rfl
    | nan =>
      rw [writeNumber, FloatingPoint.textWith]
      rfl

/-! ### Strings -/

/-- The characters that are written after a backslash, by a letter or as they are. -/
def escapedChars : List Char :=
  ['"', '\\', '\n', '\r', '\t', '\x08', '\x0c']

/-- The piece that the written form of a character is read as. -/
def writtenPiece (c : Char) : Piece :=
  if c.toNat < 0x20 ∧ c ∉ escapedChars then .unit c.toNat else .plain c

/-- A control character is written by four digits that spell its number. -/
theorem hexDigits_control {n : Nat} (h : n < 0x20) :
    ∃ a b c d, Text.hexDigits 4 n = [a, b, c, d] ∧ hex4? a b c d = some n := by
  have hall : ∀ n < 0x20, ∃ digits ∈ [Text.hexDigits 4 n],
      digits = [digits.getD 0 '0', digits.getD 1 '0', digits.getD 2 '0', digits.getD 3 '0'] ∧
      hex4? (digits.getD 0 '0') (digits.getD 1 '0') (digits.getD 2 '0') (digits.getD 3 '0') =
        some n := by
    decide
  obtain ⟨digits, hdigits, hfour, hhex⟩ := hall n h
  rw [← List.mem_singleton.mp hdigits]
  exact ⟨_, _, _, _, hfour, hhex⟩

theorem stringBody_plain {opening rest : List Char} {c : Char} (hquote : c ≠ '"')
    (hbackslash : c ≠ '\\') (hcontrol : ¬c.toNat < 0x20) :
    stringBody opening (c :: rest) = prepend (.plain c) (stringBody opening rest) := by
  rw [stringBody.eq_def]
  split <;> simp_all

theorem stringBody_escaped {opening rest : List Char} {c e : Char} (hu : c ≠ 'u')
    (he : escaped? c = some e) :
    stringBody opening ('\\' :: c :: rest) = prepend (.plain e) (stringBody opening rest) := by
  rw [stringBody]
  · simp [hu, he]
  · intro x y z w tail h _
    exact hu h

theorem stringBody_unit {opening rest : List Char} {n : Nat} {a b c d : Char}
    (hhex : hex4? a b c d = some n) (hrest : rest ≠ []) :
    stringBody opening ('\\' :: 'u' :: a :: b :: c :: d :: rest) =
      prepend (.unit n) (stringBody opening rest) := by
  rw [stringBody, hhex]
  simp [hrest]

theorem stringBody_writeChar {opening rest : List Char} (c : Char) (hrest : rest ≠ []) :
    stringBody opening (writeChar c ++ rest) =
      prepend (writtenPiece c) (stringBody opening rest) := by
  by_cases hescaped : c ∈ escapedChars
  · have hpiece : writtenPiece c = .plain c := if_neg fun h => h.2 hescaped
    rw [hpiece]
    simp only [escapedChars, List.mem_cons, List.not_mem_nil, or_false] at hescaped
    rcases hescaped with rfl | rfl | rfl | rfl | rfl | rfl | rfl <;>
      exact stringBody_escaped (by decide) (by decide)
  · simp only [escapedChars, List.mem_cons, List.not_mem_nil, or_false, not_or] at hescaped
    obtain ⟨hquote, hbackslash, hn, hr, ht, hb, hf⟩ := hescaped
    by_cases hcontrol : c.toNat < 0x20
    · obtain ⟨x, y, z, w, hdigits, hhex⟩ := hexDigits_control hcontrol
      have hwritten : writeChar c = ['\\', 'u', x, y, z, w] := by
        simp [writeChar, hquote, hbackslash, hn, hr, ht, hb, hf, hcontrol, hdigits]
      have hpiece : writtenPiece c = .unit c.toNat := by
        simp [writtenPiece, escapedChars, hquote, hbackslash, hn, hr, ht, hb, hf, hcontrol]
      rw [hwritten, hpiece]
      exact stringBody_unit hhex hrest
    · have hwritten : writeChar c = [c] := by
        simp [writeChar, hquote, hbackslash, hn, hr, ht, hb, hf, hcontrol]
      have hpiece : writtenPiece c = .plain c := if_neg fun h => hcontrol h.1
      rw [hwritten, hpiece]
      exact stringBody_plain hquote hbackslash hcontrol

theorem stringBody_written {opening rest : List Char} (cs : List Char) :
    stringBody opening (cs.flatMap writeChar ++ '"' :: rest) = .ok (cs.map writtenPiece, rest) := by
  induction cs with
  | nil => simp [stringBody]
  | cons c cs ih =>
    rw [List.flatMap_cons, List.append_assoc, stringBody_writeChar c (by simp), ih]
    rfl

/-- A single code unit below the halves of pairs is its character, whatever follows it. -/
theorem joinPieces_unit {n : Nat} (h : n < 0xD800) (rest : List Piece) :
    joinPieces (.unit n :: rest) = Char.ofNat n :: joinPieces rest := by
  have hhigh : isHighSurrogate n = false := by simp [isHighSurrogate, h]
  have hlow : isLowSurrogate n = false := by
    simp only [isLowSurrogate, Bool.and_eq_false_iff, decide_eq_false_iff_not]
    omega
  match rest with
  | [] => simp [joinPieces, joinPieces.ofUnit, hhigh, hlow]
  | .plain c :: rest => simp [joinPieces, joinPieces.ofUnit, hhigh, hlow]
  | .unit next :: rest => simp [joinPieces, joinPieces.ofUnit, hhigh, hlow]

theorem joinPieces_written (cs : List Char) : joinPieces (cs.map writtenPiece) = cs := by
  induction cs with
  | nil => rfl
  | cons c cs ih =>
    rw [List.map_cons, writtenPiece]
    split
    · next h => rw [joinPieces_unit (by omega), ih, Char.ofNat_toNat]
    · rw [joinPieces, ih]

theorem string_written (text : String) (rest : List Char) :
    string (text.toList.flatMap writeChar ++ '"' :: rest) = .ok (text, rest) := by
  rw [string, stringBody_written]
  simp only [Except.map, joinPieces_written, String.ofList_toList]

/-! ### Values -/

mutual

/-- No object in a value has a key twice. -/
def Value.Distinct : Value → Prop
  | .arr items => itemsDistinct items
  | .obj members => (members.map (·.1)).Nodup ∧ membersDistinct members
  | _ => True

/-- No object in a list of values has a key twice. -/
def itemsDistinct : List Value → Prop
  | [] => True
  | item :: rest => item.Distinct ∧ itemsDistinct rest

/-- No object in the values of members has a key twice. -/
def membersDistinct : List (String × Value) → Prop
  | [] => True
  | (_, value) :: rest => value.Distinct ∧ membersDistinct rest

end

theorem put_of_not_mem {members : Members} {key : String} {value : Value}
    (h : key ∉ members.map (·.1)) : members.put key value = members ++ [(key, value)] := by
  induction members with
  | nil => rfl
  | cons member members ih =>
    obtain ⟨first, old⟩ := member
    simp only [List.map_cons, List.mem_cons, not_or] at h
    rw [Members.put, if_neg (Ne.symm h.1), ih h.2, List.cons_append]

/-- Pairs with distinct keys are the members that they give. -/
theorem ofPairs_of_nodup {pairs : List (String × Value)} (h : (pairs.map (·.1)).Nodup) :
    Members.ofPairs pairs = pairs := by
  have hfold : ∀ done : Members, ((done ++ pairs).map (·.1)).Nodup →
      pairs.foldl (fun members pair => Members.put members pair.1 pair.2) done = done ++ pairs := by
    clear h
    induction pairs with
    | nil => simp
    | cons pair pairs ih =>
      intro done hdone
      have hnew : pair.1 ∉ done.map (·.1) := by
        intro hmem
        rw [List.map_append, List.nodup_append] at hdone
        exact hdone.2.2 _ hmem _ (by simp) rfl
      rw [List.foldl_cons, put_of_not_mem hnew, ih _ (by simpa using hdone), List.append_assoc,
        List.singleton_append]
  exact hfold [] h

theorem skipSpace_of_head {c : Char} {cs : List Char} (h : isSpace c = false) :
    skipSpace (c :: cs) = c :: cs := by
  simp [skipSpace, h]

theorem skipSpace_newline {level : Nat} {c : Char} {cs : List Char} (h : isSpace c = false) :
    skipSpace (newline level ++ c :: cs) = c :: cs := by
  have hspaces : ∀ n, skipSpace (List.replicate n ' ' ++ c :: cs) = c :: cs := by
    intro n
    induction n with
    | zero => exact skipSpace_of_head h
    | succ n ih =>
      rw [List.replicate_succ, List.cons_append]
      exact ih
  exact hspaces (2 * level)

theorem skipSpace_newline_of_ok {level steps : Nat} {cs : List Char} {found : Value × List Char}
    (h : value steps cs = .ok found) : skipSpace (newline level ++ cs) = cs := by
  obtain ⟨c, tail, rfl, hc, -, -⟩ := head_of_value_ok h
  exact skipSpace_newline hc

/-- The end of an array or an object, on a line of its own, ends the last value in it. -/
theorem ends_renderItems (level outer : Nat) (items : List Value) (rest : List Char) :
    Ends (Value.renderItems level items ++ (newline outer ++ rest)) := by
  cases items with
  | nil => exact ends_newline outer rest
  | cons item items => exact ends_comma _

theorem ends_renderMembers (level outer : Nat) (members : List (String × Value))
    (rest : List Char) : Ends (Value.renderMembers level members ++ (newline outer ++ rest)) := by
  cases members with
  | nil => exact ends_newline outer rest
  | cons member members => exact ends_comma _

theorem length_newline (level : Nat) : (newline level).length = 2 * level + 1 := by
  simp [newline]

theorem skipSpace_space_of_ok {steps : Nat} {cs : List Char} {found : Value × List Char}
    (h : value steps cs = .ok found) : skipSpace (' ' :: cs) = cs := by
  obtain ⟨c, tail, rfl, hc, -, -⟩ := head_of_value_ok h
  exact skipSpace_of_head hc

mutual

/-- A value is read from its text, given more steps than it has characters. -/
theorem value_render (v : Value) {level steps : Nat} {rest : List Char} (hkeys : v.Distinct)
    (hwritable : v.writable = true) (hrest : Ends rest) (hsteps : (v.render level).length < steps) :
    value steps (v.render level ++ rest) = .ok (v, rest) := by
  obtain ⟨steps, rfl⟩ : ∃ n, steps = n + 1 := ⟨steps - 1, by omega⟩
  match v with
  | .null | .bool true | .bool false | .arr [] | .obj [] => rfl
  | .number n => exact value_writeNumber n hwritable hrest
  | .str text =>
    rw [Value.render, writeString, List.cons_append, List.append_assoc, List.singleton_append,
      value, string_written]
    rfl
  | .arr (first :: more) =>
    rw [Value.writable, Value.itemsWritable, Bool.and_eq_true] at hwritable
    simp only [Value.render, List.length_cons, List.length_append, length_newline] at hsteps
    have hitems := items_render first more level rest hkeys.1 hwritable.1 hkeys.2 hwritable.2
      (show (first.render (level + 1)).length + (Value.renderItems (level + 1) more).length + 1 <
        steps by omega)
    have hfirst := value_render first hkeys.1 hwritable.1
      (ends_renderItems (level + 1) level more (']' :: rest))
      (show (first.render (level + 1)).length < steps by omega)
    have hskip := @skipSpace_newline_of_ok (level + 1) _ _ _ hfirst
    obtain ⟨c, tail, hcs, -, hbracket, -⟩ := head_of_value_ok hfirst
    simp only [Value.render, List.cons_append, List.append_assoc, List.nil_append] at hskip hcs ⊢
    rw [value, hskip]
    rw [hcs] at hitems ⊢
    split
    · next heq =>
      injection heq with heq
      exact absurd heq hbracket
    · rw [hitems]
      rfl
  | .obj ((key, first) :: more) =>
    rw [Value.writable, Value.membersWritable, Bool.and_eq_true] at hwritable
    simp only [Value.render, List.length_cons, List.length_append, length_newline,
      List.length_nil] at hsteps
    have hmembers := members_render key first more level rest hkeys.2.1 hwritable.1 hkeys.2.2
      hwritable.2 (show (writeString key).length + (first.render (level + 1)).length +
        (Value.renderMembers (level + 1) more).length + 1 < steps by omega)
    have hskip : ∀ cs, skipSpace (newline (level + 1) ++ '"' :: cs) = '"' :: cs :=
      fun cs => skipSpace_newline rfl
    simp only [Value.render, writeString, List.cons_append, List.append_assoc,
      List.nil_append] at hmembers ⊢
    rw [value, hskip]
    split
    · next heq =>
      injection heq with heq
      exact absurd heq (by decide)
    · simp only [hmembers, Except.map, ofPairs_of_nodup hkeys.1]
termination_by steps

theorem items_render (first : Value) (more : List Value) {level steps : Nat} (outer : Nat)
    (rest : List Char) (hkeys : first.Distinct) (hwritable : first.writable = true)
    (hkeysMore : itemsDistinct more) (hwritableMore : Value.itemsWritable more = true)
    (hsteps : (first.render level).length + (Value.renderItems level more).length + 1 < steps) :
    items steps (first.render level ++ (Value.renderItems level more ++
      (newline outer ++ ']' :: rest))) = .ok (first :: more, rest) := by
  obtain ⟨steps, rfl⟩ : ∃ n, steps = n + 1 := ⟨steps - 1, by omega⟩
  have hfirst := value_render first hkeys hwritable
    (ends_renderItems level outer more (']' :: rest))
    (show (first.render level).length < steps by omega)
  rw [items, hfirst]
  match more with
  | [] =>
    simp only [Except.bind, Value.renderItems, List.nil_append,
      skipSpace_newline (show isSpace ']' = false from rfl)]
  | second :: more =>
    rw [Value.itemsWritable, Bool.and_eq_true] at hwritableMore
    simp only [Value.renderItems, List.length_cons, List.length_append, length_newline] at hsteps
    have hmore := items_render second more outer rest hkeysMore.1 hwritableMore.1 hkeysMore.2
      hwritableMore.2
      (show (second.render level).length + (Value.renderItems level more).length + 1 < steps by
        omega)
    have hsecond := value_render second hkeysMore.1 hwritableMore.1
      (ends_renderItems level outer more (']' :: rest))
      (show (second.render level).length < steps by omega)
    simp only [Except.bind, Value.renderItems, List.cons_append, List.append_assoc,
      skipSpace_of_head (show isSpace ',' = false from rfl), skipSpace_newline_of_ok hsecond, hmore,
      Except.map]
termination_by steps

theorem members_render (key : String) (first : Value) (more : List (String × Value))
    {level steps : Nat} (outer : Nat) (rest : List Char) (hkeys : first.Distinct)
    (hwritable : first.writable = true) (hkeysMore : membersDistinct more)
    (hwritableMore : Value.membersWritable more = true)
    (hsteps : (writeString key).length + (first.render level).length +
      (Value.renderMembers level more).length + 1 < steps) :
    members steps (writeString key ++ (':' :: ' ' :: (first.render level ++
      (Value.renderMembers level more ++ (newline outer ++ '\x7d' :: rest))))) =
      .ok ((key, first) :: more, rest) := by
  obtain ⟨steps, rfl⟩ : ∃ n, steps = n + 1 := ⟨steps - 1, by omega⟩
  have hfirst := value_render first hkeys hwritable
    (ends_renderMembers level outer more ('\x7d' :: rest))
    (show (first.render level).length < steps by omega)
  rw [writeString, List.cons_append, List.append_assoc, List.singleton_append, members,
    string_written]
  simp only [Except.bind, skipSpace_of_head (show isSpace ':' = false from rfl),
    skipSpace_space_of_ok hfirst, hfirst]
  match more with
  | [] =>
    simp only [Value.renderMembers, List.nil_append,
      skipSpace_newline (show isSpace '\x7d' = false from rfl)]
  | (nextKey, second) :: more =>
    rw [Value.membersWritable, Bool.and_eq_true] at hwritableMore
    simp only [Value.renderMembers, List.length_cons, List.length_append, length_newline,
      List.length_nil] at hsteps
    have hmore := members_render nextKey second more outer rest hkeysMore.1 hwritableMore.1
      hkeysMore.2 hwritableMore.2 (show (writeString nextKey).length +
        (second.render level).length + (Value.renderMembers level more).length + 1 < steps by omega)
    have hskip : ∀ cs, skipSpace (newline level ++ (writeString nextKey ++ cs)) =
        writeString nextKey ++ cs := fun cs => skipSpace_newline rfl
    simp only [Value.renderMembers, List.cons_append, List.append_assoc, List.nil_append,
      skipSpace_of_head (show isSpace ',' = false from rfl), hskip, hmore, Except.map]
termination_by steps

end

/-- Reading undoes writing, for every value that can be written. -/
theorem read_render {v : Value} (hkeys : v.Distinct) (hwritable : v.writable = true) :
    read (v.render 0) = .ok v := by
  have hread := value_render v hkeys hwritable ends_nil
    (Nat.lt_succ_self (v.render 0).length)
  rw [List.append_nil] at hread
  obtain ⟨c, tail, hcs, hspace, -, hmark⟩ := head_of_value_ok hread
  rw [hcs] at hread ⊢
  rw [read]
  · rw [skipSpace_of_head hspace, hread]
    rfl
  · intro rest heq
    injection heq with heq
    exact hmark heq

/-! ### Line breaks -/

theorem return_not_mem_of_isDigit {ds : List Char} (h : ∀ c ∈ ds, c.isDigit = true) :
    '\r' ∉ ds :=
  fun hmem => absurd (h _ hmem) (by decide)

theorem return_not_mem_plainText {ds : List Char} {point : Int} (h : '\r' ∉ ds) :
    '\r' ∉ Double.plainText ds point := by
  have htake : ∀ n, '\r' ∉ ds.take n := fun n hmem => h (List.mem_of_mem_take hmem)
  have hdrop : ∀ n, '\r' ∉ ds.drop n := fun n hmem => h (List.mem_of_mem_drop hmem)
  rw [Double.plainText]
  split
  · simp [h]
  · simp only [List.mem_append, List.mem_cons, List.mem_replicate, htake, not_or]
    refine ⟨by simp, by decide, ?_⟩
    split
    · decide
    · exact hdrop _

theorem return_not_mem_exponentText {ds : List Char} {point : Int} (h : '\r' ∉ ds) :
    '\r' ∉ Double.exponentText ds point := by
  have hsize : '\r' ∉ Nat.toDigits 10 (point - 1).natAbs :=
    return_not_mem_of_isDigit (isDigit_toDigits _)
  have hsign : '\r' ≠ (if point - 1 < 0 then '-' else '+') := by split <;> decide
  have htail : '\r' ∉ 'e' :: (if point - 1 < 0 then '-' else '+') ::
      (if (Nat.toDigits 10 (point - 1).natAbs).length < 2 then
        '0' :: Nat.toDigits 10 (point - 1).natAbs else Nat.toDigits 10 (point - 1).natAbs) := by
    simp only [List.mem_cons, hsign, false_or, not_or]
    refine ⟨by decide, ?_⟩
    split
    · simpa using hsize
    · exact hsize
  rcases ds with _ | ⟨first, _ | ⟨second, rest⟩⟩
  · exact List.not_mem_append h htail
  · exact List.not_mem_append h htail
  · refine List.not_mem_append ?_ htail
    simpa using h

theorem return_not_mem_magnitudeText (d : Double) : '\r' ∉ d.magnitudeText := by
  have hwritten : '\r' ∉ Nat.toDigits 10 d.shortest.1 :=
    return_not_mem_of_isDigit (isDigit_toDigits _)
  have hdigits : '\r' ∉ ((Nat.toDigits 10 d.shortest.1).reverse.dropWhile (· == '0')).reverse := by
    intro hmem
    have := (List.dropWhile_sublist _).subset (List.mem_reverse.mp hmem)
    exact hwritten (List.mem_reverse.mp this)
  rw [Double.magnitudeText]
  split
  · decide
  · simp only
    split
    · exact return_not_mem_plainText hdigits
    · exact return_not_mem_exponentText hdigits

theorem return_not_mem_writeNumber (n : Number) : '\r' ∉ writeNumber n := by
  cases n with
  | int i =>
    have hdigits : '\r' ∉ Nat.toDigits 10 i.natAbs := return_not_mem_of_isDigit (isDigit_toDigits _)
    rw [writeNumber, intText]
    split
    · simpa using hdigits
    · exact hdigits
  | float x =>
    match x with
    | .finite d =>
      have hmagnitude := return_not_mem_magnitudeText d
      rw [writeNumber, FloatingPoint.textWith, Double.text, String.toList_ofList]
      split
      · simpa using hmagnitude
      · exact hmagnitude
    | .infinite true | .infinite false | .nan => decide

theorem return_not_mem_writeString (text : String) : '\r' ∉ writeString text := by
  have hchar : ∀ c, '\r' ∉ writeChar c := by
    intro c
    by_cases hcontrol : c.toNat < 0x20
    · have hall : ∀ n < 0x20, '\r' ∉ writeChar (Char.ofNat n) := by decide
      have := hall c.toNat hcontrol
      rwa [Char.ofNat_toNat] at this
    · rw [writeChar]
      have hne : '\r' ≠ c := by
        rintro rfl
        exact hcontrol (by decide)
      repeat' split
      all_goals first | decide | simpa using hne
  simp only [writeString, List.mem_cons, List.mem_append, List.mem_flatMap, hchar]
  simp

theorem return_not_mem_newline (level : Nat) : '\r' ∉ newline level := by
  simp [newline]

mutual

theorem return_not_mem_render (v : Value) (level : Nat) : '\r' ∉ v.render level := by
  match v with
  | .null | .bool true | .bool false | .arr [] | .obj [] => simp [Value.render]
  | .number n => exact return_not_mem_writeNumber n
  | .str text => exact return_not_mem_writeString text
  | .arr (first :: more) =>
    have hfirst := return_not_mem_render first (level + 1)
    have hmore := return_not_mem_renderItems more (level + 1)
    simp only [Value.render, List.mem_cons, List.mem_append, return_not_mem_newline, hfirst, hmore,
      or_false, false_or]
    decide
  | .obj ((key, first) :: more) =>
    have hfirst := return_not_mem_render first (level + 1)
    have hmore := return_not_mem_renderMembers more (level + 1)
    simp only [Value.render, List.mem_cons, List.mem_append, return_not_mem_newline,
      return_not_mem_writeString, hfirst, hmore, or_false, false_or]
    decide

theorem return_not_mem_renderItems (items : List Value) (level : Nat) :
    '\r' ∉ Value.renderItems level items := by
  match items with
  | [] => simp [Value.renderItems]
  | first :: more =>
    have hfirst := return_not_mem_render first level
    have hmore := return_not_mem_renderItems more level
    simp only [Value.renderItems, List.mem_cons, List.mem_append, return_not_mem_newline, hfirst,
      hmore, or_false]
    decide

theorem return_not_mem_renderMembers (members : Members) (level : Nat) :
    '\r' ∉ Value.renderMembers level members := by
  match members with
  | [] => simp [Value.renderMembers]
  | (key, first) :: more =>
    have hfirst := return_not_mem_render first level
    have hmore := return_not_mem_renderMembers more level
    simp only [Value.renderMembers, List.mem_cons, List.mem_append, return_not_mem_newline,
      return_not_mem_writeString, hfirst, hmore, or_false, false_or]
    decide

end

end SdkCatalog.Json

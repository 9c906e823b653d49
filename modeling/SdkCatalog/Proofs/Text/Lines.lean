import SdkCatalog.Proofs.Text.Utf8
import SdkCatalog.Text.Basic

/-! Line breaks of texts that have none of a kind, and the lines of texts put together with a line
feed between them. Then texts with other line breaks, and with a byte-order mark in front: which of
the readings of a text do not tell them apart. -/

namespace SdkCatalog

namespace Text

theorem unifyBreaks_of_not_mem {cs : List Char} (h : '\r' ∉ cs) : unifyBreaks cs = cs := by
  fun_induction unifyBreaks cs with
  | case1 => rfl
  | case2 rest ih => simp at h
  | case3 rest hne ih => simp at h
  | case4 c rest hlong hne ih =>
    rw [ih fun hmem => h (List.mem_cons_of_mem c hmem)]

theorem lines_of_not_mem {cs : List Char} (h : '\n' ∉ cs) : lines cs = [cs] := by
  fun_induction lines cs with
  | case1 => rfl
  | case2 rest ih => simp at h
  | case3 rest ih => simp at h
  | case4 c rest hlong hne ih =>
    rw [ih fun hmem => h (List.mem_cons_of_mem c hmem)]
    rfl

theorem lines_cons {c : Char} {rest : List Char} (hfeed : c ≠ '\n')
    (hreturn : c = '\r' → rest.head? ≠ some '\n') :
    lines (c :: rest) = prependToFirst c (lines rest) := by
  rw [lines]
  · rintro tail rfl rfl
    exact hreturn rfl rfl
  · exact hfeed

/-- A line feed put after a text ends its last line, and a return that the line ended in is then
part of the break. The lines above stay, and those of the text after it follow. -/
theorem exists_lines_append (cs : List Char) : ∃ above last ending,
    (ending = [] ∨ ending = ['\r']) ∧ lines cs = above ++ [last ++ ending] ∧
    ∀ more, lines (cs ++ '\n' :: more) = above ++ last :: lines more := by
  fun_induction lines cs with
  | case1 => exact ⟨[], [], [], .inl rfl, rfl, fun _ => rfl⟩
  | case2 rest ih | case3 rest ih =>
    obtain ⟨above, last, ending, hending, hlines, happend⟩ := ih
    refine ⟨[] :: above, last, ending, hending, by rw [hlines, List.cons_append], fun more => ?_⟩
    exact congrArg ([] :: ·) (happend more)
  | case4 c rest hlong hne ih =>
    by_cases hreturn : c = '\r' ∧ rest = []
    · obtain ⟨rfl, rfl⟩ := hreturn
      exact ⟨[], [], ['\r'], .inr rfl, rfl, fun _ => rfl⟩
    · have hcons : ∀ more, lines (c :: (rest ++ '\n' :: more)) =
          prependToFirst c (lines (rest ++ '\n' :: more)) := by
        refine fun more => lines_cons hne fun hc hhead => ?_
        cases rest with
        | nil => exact hreturn ⟨hc, rfl⟩
        | cons d rest =>
          injection hhead with hd
          exact hlong rest hc (by rw [hd])
      obtain ⟨above, last, ending, hending, hlines, happend⟩ := ih
      cases above with
      | nil =>
        refine ⟨[], c :: last, ending, hending, by rw [hlines]; rfl, fun more => ?_⟩
        rw [List.cons_append, hcons, happend]
        rfl
      | cons line above =>
        refine ⟨(c :: line) :: above, last, ending, hending, by rw [hlines]; rfl, fun more => ?_⟩
        rw [List.cons_append, hcons, happend]
        rfl

end Text

/-! ### Line breaks written otherwise -/

/-- What can stand at the end of a line. -/
inductive LineBreak where
  | feed
  | returnFeed
  | loneReturn
  deriving DecidableEq

def LineBreak.chars : LineBreak → List Char
  | .feed => ['\n']
  | .returnFeed => ['\r', '\n']
  | .loneReturn => ['\r']

namespace Text

/-- A text with every line feed written as another line break. -/
def respell (sort : LineBreak) (cs : List Char) : List Char :=
  cs.flatMap fun c => if c = '\n' then sort.chars else [c]

variable {sort : LineBreak} {c : Char} {cs more : List Char}

@[simp] theorem respell_nil : respell sort [] = [] := rfl

theorem respell_cons : respell sort (c :: cs) =
    (if c = '\n' then sort.chars else [c]) ++ respell sort cs := rfl

theorem respell_feed (cs : List Char) : respell .feed cs = cs := by
  induction cs with
  | nil => rfl
  | cons c cs ih =>
    rw [respell_cons, ih]
    split
    · next h => rw [h]; rfl
    · rfl

theorem head?_respell_of_ne (h : '\r' ∉ cs) (hmore : more.head? ≠ some '\n')
    (hsort : sort.chars.head? = some '\r') : (respell sort cs ++ more).head? ≠ some '\n' := by
  cases cs with
  | nil => exact hmore
  | cons c cs =>
    rw [respell_cons]
    split
    · obtain ⟨rest, hrest⟩ := List.head?_eq_some_iff.mp hsort
      simp [hrest]
    · next hne => simp [hne]

theorem unifyBreaks_cons_of_ne (h : c ≠ '\r') : unifyBreaks (c :: cs) = c :: unifyBreaks cs := by
  rw [unifyBreaks]
  · rintro rest rfl
    exact absurd rfl h
  · exact h

theorem unifyBreaks_return (h : cs.head? ≠ some '\n') :
    unifyBreaks ('\r' :: cs) = '\n' :: unifyBreaks cs := by
  rw [unifyBreaks]
  rintro rest rfl
  exact h rfl

/-- Unified line breaks do not tell how they were spelled. A lone return is not taken together with
what follows the text, unless that begins with a line feed. -/
theorem unifyBreaks_respell (sort : LineBreak) (h : '\r' ∉ cs) (hmore : more.head? ≠ some '\n') :
    unifyBreaks (respell sort cs ++ more) = cs ++ unifyBreaks more := by
  induction cs with
  | nil => rfl
  | cons c cs ih =>
    obtain ⟨hc, hcs⟩ := not_or.mp (mt List.mem_cons.mpr h)
    rw [respell_cons]
    split
    · next hfeed =>
      subst hfeed
      cases sort with
      | feed => exact (unifyBreaks_cons_of_ne (by decide)).trans (congrArg _ (ih hcs))
      | returnFeed => exact congrArg ('\n' :: ·) (ih hcs)
      | loneReturn =>
        exact (unifyBreaks_return (head?_respell_of_ne hcs hmore rfl)).trans
          (congrArg _ (ih hcs))
    · exact (unifyBreaks_cons_of_ne (Ne.symm hc)).trans (congrArg _ (ih hcs))

/-- A carriage return before every line feed belongs to the breaks and not to the lines. -/
theorem lines_respell (h : '\r' ∉ cs) : lines (respell .returnFeed cs) = lines cs := by
  induction cs with
  | nil => rfl
  | cons c cs ih =>
    obtain ⟨hc, hcs⟩ := not_or.mp (mt List.mem_cons.mpr h)
    rw [respell_cons]
    split
    · next hfeed =>
      subst hfeed
      exact congrArg ([] :: ·) (ih hcs)
    · next hfeed =>
      have hreturn : ∀ rest : List Char, c = '\r' → rest.head? ≠ some '\n' :=
        fun _ heq => absurd heq.symm hc
      rw [List.singleton_append, lines_cons hfeed (hreturn _), lines_cons hfeed (hreturn _), ih hcs]

end Text

/-! ### Byte-order marks -/

namespace Utf8

def mark : List UInt8 :=
  [0xEF, 0xBB, 0xBF]

variable {cs : List Char}

theorem encode_append (cs more : List Char) : encode (cs ++ more) = encode cs ++ encode more :=
  List.flatMap_append

/-- Only the mark is spelled with the bytes of the mark. -/
theorem dropMark_encode (h : cs.head? ≠ some '\uFEFF') : dropMark (encode cs) = encode cs := by
  rw [dropMark.eq_def]
  split
  · next rest hrest =>
    obtain ⟨next, hnext⟩ := decodeFrom_encodeChar 0 '\uFEFF' rest
    rw [show String.utf8EncodeChar '\uFEFF' ++ rest = encode cs from hrest.symm,
      decodeFrom_encode] at hnext
    cases hdecoded : decodeFrom next rest with
    | error => simp [hdecoded, Except.map] at hnext
    | ok others =>
      rw [hdecoded] at hnext
      injection hnext with hnext
      simp [hnext] at h
  · rfl

/-- A text is not spelled by a part of the mark. -/
theorem encode_ne_part (cs : List Char) : ¬(encode cs = [0xEF] ∨ encode cs = [0xEF, 0xBB]) := by
  have hdecode := decode_encode cs
  rintro (h | h)
  all_goals
    rw [h, decode, decodeFrom] at hdecode
    simp [lead?, continuations] at hdecode

end Utf8

end SdkCatalog

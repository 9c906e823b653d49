import Mathlib.Data.List.Induction
import SdkCatalog.Proofs.Json.RoundTrip

/-! What reading JSON gives: no object in it has a key twice, and no whole number in it has too many
digits to be written. So whatever was read can be written, and reads back as it was. -/

namespace SdkCatalog

/-! ### Digits -/

theorem Text.digitIn?_lt {base value : Nat} {c : Char} (h : digitIn? base c = some value) :
    value < base := by
  rw [digitIn?] at h
  simp only [Option.filter_eq_some_iff, decide_eq_true_eq] at h
  exact h.2

theorem Text.ofDigits_lt_pow {base : Nat} {values : List Nat}
    (h : ∀ value ∈ values, value < base) : ofDigits base values < base ^ values.length := by
  induction values using List.reverseRecOn with
  | nil => simp [ofDigits]
  | append_singleton values value ih =>
    have hvalue : value < base := h value (by simp)
    have hvalues := ih fun other hother => h other (by simp [hother])
    rw [ofDigits_concat, List.length_append, List.length_singleton, Nat.pow_succ]
    calc ofDigits base values * base + value
        < (ofDigits base values + 1) * base := by
          rw [Nat.add_mul, Nat.one_mul]
          omega
      _ ≤ base ^ values.length * base := Nat.mul_le_mul_right base hvalues

namespace Json

/-! ### Members -/

theorem mem_put {members : Members} {key : String} {value : Value} {member : String × Value}
    (h : member ∈ members.put key value) : member.2 = value ∨ member ∈ members := by
  induction members with
  | nil => exact .inl (by rw [List.mem_singleton.mp h])
  | cons first rest ih =>
    obtain ⟨other, old⟩ := first
    rw [Members.put] at h
    split at h
    · rcases List.mem_cons.mp h with rfl | h
      · exact .inl rfl
      · exact .inr (List.mem_cons_of_mem _ h)
    · rcases List.mem_cons.mp h with rfl | h
      · exact .inr List.mem_cons_self
      · exact (ih h).imp_right (List.mem_cons_of_mem _)

theorem mem_keys_put {members : Members} {key other : String} {value : Value} :
    other ∈ (members.put key value).map (·.1) ↔ other = key ∨ other ∈ members.map (·.1) := by
  induction members with
  | nil => simp [Members.put]
  | cons first rest ih =>
    obtain ⟨head, old⟩ := first
    rw [Members.put]
    split
    · next h => simp [h]
    · simp only [List.map_cons, List.mem_cons, ih]
      exact or_left_comm

/-- A value that is put under a key gives the key no second place. -/
theorem nodup_put {members : Members} (key : String) (value : Value)
    (h : (members.map (·.1)).Nodup) : ((members.put key value).map (·.1)).Nodup := by
  induction members with
  | nil => simp [Members.put]
  | cons first rest ih =>
    obtain ⟨head, old⟩ := first
    rw [List.map_cons, List.nodup_cons] at h
    rw [Members.put]
    split
    · simpa using h
    · next hne =>
      rw [List.map_cons, List.nodup_cons, mem_keys_put]
      exact ⟨not_or.mpr ⟨hne, h.1⟩, ih h.2⟩

/-- The members that pairs give have distinct keys and values among those of the pairs. -/
theorem ofPairs_spec (pairs : List (String × Value)) :
    ((Members.ofPairs pairs).map (·.1)).Nodup ∧
      ∀ member ∈ Members.ofPairs pairs, ∃ pair ∈ pairs, pair.2 = member.2 := by
  induction pairs using List.reverseRecOn with
  | nil => simp [Members.ofPairs]
  | append_singleton pairs pair ih =>
    rw [Members.ofPairs, List.foldl_append, ← Members.ofPairs]
    refine ⟨nodup_put _ _ ih.1, fun member hmember => ?_⟩
    rcases mem_put hmember with hvalue | hold
    · exact ⟨pair, by simp, hvalue.symm⟩
    · obtain ⟨other, hother, hvalue⟩ := ih.2 member hold
      exact ⟨other, by simp [hother], hvalue⟩

/-! ### Regular values -/

/-- A value that can be written and then read as it was: no object in it has a key twice, and no
whole number has too many digits. -/
structure Value.Regular (value : Value) : Prop where
  distinct : value.Distinct
  writable : value.writable = true

theorem regular_arr_iff {items : List Value} :
    (Value.arr items).Regular ↔ ∀ item ∈ items, item.Regular := by
  induction items with
  | nil => exact ⟨fun _ item h => by simp at h, fun _ => ⟨trivial, rfl⟩⟩
  | cons first rest ih =>
    rw [List.forall_mem_cons, ← ih]
    constructor
    · rintro ⟨hdistinct, hwritable⟩
      obtain ⟨hfirst, hrest⟩ := Bool.and_eq_true_iff.mp hwritable
      exact ⟨⟨hdistinct.1, hfirst⟩, hdistinct.2, hrest⟩
    · rintro ⟨hfirst, hrest⟩
      exact ⟨⟨hfirst.distinct, hrest.distinct⟩,
        Bool.and_eq_true_iff.mpr ⟨hfirst.writable, hrest.writable⟩⟩

theorem regular_obj_iff {members : Members} : (Value.obj members).Regular ↔
    (members.map (·.1)).Nodup ∧ ∀ member ∈ members, member.2.Regular := by
  have hvalues : membersDistinct members ∧ Value.membersWritable members = true ↔
      ∀ member ∈ members, member.2.Regular := by
    induction members with
    | nil => exact ⟨fun _ member h => by simp at h, fun _ => ⟨trivial, rfl⟩⟩
    | cons first rest ih =>
      rw [List.forall_mem_cons, ← ih]
      constructor
      · rintro ⟨hdistinct, hwritable⟩
        obtain ⟨hfirst, hrest⟩ := Bool.and_eq_true_iff.mp hwritable
        exact ⟨⟨hdistinct.1, hfirst⟩, hdistinct.2, hrest⟩
      · rintro ⟨hfirst, hdistinct, hwritable⟩
        exact ⟨⟨hfirst.distinct, hdistinct⟩,
          Bool.and_eq_true_iff.mpr ⟨hfirst.writable, hwritable⟩⟩
  rw [← hvalues]
  exact ⟨fun h => ⟨h.distinct.1, h.distinct.2, h.writable⟩, fun h => ⟨⟨h.1, h.2.1⟩, h.2.2⟩⟩

theorem regular_float (value : FloatingPoint) : (Value.number (.float value)).Regular :=
  ⟨trivial, rfl⟩

/-- Digits that are few enough spell a whole number that can be written. -/
theorem regular_signed {negative : Bool} {values : List Nat} (hbase : ∀ value ∈ values, value < 10)
    (hshort : values.length ≤ digitLimit) :
    (Value.number (.int (Numeral.signed negative (Text.ofDigits 10 values)))).Regular := by
  refine ⟨trivial, ?_⟩
  have habs : (Numeral.signed negative (Text.ofDigits 10 values)).natAbs =
      Text.ofDigits 10 values := by
    rw [Numeral.signed]
    split <;> simp
  -- For any limit, so that the power of ten is not computed.
  have hlt : ∀ limit, values.length ≤ limit → Text.ofDigits 10 values < Nat.pow 10 limit :=
    fun limit h => Nat.lt_of_lt_of_le (Text.ofDigits_lt_pow hbase)
      (Nat.pow_le_pow_right (by decide) h)
  rw [Value.writable, Number.isWritable, habs]
  unfold shortestTooLong
  exact decide_eq_true (hlt digitLimit hshort)

/-! ### Readings -/

variable {α β : Type} {p : α → Prop} {q : β → Prop}

/-- Whatever a reading finds has a property. -/
def Finds (p : α → Prop) (reading : Reading α) : Prop :=
  ∀ found rest, reading = .ok (found, rest) → p found

theorem finds_ok {found : α} (rest : List Char) (h : p found) : Finds p (.ok (found, rest)) := by
  intro other rest' heq
  injection heq with heq
  injection heq with heq
  exact heq ▸ h

theorem finds_error (error : ReadError) : Finds p (.error error) := by
  rintro _ _ ⟨⟩

theorem finds_complain (complaint : Complaint) (here : List Char) :
    Finds p (complain complaint here) :=
  finds_error _

theorem Finds.bind {reading : Reading α} {next : α × List Char → Reading β}
    (h : Finds p reading) (hnext : ∀ found rest, p found → Finds q (next (found, rest))) :
    Finds q (reading.bind next) := by
  cases reading with
  | error error => exact finds_error _
  | ok answer => exact hnext answer.1 answer.2 (h answer.1 answer.2 rfl)

theorem Finds.map {reading : Reading α} {change : α × List Char → β × List Char}
    (h : Finds p reading) (hchange : ∀ answer, p answer.1 → q (change answer).1) :
    Finds q (reading.map change) := by
  cases reading with
  | error error => exact finds_error _
  | ok answer => exact finds_ok _ (hchange answer (h answer.1 answer.2 rfl))

theorem finds_any (reading : Reading α) : Finds (fun _ => True) reading :=
  fun _ _ _ => trivial

theorem lt_of_mem_wholeDigits {cs : List Char} : ∀ value ∈ (wholeDigits cs).1, value < 10 := by
  intro value hvalue
  rw [wholeDigits.eq_def] at hvalue
  split at hvalue
  · simp only [List.mem_singleton] at hvalue
    omega
  · rw [digits, List.mem_filterMap] at hvalue
    obtain ⟨c, -, hc⟩ := hvalue
    exact Text.digitIn?_lt hc

theorem finds_number (negative : Bool) (here cs : List Char) :
    Finds Value.Regular (number negative here cs) := by
  have hbase := @lt_of_mem_wholeDigits cs
  unfold number
  split
  · exact finds_complain _ _
  · next whole rest _ hwhole =>
    rw [hwhole] at hbase
    simp only
    split
    · exact finds_ok _ (regular_float _)
    · split
      · split
        · exact finds_error _
        · next hshort => exact finds_ok _ (regular_signed hbase (Nat.le_of_not_lt hshort))
      · exact finds_ok _ (regular_float _)

theorem finds_atom (cs : List Char) : Finds Value.Regular (atom cs) := by
  have hwords : ∀ word ∈ words, word.2.Regular := by
    simp only [words, List.forall_mem_cons]
    exact ⟨⟨trivial, rfl⟩, ⟨trivial, rfl⟩, ⟨trivial, rfl⟩, ⟨trivial, rfl⟩, ⟨trivial, rfl⟩,
      ⟨trivial, rfl⟩, List.forall_mem_nil _⟩
  unfold atom
  split
  · next found hfound =>
    rw [word?] at hfound
    obtain ⟨⟨text, value⟩, hmem, hword⟩ := List.exists_of_findSome?_eq_some hfound
    simp only at hword
    split at hword
    · injection hword with hword
      exact hword ▸ finds_ok _ (hwords _ hmem)
    · simp at hword
  · split
    · exact finds_number _ _ _
    · exact finds_number _ _ _

theorem finds_value {steps : Nat}
    (hitems : ∀ cs, Finds (∀ item ∈ ·, item.Regular) (items steps cs))
    (hmembers : ∀ cs, Finds (∀ pair ∈ ·, pair.2.Regular) (members steps cs)) (cs : List Char) :
    Finds Value.Regular (value (steps + 1) cs) := by
  unfold value
  split
  · exact (finds_any _).map fun _ _ => ⟨trivial, rfl⟩
  · split
    · exact finds_ok _ (regular_arr_iff.mpr (List.forall_mem_nil _))
    · exact (hitems _).map fun _ => regular_arr_iff.mpr
  · split
    · exact finds_ok _ (regular_obj_iff.mpr ⟨List.nodup_nil, List.forall_mem_nil _⟩)
    · refine (hmembers _).map fun answer hanswer => regular_obj_iff.mpr ?_
      obtain ⟨hnodup, hvalues⟩ := ofPairs_spec answer.1
      refine ⟨hnodup, fun member hmember => ?_⟩
      obtain ⟨pair, hpair, heq⟩ := hvalues member hmember
      exact heq ▸ hanswer pair hpair
  · exact finds_atom _

theorem finds_items {steps : Nat} (hvalue : ∀ cs, Finds Value.Regular (value steps cs))
    (hitems : ∀ cs, Finds (∀ item ∈ ·, item.Regular) (items steps cs)) (cs : List Char) :
    Finds (∀ item ∈ ·, item.Regular) (items (steps + 1) cs) := by
  unfold items
  refine (hvalue cs).bind fun first rest hfirst => ?_
  simp only
  split
  · exact finds_ok _ (by simpa using hfirst)
  · exact (hitems _).map fun answer hmore => List.forall_mem_cons.mpr ⟨hfirst, hmore⟩
  · exact finds_complain _ _

theorem finds_members {steps : Nat} (hvalue : ∀ cs, Finds Value.Regular (value steps cs))
    (hmembers : ∀ cs, Finds (∀ pair ∈ ·, pair.2.Regular) (members steps cs)) (cs : List Char) :
    Finds (∀ pair ∈ ·, pair.2.Regular) (members (steps + 1) cs) := by
  unfold members
  split
  · refine (finds_any (string _)).bind fun key afterKey _ => ?_
    simp only
    split
    · refine (hvalue _).bind fun first rest hfirst => ?_
      simp only
      split
      · exact finds_ok _ (by simpa using hfirst)
      · exact (hmembers _).map fun answer hmore => List.forall_mem_cons.mpr ⟨hfirst, hmore⟩
      · exact finds_complain _ _
    · exact finds_complain _ _
  · exact finds_complain _ _

/-- Values are regular because their items and members are, which are read with fewer steps. -/
theorem finds_steps (steps : Nat) : (∀ cs, Finds Value.Regular (value steps cs)) ∧
    (∀ cs, Finds (∀ item ∈ ·, item.Regular) (items steps cs)) ∧
    ∀ cs, Finds (∀ pair ∈ ·, pair.2.Regular) (members steps cs) := by
  induction steps with
  | zero =>
    exact ⟨fun cs => finds_complain _ _, fun cs => finds_complain _ _,
      fun cs => finds_complain _ _⟩
  | succ steps ih =>
    obtain ⟨hvalue, hitems, hmembers⟩ := ih
    exact ⟨finds_value hitems hmembers, finds_items hvalue hitems, finds_members hvalue hmembers⟩

theorem regular_of_read {cs : List Char} {v : Value} (h : read cs = .ok v) : v.Regular := by
  unfold read at h
  split at h
  · simp [complain] at h
  · cases hvalue : value (cs.length + 1) (skipSpace cs) with
    | error error => simp [hvalue, Except.bind] at h
    | ok answer =>
      obtain ⟨found, rest⟩ := answer
      simp only [hvalue, Except.bind] at h
      split at h
      · injection h with h
        exact h ▸ (finds_steps _).1 _ _ _ hvalue
      · simp [complain] at h

/-- Writing and reading again is without loss for every value that was read. -/
theorem read_write_of_regular {v : Value} (h : v.Regular) :
    ∃ text, v.write? = some text ∧ read text.toList = .ok v := by
  refine ⟨String.ofList (v.render 0), by rw [Value.write?, if_pos h.writable], ?_⟩
  rw [String.toList_ofList]
  exact read_render h.distinct h.writable

end Json

end SdkCatalog

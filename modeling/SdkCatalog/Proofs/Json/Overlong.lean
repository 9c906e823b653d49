import SdkCatalog.Json.Reader

/-! Errors of reading JSON: a text is malformed, or a whole number in it has more digits than can be
read. No number of fewer digits is refused. -/

namespace SdkCatalog.Json

variable {α β : Type}

/-- A reading that fails because of a number fails because of one with too many digits. -/
def Bounded (reading : Except ReadError α) : Prop :=
  ∀ fault, reading = .error (.tooLong fault) → digitLimit < fault.digits

theorem bounded_ok (answer : α) : Bounded (.ok answer) := by
  simp [Bounded]

theorem bounded_complain (complaint : Complaint) (here : List Char) :
    Bounded (complain complaint here : Except ReadError α) := by
  simp [Bounded, complain]

theorem Bounded.bind {reading : Except ReadError α} {next : α → Except ReadError β}
    (h : Bounded reading) (hnext : ∀ answer, Bounded (next answer)) :
    Bounded (reading.bind next) := by
  cases reading with
  | ok answer => exact hnext answer
  | error error =>
    intro fault hfault
    injection hfault with hfault
    exact h fault (by rw [hfault])

theorem Bounded.map {reading : Except ReadError α} (h : Bounded reading) (change : α → β) :
    Bounded (reading.map change) := by
  cases reading with
  | ok answer => exact bounded_ok _
  | error error =>
    intro fault hfault
    injection hfault with hfault
    exact h fault (by rw [hfault])

theorem bounded_stringBody (opening cs : List Char) : Bounded (stringBody opening cs) := by
  fun_induction stringBody opening cs
  case case2 => exact bounded_ok _
  case case4 ih | case8 ih | case11 ih => exact ih.map _
  all_goals exact bounded_complain _ _

theorem bounded_number (negative : Bool) (here cs : List Char) :
    Bounded (number negative here cs) := by
  unfold number
  split
  · exact bounded_complain _ _
  · simp only
    split
    · exact bounded_ok _
    · split
      · split
        · next hlong =>
          intro fault hfault
          injection hfault with hfault
          injection hfault with hfault
          exact hfault ▸ hlong
        · exact bounded_ok _
      · exact bounded_ok _

theorem bounded_atom (cs : List Char) : Bounded (atom cs) := by
  unfold atom
  split
  · exact bounded_ok _
  · split
    · exact bounded_number _ _ _
    · exact bounded_number _ _ _

/-- Values, items and members are read with the errors of what they are made of. -/
theorem bounded_steps (steps : Nat) : (∀ cs, Bounded (value steps cs)) ∧
    (∀ cs, Bounded (items steps cs)) ∧ ∀ cs, Bounded (members steps cs) := by
  -- The three readers call one another with one step less, so one induction serves all.
  induction steps with
  | zero =>
    exact ⟨fun cs => bounded_complain _ _, fun cs => bounded_complain _ _,
      fun cs => bounded_complain _ _⟩
  | succ steps ih =>
    obtain ⟨hvalue, hitems, hmembers⟩ := ih
    have hstring : ∀ cs, Bounded (string cs) := fun cs => (bounded_stringBody _ _).map _
    refine ⟨fun cs => ?_, fun cs => ?_, fun cs => ?_⟩
    · unfold value
      split
      · exact (hstring _).map _
      · split
        · exact bounded_ok _
        · exact (hitems _).map _
      · split
        · exact bounded_ok _
        · exact (hmembers _).map _
      · exact bounded_atom _
    · unfold items
      refine (hvalue cs).bind fun (first, rest) => ?_
      simp only
      split
      · exact bounded_ok _
      · exact (hitems _).map _
      · exact bounded_complain _ _
    · unfold members
      split
      · refine (hstring _).bind fun (key, afterKey) => ?_
        simp only
        split
        · refine (hvalue _).bind fun (first, rest) => ?_
          simp only
          split
          · exact bounded_ok _
          · exact (hmembers _).map _
          · exact bounded_complain _ _
        · exact bounded_complain _ _
      · exact bounded_complain _ _

theorem bounded_read (cs : List Char) : Bounded (read cs) := by
  unfold read
  split
  · exact bounded_complain _ _
  · refine ((bounded_steps _).1 _).bind fun (found, rest) => ?_
    simp only
    split
    · exact bounded_ok _
    · exact bounded_complain _ _

end SdkCatalog.Json

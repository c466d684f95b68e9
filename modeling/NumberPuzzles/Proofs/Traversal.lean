import Mathlib.Data.List.Forall2

/-!
# Reading entry by entry

One step after another succeeds when each of them does.  A list is read entry by entry, and the
reading stops at the first entry that fails.  So it succeeds when every entry does, with the
values in order, and otherwise fails as the first failing entry does.  The entries and their
values then correspond, one to one.
-/

namespace NumberPuzzles

variable {α β ε δ : Type}

/-! ## Outcomes -/

theorem bind_eq_ok_iff {first : Except ε α} {next : α → Except ε β} {result : β} :
    first >>= next = .ok result ↔ ∃ value, first = .ok value ∧ next value = .ok result := by
  cases first with
  | error error => exact iff_of_false nofun nofun
  | ok value =>
      constructor
      · intro hnext
        exact ⟨value, rfl, hnext⟩
      · rintro ⟨other, hother, hnext⟩
        cases hother
        exact hnext

/-- Saying an error in other words changes no success. -/
theorem mapError_eq_ok_iff {describe : ε → δ} {outcome : Except ε α} {value : α} :
    outcome.mapError describe = .ok value ↔ outcome = .ok value := by
  cases outcome with
  | error error => exact iff_of_false nofun nofun
  | ok found =>
      change Except.ok found = Except.ok value ↔ _
      rw [Except.ok.injEq, Except.ok.injEq]

theorem mapError_eq_error_iff {describe : ε → δ} {outcome : Except ε α} {report : δ} :
    outcome.mapError describe = .error report ↔
      ∃ error, outcome = .error error ∧ report = describe error := by
  cases outcome with
  | ok value => exact iff_of_false nofun nofun
  | error error =>
      change Except.error (describe error) = Except.error report ↔ _
      simp [eq_comm]

/-! ## Lists that correspond -/

theorem exists_value_of_forall₂ {relates : α → β → Prop} {entries : List α} {values : List β}
    (hforall : List.Forall₂ relates entries values) :
    ∀ entry ∈ entries, ∃ value ∈ values, relates entry value := by
  intro entry hentry
  obtain ⟨index, hindex, rfl⟩ := List.mem_iff_getElem.mp hentry
  have hvalue : index < values.length := hforall.length_eq ▸ hindex
  exact ⟨values[index], List.getElem_mem hvalue, hforall.get hindex hvalue⟩

theorem exists_entry_of_forall₂ {relates : α → β → Prop} {entries : List α} {values : List β}
    (hforall : List.Forall₂ relates entries values) :
    ∀ value ∈ values, ∃ entry ∈ entries, relates entry value :=
  exists_value_of_forall₂ hforall.flip

/-- Values for all entries make a list that corresponds. -/
theorem exists_forall₂_iff {relates : α → β → Prop} {entries : List α} :
    (∃ values, List.Forall₂ relates entries values) ↔
      ∀ entry ∈ entries, ∃ value, relates entry value := by
  constructor
  · rintro ⟨values, hforall⟩ entry hentry
    obtain ⟨value, -, hvalue⟩ := exists_value_of_forall₂ hforall entry hentry
    exact ⟨value, hvalue⟩
  · intro hall
    induction entries with
    | nil => exact ⟨[], .nil⟩
    | cons entry rest ih =>
        obtain ⟨⟨value, hvalue⟩, hrest⟩ := List.forall_mem_cons.mp hall
        obtain ⟨values, hvalues⟩ := ih hrest
        exact ⟨value :: values, .cons hvalue hvalues⟩

/-! ## Reading a list -/

theorem mapM_cons_ok {read : α → Except ε β} {entry : α} {value : β}
    (hentry : read entry = .ok value) (rest : List α) :
    (entry :: rest).mapM read = (rest.mapM read).map (value :: ·) := by
  rw [List.mapM_cons, hentry]
  cases rest.mapM read <;> rfl

theorem mapM_cons_error {read : α → Except ε β} {entry : α} {error : ε}
    (hentry : read entry = .error error) (rest : List α) :
    (entry :: rest).mapM read = .error error := by
  rw [List.mapM_cons, hentry]
  rfl

theorem mapM_eq_ok_iff {read : α → Except ε β} {entries : List α} {values : List β} :
    entries.mapM read = .ok values ↔
      List.Forall₂ (fun entry value => read entry = .ok value) entries values := by
  induction entries generalizing values with
  | nil =>
      rw [List.mapM_nil, List.forall₂_nil_left_iff]
      exact Except.ok.injEq [] values ▸ eq_comm
  | cons entry rest ih =>
      rw [List.forall₂_cons_left_iff]
      cases hentry : read entry with
      | error error =>
          rw [mapM_cons_error hentry]
          simp
      | ok value =>
          rw [mapM_cons_ok hentry]
          cases hrest : rest.mapM read with
          | error error =>
              simp only [← ih, hrest]
              simp [Except.map]
          | ok others =>
              simp only [← ih, hrest]
              simp [Except.map, eq_comm]

/-- The reading fails as the first entry that fails. -/
theorem mapM_eq_error_iff {read : α → Except ε β} {entries : List α} {error : ε} :
    entries.mapM read = .error error ↔
      ∃ before entry after, entries = before ++ entry :: after ∧
        (∀ earlier ∈ before, ∃ value, read earlier = .ok value) ∧ read entry = .error error := by
  constructor
  · intro hfails
    induction entries with
    | nil => cases hfails
    | cons entry rest ih =>
        cases hentry : read entry with
        | error first =>
            rw [mapM_cons_error hentry] at hfails
            cases hfails
            exact ⟨[], entry, rest, rfl, by simp, hentry⟩
        | ok value =>
            rw [mapM_cons_ok hentry] at hfails
            cases hrest : rest.mapM read with
            | ok others =>
                rw [hrest] at hfails
                cases hfails
            | error first =>
                rw [hrest] at hfails
                cases hfails
                obtain ⟨before, failing, after, rfl, hbefore, hfailing⟩ := ih hrest
                refine ⟨entry :: before, failing, after, rfl, ?_, hfailing⟩
                exact List.forall_mem_cons.mpr ⟨⟨value, hentry⟩, hbefore⟩
  · rintro ⟨before, entry, after, rfl, hbefore, hentry⟩
    induction before with
    | nil => exact mapM_cons_error hentry after
    | cons earlier before ih =>
        obtain ⟨⟨value, hvalue⟩, hbefore⟩ := List.forall_mem_cons.mp hbefore
        rw [List.cons_append, mapM_cons_ok hvalue, ih hbefore]
        rfl

end NumberPuzzles

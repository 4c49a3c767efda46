/-
  When there is a header, and which.

  A table has a header unless a name is in conflict, and the header then has the lines of the
  layout (`Table.header_eq_ok_iff`). What was checked of the options can be taken for granted
  there (`Options.isIdentifier_base`). Without a table there is no header, and the error is that
  of the reading (`Header.ofReading_of_error`).
-/
import NodeHeader.Header.Generation

namespace NodeHeader

theorem Options.isIdentifier_base (o : Options) : Cpp.isIdentifier o.base = true :=
  o.holds_checks ⟨.base, o.base, Cpp.isIdentifier o.base⟩ (by simp [Settings.checks])

namespace Table

theorem result_header (t : Table) (o : Options) :
    (t.header o).result =
      (t.check o.toSettings).map fun _ => ⟨Header.lines o.toSettings t.toList⟩ := by
  rw [header, Traced.result_bind, Traced.ofExcept]
  cases t.check o.toSettings <;> rfl

/-- A header is written exactly if the names pass, and then with the lines of the layout. -/
theorem header_eq_ok_iff {t : Table} {o : Options} {d : Document} :
    (t.header o).result = .ok d ↔
      t.check o.toSettings = .ok () ∧ d.lines = Header.lines o.toSettings t.toList := by
  rw [result_header]
  constructor
  · intro h
    cases hcheck : t.check o.toSettings with
    | error err => rw [hcheck] at h; cases h
    | ok u =>
      rw [hcheck] at h
      obtain rfl := Except.ok.inj h
      exact ⟨rfl, rfl⟩
  · rintro ⟨hcheck, hlines⟩
    rw [hcheck, ← hlines]
    rfl

/-- Nothing is told of a table with a name in conflict. -/
theorem header_eq_of_conflict {t : Table} {o : Options} {c : Conflict}
    (h : Conflict.first? o.toSettings t.toList = some c) :
    t.header o = ⟨[], .error (.conflict c)⟩ := by
  have hcheck : t.check o.toSettings = .error (.conflict c) := by rw [check, h]
  rw [header, Traced.bind_of_error hcheck]
  rfl

theorem header_eq_of_no_conflict {t : Table} {o : Options}
    (h : Conflict.first? o.toSettings t.toList = none) :
    t.header o =
      ⟨t.headerEvents o.toSettings, .ok ⟨Header.lines o.toSettings t.toList⟩⟩ := by
  have hcheck : t.check o.toSettings = .ok () := by rw [check, h]
  rw [header, Traced.bind_of_ok hcheck]
  rfl

end Table

namespace Header

variable {reading : Traced DefinitionError Table} {err : DefinitionError} {table : Table}

/-! ### Headers of what is read -/

theorem ofReading_eq_of_error (h : reading.result = .error err) (o : Options) :
    ofReading reading o = ⟨reading.events, .error (.definitions err)⟩ := by
  have hcause : (reading.mapError GenerationError.definitions).result =
      .error (.definitions err) := by
    rw [Traced.mapError, h]
    rfl
  rw [ofReading, Traced.bind_of_error hcause]
  rfl

theorem ofReading_eq_of_ok (h : reading.result = .ok table) (o : Options) :
    ofReading reading o =
      ⟨reading.events ++ (table.header o).events, (table.header o).result⟩ := by
  have htable : (reading.mapError GenerationError.definitions).result = .ok table := by
    rw [Traced.mapError, h]
    rfl
  rw [ofReading, Traced.bind_of_ok htable]
  rfl

/-- Entries that are refused have no header, for the same reason. -/
theorem ofReading_of_error (h : reading.result = .error err) (o : Options) :
    (ofReading reading o).result = .error (.definitions err) := by
  rw [ofReading_eq_of_error h]

end Header

end NodeHeader

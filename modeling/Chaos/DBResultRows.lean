import Chaos.DBResult

/-!
# The shape of a MySQL result

The table has the field of every cell at the cell's own row and column, and a name leads to the place of the first
column that has it. What a field holds plays no part in it.
-/
namespace Chaos.DBMysql

open StdMap DBMysqlResult

variable {names : List String} {name : String} {t : ResultSet}

/-- The first column with a name. -/
theorem find?_zipIdx (hname : name ∈ names) (k : ℕ) :
    (names.zipIdx k).find? (fun c => name = c.1) = some (name, names.idxOf name + k) := by
  induction names generalizing k with
  | nil => cases hname
  | cons n names ih =>
    rw [List.zipIdx_cons, List.find?_cons, List.idxOf_cons]
    by_cases hn : name = n
    · simp [hn]
    · have hmem : name ∈ names := (List.mem_cons.mp hname).resolve_left hn
      have hbeq : (n == name) = false := beq_false_of_ne (Ne.symm hn)
      simp only [hn, decide_false, ih hmem, hbeq, cond_false]
      rw [Nat.add_assoc, Nat.add_comm 1 k]

theorem lookup_nameMap_of_mem (hname : name ∈ names) :
    (nameMap names).lookup name = some ⟨name, names.idxOf name⟩ := by
  rw [nameMap, lookup_foldl_insertNew, Finmap.lookup_empty, Option.none_or, find?_zipIdx hname]
  rfl

theorem lookup_nameMap_of_not_mem (hname : name ∉ names) : (nameMap names).lookup name = none := by
  have hfind : names.zipIdx.find? (fun c => name = c.1) = none := by
    rw [List.find?_eq_none]
    intro c hc heq
    obtain rfl := of_decide_eq_true heq
    exact hname (List.fst_mem_of_mem_zipIdx hc)
  rw [nameMap, lookup_foldl_insertNew, Finmap.lookup_empty, Option.none_or, hfind]
  rfl

/-- With columns the table has the rows of the result set. -/
theorem result_queryResult (hcolumns : t.names ≠ []) :
    (queryResult t).result = t.rows.mapIdx fun i row => row.mapIdx (stored i) := by
  rw [queryResult_eq, if_neg hcolumns]

/-- The index that a name of a column has, as the `int` that it is read as. -/
theorem name2Index_queryResult (hlimit : t.names.length ≤ 2147483648) :
    (queryResult t).name2Index name = if name ∈ t.names then (t.names.idxOf name : ℤ) else -1 := by
  simp only [queryResult_eq, name2Index]
  split_ifs with hname
  · have hlt := List.idxOf_lt_length_of_mem hname
    rw [lookup_nameMap_of_mem hname]
    exact if_pos (lt_of_lt_of_le hlt hlimit)
  · rw [lookup_nameMap_of_not_mem hname]

/-- Each row as wide as the result set, each cell's field at the row and the column of the cell, and each name found
in every row at the first column that has it. -/
structure Unshifted (t : ResultSet) : Prop where
  rows : (queryResult t).result.length = t.rows.length
  columns (fields : List Field) (h : fields ∈ (queryResult t).result) : fields.length = t.names.length
  appended (row j : ℕ) (cells : List Bytes) (cell : Bytes) (hrow : t.rows[row]? = some cells)
    (hcell : cells[j]? = some cell) : (queryResult t).fieldAt (row, j) = some (stored row j cell)
  missing (row : ℕ) (name : String) :
    (queryResult t).getFieldByName row name = none ↔ t.rows.length ≤ row ∨ name ∉ t.names
  found (row : ℕ) (name : String) (hrow : row < t.rows.length) (hname : name ∈ t.names) :
    (queryResult t).getFieldByName row name = some (row, t.names.idxOf name)

/-- A row that is there is searched at the index of the name. -/
theorem getFieldByName_of_row (hcolumns : t.names ≠ []) (hlimit : t.names.length ≤ 2147483648) {row : ℕ}
    (hrow : row < t.rows.length) (name : String) :
    (queryResult t).getFieldByName row name = if name ∈ t.names then some (row, t.names.idxOf name) else none := by
  obtain ⟨cells, hcells⟩ : ∃ cells, t.rows[row]? = some cells := ⟨_, List.getElem?_eq_getElem hrow⟩
  have hresult : (queryResult t).result[row]? = some (cells.mapIdx (stored row)) := by
    rw [result_queryResult hcolumns, List.getElem?_mapIdx, hcells]
    rfl
  have hwidth := t.width cells (List.mem_of_getElem? hcells)
  rw [getFieldByName, hresult, name2Index_queryResult hlimit]
  simp only [List.length_mapIdx]
  by_cases hname : name ∈ t.names
  · have hlt := List.idxOf_lt_length_of_mem hname
    have hno : ¬ ((t.names.idxOf name : ℤ) < 0 ∨ (cells.length : ℤ) ≤ t.names.idxOf name) := by omega
    rw [if_pos hname, if_pos hname, if_neg hno, Int.toNat_natCast]
  · rw [if_neg hname, if_neg hname, if_pos (Or.inl (by decide))]

/-- Whatever the cells hold, the rows keep their width and the fields their places. A server sends 4096 columns at
most, so an `int` counts them. -/
theorem rows_never_shift (hcolumns : t.names ≠ []) (hlimit : t.names.length ≤ 2147483648) : Unshifted t where
  rows := by rw [result_queryResult hcolumns, List.length_mapIdx]
  columns fields h := by
    rw [result_queryResult hcolumns] at h
    obtain ⟨i, hi, rfl⟩ := List.mem_mapIdx.mp h
    rw [List.length_mapIdx]
    exact t.width _ (List.getElem_mem hi)
  appended row j cells cell hrow hcell := fieldAt_queryResult hrow hcell
  missing row name := by
    rcases lt_or_ge row t.rows.length with hrow | hrow
    · rw [getFieldByName_of_row hcolumns hlimit hrow, or_iff_right (not_le.mpr hrow)]
      split_ifs with hname
      · simp [hname]
      · simp [hname]
    · have hresult : (queryResult t).result[row]? = none := by
        rw [result_queryResult hcolumns, List.getElem?_eq_none_iff, List.length_mapIdx]
        exact hrow
      simp [getFieldByName, hresult, hrow]
  found row name hrow hname := by
    rw [getFieldByName_of_row hcolumns hlimit hrow, if_pos hname]

/-- Two rows of four cells, of which two have one name. -/
def visits : ResultSet :=
  ⟨["id", "day", "id", "note"], [[[49], [50], [51], []], [[52], [53], [54], [55, 56]]], by simp⟩

theorem rows_never_shift_visits :
    (queryResult visits).getFieldByName 1 "id" = some (1, 0) ∧
      (queryResult visits).fieldAt (1, 0) = some (stored 1 0 [52]) :=
  have h : Unshifted visits := rows_never_shift (List.cons_ne_nil _ _) (by decide)
  ⟨h.found 1 "id" (by decide) (by decide), h.appended 1 0 _ [52] rfl rfl⟩

end Chaos.DBMysql

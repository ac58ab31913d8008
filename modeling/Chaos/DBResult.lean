import Chaos.StdMap
import Mathlib.Data.List.Nodup
import Mathlib.Data.Int.Notation

/-!
# MySQL results

`DBMysqlResult` of `common/db/DBResult.h` and the loops of `DBMysql::QueryResult` that fill it. The fetch
functions of the client library are the result set that they return, each cell with the bytes that its length
covers.
-/
namespace Chaos.DBMysql

open StdMap

abbrev Bytes := List UInt8

/-- A field: the elements of `m_value`, and what was written to the memory reserved behind them. `call` is the row and
the column that `AppendField` was called with for it, noted for the statements about places; nothing here reads it. -/
structure Field where
  value : Bytes := []
  reserved : Bytes := []
  call : ℕ × ℕ
  deriving DecidableEq, Repr

namespace Field

def maxSize : ℕ := 1024 * 1024 * 10

/-- `Fill`: `reserve` makes room but no elements, so the copy at the first of no elements goes behind them. -/
def fill (f : Field) (value : Bytes) : Field × ℤ :=
  if maxSize ≤ value.length ∨ 0 ≠ f.value.length then (f, -1) else ({ f with reserved := value }, 0)

/-- The copy that `push_back` makes: a vector is copied by its elements. -/
def copy (f : Field) : Field := { f with reserved := [] }

def length (f : Field) : ℕ := f.value.length

/-- `String`, which is `Value`: the elements, `NULL` where there are none. -/
def string (f : Field) : Option Bytes := if f.value.isEmpty then none else some f.value

end Field

structure FieldInfo where
  name : String
  index : ℕ
  deriving DecidableEq, Repr

structure DBMysqlResult where
  result : List (List Field)
  name2info : Finmap fun _ : String => FieldInfo

/-- A `uint32` read as an `int`. -/
def toInt (i : ℕ) : ℤ := if i < 2147483648 then i else i - 4294967296

namespace DBMysqlResult

/-- The constructor; the reserved rows are no elements. -/
def new : DBMysqlResult := ⟨[], ∅⟩

variable (r : DBMysqlResult) (row field : ℕ) (name : String)

def name2Index : ℤ := match r.name2info.lookup name with
  | none => -1
  | some info => toInt info.index

/-- The place of the field that the returned pointer points to, `none` for `NULL`. -/
def getFieldByName : Option (ℕ × ℕ) := match r.result[row]? with
  | none => none
  | some rowData =>
    let idx := r.name2Index name
    if idx < 0 ∨ rowData.length ≤ idx then none else some (row, idx.toNat)

/-- The field at a place. -/
def fieldAt (place : ℕ × ℕ) : Option Field := r.result[place.1]?.bind fun rowData => rowData[place.2]?

/-- `AppendField`: a row beyond the last is pushed first, then the field goes to the last row. -/
def appendField (value : Bytes) : DBMysqlResult × ℤ :=
  let rows := if r.result.length ≤ row then r.result ++ [[]] else r.result
  let rowData := rows.getLastD []
  if field < rowData.length then ({ r with result := rows }, -1)
  else ({ r with result := rows.dropLast ++ [rowData ++ [((Field.mk [] [] (row, field)).fill value).1.copy]] }, 0)

def buildName2Field (info : FieldInfo) : DBMysqlResult := { r with name2info := insertNew r.name2info name info }

end DBMysqlResult

/-- What the fetch functions return: the column names and the rows, each with a cell for every column. -/
structure ResultSet where
  names : List String
  rows : List (List Bytes)
  width : ∀ row ∈ rows, row.length = names.length

open DBMysqlResult

/-- The inner loop over the cells of a row. -/
def appendRow (r : DBMysqlResult) (rownum : ℕ) (row : List Bytes) : DBMysqlResult :=
  row.zipIdx.foldl (fun r cell => (r.appendField rownum cell.2 cell.1).1) r

/-- `QueryResult` with a new result object. -/
def queryResult (t : ResultSet) : DBMysqlResult :=
  let named := t.names.zipIdx.foldl (fun r name => r.buildName2Field name.1 ⟨name.1, name.2⟩) new
  t.rows.zipIdx.foldl (fun r row => appendRow r row.2 row.1) named

/-! ## Where the cells go -/

/-- The field that is pushed for the cell of a row and a column. -/
def stored (i j : ℕ) (cell : Bytes) : Field := ((Field.mk [] [] (i, j)).fill cell).1.copy

variable {r : DBMysqlResult} {rows : List (List Field)} {fields : List Field} {row : List Bytes}

theorem appendField_new (cell : Bytes) : (appendField r r.result.length 0 cell).1 =
    { r with result := r.result ++ [[stored r.result.length 0 cell]] } := by
  simp [appendField, stored]

theorem appendField_last (h : r.result = rows ++ [fields]) (cell : Bytes) :
    (appendField r rows.length fields.length cell).1 =
      { r with result := rows ++ [fields ++ [stored rows.length fields.length cell]] } := by
  have hrow : ¬ rows.length + 1 ≤ rows.length := by omega
  simp [appendField, stored, h, hrow]

theorem foldl_appendField (h : r.result = rows ++ [fields]) :
    (row.zipIdx fields.length).foldl (fun r cell => (r.appendField rows.length cell.2 cell.1).1) r =
      { r with result := rows ++ [fields ++ row.mapIdx fun j => stored rows.length (fields.length + j)] } := by
  induction row generalizing r fields with
  | nil => simp [← h]
  | cons cell row ih =>
    have hlength : (fields ++ [stored rows.length fields.length cell]).length = fields.length + 1 := List.length_append
    rw [List.zipIdx_cons, List.foldl_cons, appendField_last h, ← hlength,
      @ih _ (fields ++ [stored rows.length fields.length cell]) rfl]
    simp [List.mapIdx_cons, Nat.add_assoc, Nat.add_comm 1]

/-- A row with a cell becomes the next row of the result. -/
theorem appendRow_eq (hrow : row ≠ []) : appendRow r r.result.length row =
    { r with result := r.result ++ [row.mapIdx (stored r.result.length)] } := by
  obtain ⟨cell, row, rfl⟩ := List.exists_cons_of_ne_nil hrow
  have hlength : 0 + 1 = [stored r.result.length 0 cell].length := rfl
  rw [appendRow, List.zipIdx_cons, List.foldl_cons, appendField_new, hlength, foldl_appendField rfl]
  simp [List.mapIdx_cons, Nat.add_comm 1]

theorem foldl_appendRow (rows : List (List Bytes)) (hrows : ∀ row ∈ rows, row ≠ []) :
    (rows.zipIdx r.result.length).foldl (fun r row => appendRow r row.2 row.1) r =
      { r with result := r.result ++ rows.mapIdx fun i row => row.mapIdx (stored (r.result.length + i)) } := by
  induction rows generalizing r with
  | nil => simp
  | cons row rows ih =>
    obtain ⟨hrow, hrows⟩ := List.forall_mem_cons.mp hrows
    have hlength : r.result.length + 1 = (r.result ++ [row.mapIdx (stored r.result.length)]).length := by simp
    rw [List.zipIdx_cons, List.foldl_cons, appendRow_eq hrow, hlength, ih hrows]
    simp [List.mapIdx_cons, Nat.add_assoc, Nat.add_comm 1]

/-- Rows without columns append nothing. -/
theorem foldl_appendRow_nil (rows : List (List Bytes)) (hrows : ∀ row ∈ rows, row = []) (k : ℕ) :
    (rows.zipIdx k).foldl (fun r row => appendRow r row.2 row.1) r = r := by
  induction rows generalizing k with
  | nil => rfl
  | cons row rows ih =>
    obtain ⟨hrow, hrest⟩ := List.forall_mem_cons.mp hrows
    rw [List.zipIdx_cons, List.foldl_cons, hrow]
    exact ih hrest (k + 1)

/-! ## The result of a query -/

/-- The map of the column names. -/
def nameMap (names : List String) : Finmap fun _ : String => FieldInfo :=
  names.zipIdx.foldl (fun m name => insertNew m name.1 ⟨name.1, name.2⟩) ∅

theorem foldl_buildName2Field (names : List (String × ℕ)) :
    names.foldl (fun r name => r.buildName2Field name.1 ⟨name.1, name.2⟩) r =
      { r with name2info := names.foldl (fun m name => insertNew m name.1 ⟨name.1, name.2⟩) r.name2info } := by
  induction names generalizing r with
  | nil => rfl
  | cons name names ih =>
    rw [List.foldl_cons, ih]
    rfl

/-- Every row of the result set is a row of the result, with a field for every cell. -/
theorem queryResult_eq (t : ResultSet) : queryResult t =
    ⟨if t.names = [] then [] else t.rows.mapIdx fun i row => row.mapIdx (stored i), nameMap t.names⟩ := by
  rw [queryResult, foldl_buildName2Field]
  by_cases hnames : t.names = []
  · have hrows : ∀ row ∈ t.rows, row = [] := by
      intro row hrow
      exact List.eq_nil_of_length_eq_zero ((t.width row hrow).trans (by rw [hnames]; rfl))
    rw [if_pos hnames]
    exact foldl_appendRow_nil t.rows hrows 0
  · have hrows : ∀ row ∈ t.rows, row ≠ [] := by
      intro row hrow hnil
      have hwidth := t.width row hrow
      rw [hnil] at hwidth
      exact hnames (List.eq_nil_of_length_eq_zero hwidth.symm)
    have hfold := foldl_appendRow (r := ⟨[], nameMap t.names⟩) t.rows hrows
    simp only [List.length_nil, Nat.zero_add, List.nil_append] at hfold
    rw [if_neg hnames]
    exact hfold

/-- Distinct names are found at their own index. -/
theorem lookup_nameMap {names : List String} (hnames : names.Nodup) {j : ℕ} (hj : j < names.length) :
    (nameMap names).lookup names[j] = some ⟨names[j], j⟩ := by
  have hfind : names.zipIdx.find? (fun c => names[j] = c.1) = some (names[j], j) := by
    refine List.find?_eq_some_iff_getElem.mpr ⟨by simp, j, by simpa using hj, by simp, ?_⟩
    intro i hi
    have hne : names[j] ≠ names[i] := fun h => hi.ne' (hnames.getElem_inj_iff.mp h)
    simpa using hne
  rw [nameMap, lookup_foldl_insertNew, Finmap.lookup_empty, hfind]
  rfl

/-- The field of a cell stands at its row and column. -/
theorem fieldAt_queryResult {t : ResultSet} {i j : ℕ} {row : List Bytes} {cell : Bytes} (hrow : t.rows[i]? = some row)
    (hcell : row[j]? = some cell) : (queryResult t).fieldAt (i, j) = some (stored i j cell) := by
  have hne : t.names ≠ [] := by
    intro hnil
    have hwidth := t.width row (List.mem_of_getElem? hrow)
    rw [hnil, List.length_nil, List.length_eq_zero_iff] at hwidth
    rw [hwidth] at hcell
    cases hcell
  rw [fieldAt, queryResult_eq, if_neg hne, List.getElem?_mapIdx, hrow, Option.map_some, Option.bind_some,
    List.getElem?_mapIdx, hcell]
  rfl

/-- Every cell is found at its own row and name. -/
theorem getFieldByName_queryResult {t : ResultSet} (hnames : t.names.Nodup)
    (hcolumns : t.names.length ≤ 2147483648) {i j : ℕ} {row : List Bytes} {name : String} {cell : Bytes}
    (hrow : t.rows[i]? = some row) (hname : t.names[j]? = some name) (hcell : row[j]? = some cell) :
    (queryResult t).getFieldByName i name = some (i, j) := by
  obtain ⟨hj, rfl⟩ := List.getElem?_eq_some_iff.mp hname
  have hne : t.names ≠ [] := by
    intro hnil
    simp [hnil] at hj
  have hresult : (queryResult t).result[i]? = some (row.mapIdx (stored i)) := by
    simp [queryResult_eq, hne, hrow]
  have hidx : (queryResult t).name2Index t.names[j] = j := by
    simp [queryResult_eq, name2Index, lookup_nameMap hnames hj, toInt, lt_of_lt_of_le hj hcolumns]
  obtain ⟨hlt, rfl⟩ := List.getElem?_eq_some_iff.mp hcell
  simp [getFieldByName, hresult, hidx, hlt]

/-- No field has an element: what `Fill` copies lies behind the elements and is not copied on. -/
theorem value_stored (i j : ℕ) (cell : Bytes) : (stored i j cell).value = [] := by
  rw [stored, Field.fill]
  split <;> rfl

theorem value_fieldAt {t : ResultSet} {place : ℕ × ℕ} {f : Field} (h : (queryResult t).fieldAt place = some f) :
    f.value = [] := by
  obtain ⟨rowData, hrow, hf⟩ := Option.bind_eq_some_iff.mp h
  rw [queryResult_eq] at hrow
  simp only at hrow
  split_ifs at hrow
  · cases hrow
  · rw [List.getElem?_mapIdx] at hrow
    obtain ⟨row, -, rfl⟩ := Option.map_eq_some_iff.mp hrow
    rw [List.getElem?_mapIdx] at hf
    obtain ⟨cell, -, rfl⟩ := Option.map_eq_some_iff.mp hf
    exact value_stored _ _ cell

/-- Every cell comes back by its row and its column name, with its length and its bytes. -/
def Faithful (t : ResultSet) : Prop :=
  ∀ (i j : ℕ) (row : List Bytes) (name : String) (cell : Bytes), t.rows[i]? = some row →
    t.names[j]? = some name → row[j]? = some cell →
    ∃ place f, (queryResult t).getFieldByName i name = some place ∧ (queryResult t).fieldAt place = some f ∧
      f.length = cell.length ∧ f.string = some cell

/-- No cell comes back: only the result sets without one are faithful. -/
theorem results_faithful_iff (t : ResultSet) (hcells : ∀ row ∈ t.rows, ∀ cell ∈ row, 0 < cell.length) :
    Faithful t ↔ t.rows = [] ∨ t.names = [] := by
  constructor
  · intro h
    by_contra hsome
    obtain ⟨hrows, hnames⟩ := not_or.mp hsome
    obtain ⟨row, rows, hrow⟩ := List.exists_cons_of_ne_nil hrows
    obtain ⟨name, names, hname⟩ := List.exists_cons_of_ne_nil hnames
    have hmem : row ∈ t.rows := hrow ▸ List.mem_cons_self
    obtain ⟨cell, cells, rfl⟩ : ∃ cell cells, row = cell :: cells := by
      apply List.exists_cons_of_ne_nil
      intro hnil
      have hwidth := t.width row hmem
      simp [hnil, hname] at hwidth
    obtain ⟨place, f, -, hf, hlength, -⟩ := h 0 0 (cell :: cells) name cell (by simp [hrow]) (by simp [hname]) rfl
    have hpos := hcells _ hmem cell List.mem_cons_self
    rw [← hlength, Field.length, value_fieldAt hf] at hpos
    exact absurd hpos (lt_irrefl 0)
  · intro hnone i j row name cell hrow hname _
    rcases hnone with hrows | hnames
    · simp [hrows] at hrow
    · simp [hnames] at hname

/-- Two rows of three cells. -/
def people : ResultSet := ⟨["id", "name", "age"], [[[49], [97, 98], [53, 48]], [[50], [99], [55]]], by simp⟩

theorem results_faithful_iff_people : ¬ Faithful people :=
  fun h => absurd ((results_faithful_iff people (by simp [people])).mp h) (by simp [people])

/-- The cell "a" in the column `id` comes back with the length 0. -/
theorem not_results_faithful :
    ¬ ∀ t : ResultSet, t.names.Nodup →
      (∀ row ∈ t.rows, ∀ cell ∈ row, 0 < cell.length ∧ cell.length < Field.maxSize) → Faithful t := by
  intro h
  have hfaithful := h ⟨["id"], [[[97]]], by simp⟩ (by simp) (by simp [Field.maxSize])
  obtain ⟨place, f, -, hf, hlength, -⟩ := hfaithful 0 0 [[97]] "id" [97] rfl rfl rfl
  rw [Field.length, value_fieldAt hf] at hlength
  cases hlength

end Chaos.DBMysql

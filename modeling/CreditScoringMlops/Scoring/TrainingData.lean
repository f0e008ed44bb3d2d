import CreditScoringMlops.Data.Record
import CreditScoringMlops.Python.Floats
import CreditScoringMlops.Scoring.CreditApplication

/-!
# The training data

The raw table as it is read from its file, the checks of `validate_data` and the features that
`build_features` adds to every row. A table is a header of distinct names and the rows under it; the
checks ask for the expected names, not for their order.
-/

namespace CreditScoringMlops.Scoring

open Python Data

/-! ## Cells -/

/-- A cell of a table; a missing value is a `nan`. -/
inductive Cell where
  | int (n : ℤ)
  | float (x : PyFloat)
  | bool (b : Bool)
  | str (s : String)
  deriving DecidableEq

namespace Cell

/-- The number in a cell. -/
def number? : Cell → Option PyFloat
  | int n => some (.finite n)
  | float x => some x
  | bool b => some (.finite (if b then 1 else 0))
  | str _ => none

/-- The comparison `a == b`. -/
def eq : Cell → Cell → Bool
  | str s, str t => s == t
  | a, b =>
    match a.number?, b.number? with
    | some x, some y => x.eq y
    | _, _ => false

/-- The number that an operator asks for. -/
def operand (cell : Cell) : Except PyExc PyFloat :=
  cell.number?.elim (.error (.typeError "unsupported operand type 'str'")) .ok

/-- The quotient of two columns at one row. A column is boolean if one of its cells is. -/
def div : Cell → Cell → Except PyExc Cell
  | bool _, bool _ => .error (.other "operator 'truediv' not implemented for bool dtypes")
  | a, b => do return .float ((← a.operand).div (← b.operand))

/-- The comparison `cell >= q`. -/
def atLeast (cell : Cell) (q : ℚ) : Except PyExc Bool := do return (← cell.operand).atLeast q

/-- The difference `1 - cell`. -/
def oneMinus : Cell → Except PyExc Cell
  | int n => .ok (.int (1 - n))
  | bool b => .ok (.int (if b then 0 else 1))
  | float (.finite q) => .ok (.float (.finite (1 - q)))
  | float .posInf => .ok (.float .negInf)
  | float .negInf => .ok (.float .posInf)
  | float .nan => .ok (.float .nan)
  | str _ => .error (.typeError "unsupported operand type 'str'")

/-- A missing value. -/
def isNull (cell : Cell) : Bool := cell = .float .nan

end Cell

/-- A row under the names of its columns. -/
abbrev Row := Record String Cell

/-- `df[name]` at one row. -/
def column (r : Row) (name : String) : Except PyExc Cell :=
  (r.get? name).elim (.error (.keyError name)) .ok

/-- The table that is read: a header of distinct names, and rows as wide as it. -/
structure Table where
  columns : List String
  cells : List (List Cell)
  nodup : columns.Nodup
  width : ∀ row ∈ cells, row.length = columns.length

/-- The rows with the names of their columns. -/
def Table.rows (t : Table) : List Row := t.cells.map t.columns.zip

/-- The names in a row are the columns of the table. -/
theorem Table.names_of_mem {t : Table} {r : Row} (h : r ∈ t.rows) : r.names = t.columns := by
  obtain ⟨cells, hcells, rfl⟩ := List.mem_map.mp h
  exact List.map_fst_zip (t.width cells hcells).ge

/-! ## The checks -/

/-- `EXPECTED_COLUMNS`. -/
def expectedColumns : List String :=
  ["laufkont", "laufzeit", "moral", "verw", "hoehe", "sparkont", "beszeit", "rate", "famges",
    "buerge", "wohnzeit", "verm", "alter", "weitkred", "wohn", "bishkred", "beruf", "pers",
    "telef", "gastarb", "kredit"]

theorem nodup_expectedColumns : expectedColumns.Nodup := by decide

/-- `TARGET_COLUMN`. -/
def targetColumn : String := "kredit"

/-- The text of a set of names. -/
def printSet (names : List String) : String :=
  "\x7b" ++ ", ".intercalate (names.map reprString) ++ "\x7d"

/-- `validate_columns`, which compares sets. -/
def validateColumns (t : Table) : Except PyExc Unit :=
  let missing := expectedColumns.filter (· ∉ t.columns)
  let extra := t.columns.filter (· ∉ expectedColumns)
  if missing ≠ [] then .error (.valueError s!"Missing columns: {printSet missing}")
  else if extra ≠ [] then .error (.valueError s!"Extra columns: {printSet extra}")
  else .ok ()

/-- `validate_not_null`. -/
def validateNotNull (t : Table) : Except PyExc Unit :=
  let nulls := t.columns.filter fun name =>
    t.rows.any fun r => (r.get? name).any (·.isNull)
  if nulls ≠ [] then .error (.valueError s!"Columns with nulls:\n{printSet nulls}") else .ok ()

/-- The checks of `validate_ranges`. -/
def ranges : List (String × ℤ × ℤ) :=
  [("laufzeit", 1, 100), ("hoehe", 1, 1000000), ("alter", 18, 100), ("rate", 1, 10),
    ("wohnzeit", 1, 10), ("bishkred", 1, 10)]

/-- A row whose value is below or above the bounds. -/
def outsideRange (name : String) (lower upper : ℤ) (r : Row) : Except PyExc Bool := do
  let x ← (← column r name).operand
  return x.below lower || x.above upper

/-- `validate_ranges`. -/
def validateRanges (t : Table) : Except PyExc Unit :=
  ranges.forM fun (name, lower, upper) => do
    let invalid ← t.rows.mapM (outsideRange name lower upper)
    let count := invalid.count true
    if count ≠ 0 then
      .error (.valueError (s!"Column {name} has values outside range " ++
        s!"[{lower}, {upper}]. Invalid rows: {count}"))

/-- `validate_target`. -/
def validateTarget (t : Table) : Except PyExc Unit := do
  let values ← t.rows.mapM fun r => column r targetColumn
  let unexpected := values.filter fun value => !value.eq (.int 0) && !value.eq (.int 1)
  if unexpected ≠ [] then
    .error (.valueError s!"Unexpected target values in {targetColumn}")

/-- Two rows with equal cells, where missing values count as equal. -/
def sameCells (r r' : Row) : Bool :=
  (r.zip r').all fun c => c.1.2.eq c.2.2 || (c.1.2.isNull && c.2.2.isNull)

/-- How many rows there are besides the distinct ones. -/
def duplicatedCount : List Row → ℕ
  | [] => 0
  | r :: rows => (if rows.any (sameCells r) then 1 else 0) + duplicatedCount rows

/-- `validate_unique_rows`. -/
def validateUniqueRows (t : Table) : Except PyExc Unit :=
  let count := duplicatedCount t.rows
  if count > 0 then .error (.valueError s!"Found duplicated rows: {count}") else .ok ()

/-- The checks of `main`, in order. -/
def validateData (t : Table) : Except PyExc Unit := do
  validateColumns t
  validateNotNull t
  validateRanges t
  validateTarget t
  validateUniqueRows t

/-! ## The features -/

/-- `COLUMN_MAPPING`. -/
def columnMapping : List (String × String) :=
  [("laufkont", "checking_account_status"), ("laufzeit", "duration_months"),
    ("moral", "credit_history"), ("verw", "purpose"), ("hoehe", "credit_amount"),
    ("sparkont", "savings_account"), ("beszeit", "employment_since"),
    ("rate", "installment_rate"), ("famges", "personal_status_sex"), ("buerge", "other_debtors"),
    ("wohnzeit", "residence_since"), ("verm", "property"), ("alter", "age"),
    ("weitkred", "other_installment_plans"), ("wohn", "housing"), ("bishkred", "existing_credits"),
    ("beruf", "job"), ("pers", "people_liable"), ("telef", "telephone"),
    ("gastarb", "foreign_worker"), ("kredit", "original_target")]

/-- The new name of a column; other columns keep theirs. -/
def newName (name : String) : String := (columnMapping.lookup name).getD name

/-- `add_features`, once the configuration is loaded. -/
def addFeatures (config : FeatureConfig) (r : Row) : Except PyExc Row := do
  let r := r.assign "credit_amount_per_month"
    (← (← column r "credit_amount").div (← column r "duration_months"))
  let r := r.assign "credit_amount_per_age"
    (← (← column r "credit_amount").div (← column r "age"))
  let r := r.assign "is_long_term_loan"
    (.int (if ← (← column r "duration_months").atLeast config.longTermThreshold then 1 else 0))
  let r := r.assign "is_high_amount_loan"
    (.int (if ← (← column r "credit_amount").atLeast config.highAmountThreshold then 1 else 0))
  return r

/-- What `main` of `build_features` makes of a row, before the rows are split. -/
def trainingRow (config : FeatureConfig) (r : Row) : Except PyExc Row := do
  let r := r.rename newName
  let r := r.assign "target" (← (← column r "original_target").oneMinus)
  addFeatures config (r.drop "original_target")

/-- The features of training: every column but the target. -/
def trainingFeatures (config : FeatureConfig) (r : Row) : Except PyExc Row := do
  return (← trainingRow config r).drop "target"

end CreditScoringMlops.Scoring

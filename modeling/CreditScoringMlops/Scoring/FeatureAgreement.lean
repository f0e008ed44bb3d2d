import CreditScoringMlops.Scoring.TrainingData

/-!
# The features of training and of serving

Training adds the features to the rows of a table, serving to an application. Both compute the same
values under the same names. The columns of an application come in the order of its schema, those of
a table in the order of its header, which no check looks at.
-/

namespace CreditScoringMlops.Scoring

open Python Data

/-! ## A row as an application -/

/-- How the schema reads strings as numbers. Nothing is assumed of it. -/
structure LaxParsers where
  int : String → Option ℤ
  float : String → Option PyFloat

/-- A cell as an integer field takes it. -/
def Cell.toInt (lax : LaxParsers) : Cell → Option ℤ
  | .int n => some n
  | .float (.finite q) => if q.den = 1 then some q.num else none
  | .float _ => none
  | .bool b => some (if b then 1 else 0)
  | .str s => lax.int s

/-- A cell as a float field takes it. -/
def Cell.toFloat (lax : LaxParsers) : Cell → Option PyFloat
  | .str s => lax.float s
  | cell => cell.number?

/-- An integer field with its bounds. -/
def integerColumn (lax : LaxParsers) (r : Row) (name : String) (lower upper : ℤ) :
    Except PyExc (Within lower upper) :=
  match (r.get? name).bind (Cell.toInt lax) with
  | some n => if h : lower ≤ n ∧ n ≤ upper then .ok ⟨n, h⟩ else .error (.validationError name)
  | none => .error (.validationError name)

/-- A positive field. -/
def positiveColumn (lax : LaxParsers) (r : Row) (name : String) :
    Except PyExc { x : PyFloat // x.positive } :=
  match (r.get? name).bind (Cell.toFloat lax) with
  | some x => if h : x.positive then .ok ⟨x, h⟩ else .error (.validationError name)
  | none => .error (.validationError name)

/-- `CreditApplication(**row)`; other columns are ignored. -/
def applicationOf (lax : LaxParsers) (r : Row) : Except PyExc CreditApplication := do
  return {
    checkingAccountStatus := ← integerColumn lax r "checking_account_status" 1 4
    durationMonths := ← integerColumn lax r "duration_months" 1 100
    creditHistory := ← integerColumn lax r "credit_history" 0 4
    purpose := ← integerColumn lax r "purpose" 0 10
    creditAmount := ← positiveColumn lax r "credit_amount"
    savingsAccount := ← integerColumn lax r "savings_account" 1 5
    employmentSince := ← integerColumn lax r "employment_since" 1 5
    installmentRate := ← integerColumn lax r "installment_rate" 1 4
    personalStatusSex := ← integerColumn lax r "personal_status_sex" 1 4
    otherDebtors := ← integerColumn lax r "other_debtors" 1 3
    residenceSince := ← integerColumn lax r "residence_since" 1 4
    property := ← integerColumn lax r "property" 1 4
    age := ← integerColumn lax r "age" 18 100
    otherInstallmentPlans := ← integerColumn lax r "other_installment_plans" 1 3
    housing := ← integerColumn lax r "housing" 1 3
    existingCredits := ← integerColumn lax r "existing_credits" 1 4
    job := ← integerColumn lax r "job" 1 4
    peopleLiable := ← integerColumn lax r "people_liable" 1 2
    telephone := ← integerColumn lax r "telephone" 1 2
    foreignWorker := ← integerColumn lax r "foreign_worker" 1 2 }

/-- `model_dump()`: the fields in the order of the schema. -/
def CreditApplication.modelDump (a : CreditApplication) : Row :=
  [("checking_account_status", .int a.checkingAccountStatus),
    ("duration_months", .int a.durationMonths), ("credit_history", .int a.creditHistory),
    ("purpose", .int a.purpose), ("credit_amount", .float a.creditAmount),
    ("savings_account", .int a.savingsAccount), ("employment_since", .int a.employmentSince),
    ("installment_rate", .int a.installmentRate),
    ("personal_status_sex", .int a.personalStatusSex), ("other_debtors", .int a.otherDebtors),
    ("residence_since", .int a.residenceSince), ("property", .int a.property), ("age", .int a.age),
    ("other_installment_plans", .int a.otherInstallmentPlans), ("housing", .int a.housing),
    ("existing_credits", .int a.existingCredits), ("job", .int a.job),
    ("people_liable", .int a.peopleLiable), ("telephone", .int a.telephone),
    ("foreign_worker", .int a.foreignWorker)]

/-- The columns that both pipelines add. -/
def addedColumns (perMonth perAge : PyFloat) (longTerm highAmount : Bool) : Row :=
  [("credit_amount_per_month", .float perMonth), ("credit_amount_per_age", .float perAge),
    ("is_long_term_loan", .int (if longTerm then 1 else 0)),
    ("is_high_amount_loan", .int (if highAmount then 1 else 0))]

/-- The features of serving, as a frame of one row. -/
def servingFeatures (config : FeatureConfig) (a : CreditApplication) : Row :=
  let f := buildFeatures a config
  a.modelDump ++ addedColumns f.creditAmountPerMonth f.creditAmountPerAge f.isLongTermLoan
    f.isHighAmountLoan

/-- The value of a field is what the schema made of a cell. -/
def Coerces (lax : LaxParsers) (cell value : Cell) : Prop :=
  (∃ n, cell.toInt lax = some n ∧ value = .int n) ∨
    ∃ x : PyFloat, x.positive ∧ cell.toFloat lax = some x ∧ value = .float x

/-- An integer field was made of the cell under its name. -/
theorem integerColumn_ok {lax : LaxParsers} {r : Row} {name : String} {lower upper : ℤ}
    {n : Within lower upper} (h : integerColumn lax r name lower upper = .ok n) :
    ∃ cell, r.get? name = some cell ∧ Coerces lax cell (.int n) := by
  unfold integerColumn at h
  split at h
  · rename_i m hm
    obtain ⟨cell, hcell, hint⟩ := Option.bind_eq_some_iff.mp hm
    split at h
    · cases h
      exact ⟨cell, hcell, .inl ⟨m, hint, rfl⟩⟩
    · cases h
  · cases h

/-- So was a positive field. -/
theorem positiveColumn_ok {lax : LaxParsers} {r : Row} {name : String}
    {x : { x : PyFloat // x.positive }} (h : positiveColumn lax r name = .ok x) :
    ∃ cell, r.get? name = some cell ∧ Coerces lax cell (.float x) := by
  unfold positiveColumn at h
  split at h
  · rename_i y hy
    obtain ⟨cell, hcell, hfloat⟩ := Option.bind_eq_some_iff.mp hy
    split at h
    · cases h
      exact ⟨cell, hcell, .inr ⟨y, ‹_›, hfloat, rfl⟩⟩
    · cases h
  · cases h

/-- Every field of an application was made of the cell under its name. -/
theorem modelDump_coerces {lax : LaxParsers} {r : Row} {a : CreditApplication}
    (h : applicationOf lax r = .ok a) :
    ∀ c ∈ a.modelDump, ∃ cell, r.get? c.1 = some cell ∧ Coerces lax cell c.2 := by
  simp only [applicationOf, bind_eq_ok] at h
  obtain ⟨_, h₁, _, h₂, _, h₃, _, h₄, _, h₅, _, h₆, _, h₇, _, h₈, _, h₉, _, h₁₀, _, h₁₁, _, h₁₂,
    _, h₁₃, _, h₁₄, _, h₁₅, _, h₁₆, _, h₁₇, _, h₁₈, _, h₁₉, _, h₂₀, h⟩ := h
  cases h
  simp only [CreditApplication.modelDump, List.forall_mem_cons]
  exact ⟨integerColumn_ok h₁, integerColumn_ok h₂, integerColumn_ok h₃, integerColumn_ok h₄,
    positiveColumn_ok h₅, integerColumn_ok h₆, integerColumn_ok h₇, integerColumn_ok h₈,
    integerColumn_ok h₉, integerColumn_ok h₁₀, integerColumn_ok h₁₁, integerColumn_ok h₁₂,
    integerColumn_ok h₁₃, integerColumn_ok h₁₄, integerColumn_ok h₁₅, integerColumn_ok h₁₆,
    integerColumn_ok h₁₇, integerColumn_ok h₁₈, integerColumn_ok h₁₉, integerColumn_ok h₂₀,
    fun _ hc => nomatch hc⟩

/-! ## The columns of training -/

/-- The names of the fields, in the order of the expected columns. -/
def fieldNames : List String := (expectedColumns.filter (· ≠ targetColumn)).map newName

/-- The names of the columns that are added. -/
def addedNames : List String :=
  ["credit_amount_per_month", "credit_amount_per_age", "is_long_term_loan", "is_high_amount_loan"]

/-- The names of the fields, written out. -/
theorem fieldNames_eq : fieldNames =
    ["checking_account_status", "duration_months", "credit_history", "purpose", "credit_amount",
      "savings_account", "employment_since", "installment_rate", "personal_status_sex",
      "other_debtors", "residence_since", "property", "age", "other_installment_plans", "housing",
      "existing_credits", "job", "people_liable", "telephone", "foreign_worker"] := rfl

/-- The expected columns become the fields and the original target. -/
theorem map_newName_expectedColumns :
    expectedColumns.map newName = fieldNames ++ ["original_target"] := rfl

/-- Their new names are distinct. -/
theorem nodup_newNames : (fieldNames ++ ["original_target"]).Nodup := by
  rw [fieldNames_eq]
  decide

/-- So they tell the expected columns apart. -/
theorem newName_injOn : ∀ name ∈ expectedColumns, ∀ name' ∈ expectedColumns,
    newName name = newName name' → name = name' := by
  have hnodup : (expectedColumns.map newName).Nodup := map_newName_expectedColumns ▸ nodup_newNames
  exact fun name hname name' hname' => List.inj_on_of_nodup_map hnodup hname hname'

/-- The original target is the column of the target. -/
theorem newName_targetColumn : newName targetColumn = "original_target" := rfl

/-- No other column becomes it. -/
theorem name_of_target {name : String} (hname : name ∈ expectedColumns)
    (h : newName name = "original_target") : name = targetColumn :=
  newName_injOn name hname targetColumn (by decide) (h.trans newName_targetColumn.symm)

/-- The new names of the amount, the duration and the age. -/
theorem newName_terms : newName "hoehe" = "credit_amount" ∧
    newName "laufzeit" = "duration_months" ∧ newName "alter" = "age" := ⟨rfl, rfl, rfl⟩

/-- None of the columns becomes the target of training. -/
theorem target_notMem_newNames : "target" ∉ fieldNames ++ ["original_target"] := by
  rw [fieldNames_eq]
  decide

/-- No field has the name of an added column. -/
theorem notMem_addedNames {name : String} (h : name ∈ fieldNames) : name ∉ addedNames := by
  rw [fieldNames_eq] at h
  revert name
  decide

/-- They are the names of the dumped fields, in their order. -/
theorem names_modelDump (a : CreditApplication) : a.modelDump.names = fieldNames := by
  rw [fieldNames_eq]
  rfl

section Training

variable {r : Row} {config : FeatureConfig}

/-- A column is read where it stands. -/
theorem column_of_mem (hnodup : r.names.Nodup) {name : String} {cell : Cell}
    (h : (name, cell) ∈ r) : column r name = .ok cell := by
  rw [column, Record.get?_of_mem hnodup h]
  rfl

/-- It is read there after columns have been added. -/
theorem column_append {name : String} {cell : Cell} (h : column r name = .ok cell) (r' : Row) :
    column (r ++ r') name = .ok cell := by
  unfold column at h ⊢
  cases hget : r.get? name with
  | none => rw [hget] at h; cases h
  | some value =>
    rw [hget] at h
    rw [Record.get?_append hget]
    exact h

variable (config) in
/-- The features are added at the end. -/
theorem addFeatures_eq {amount months age : Cell} (hnew : ∀ name ∈ addedNames, name ∉ r.names)
    (hamount : column r "credit_amount" = .ok amount)
    (hmonths : column r "duration_months" = .ok months) (hage : column r "age" = .ok age) :
    addFeatures config r = do
      let perMonth ← amount.div months
      let perAge ← amount.div age
      let longTerm ← months.atLeast config.longTermThreshold
      let highAmount ← amount.atLeast config.highAmountThreshold
      return r ++ [("credit_amount_per_month", perMonth), ("credit_amount_per_age", perAge),
        ("is_long_term_loan", .int (if longTerm then 1 else 0)),
        ("is_high_amount_loan", .int (if highAmount then 1 else 0))] := by
  have hne {name : String} {before : Row} (h : name ∈ addedNames) (hbefore : name ∉ before.names) :
      name ∉ Record.names (r ++ before) := by
    rw [Record.names_append, List.mem_append]
    exact not_or.mpr ⟨hnew name h, hbefore⟩
  unfold addFeatures
  simp only [hamount, hmonths, ok_bind]
  refine bind_congr fun perMonth => ?_
  rw [Record.assign_of_notMem (hnew _ (by decide)), column_append hamount, column_append hage]
  simp only [ok_bind]
  refine bind_congr fun perAge => ?_
  rw [Record.assign_of_notMem (hne (by decide) (by simp [Record.names])), List.append_assoc,
    column_append hmonths]
  simp only [ok_bind]
  refine bind_congr fun longTerm => ?_
  rw [Record.assign_of_notMem (hne (by decide) (by simp [Record.names])), List.append_assoc,
    column_append hamount]
  simp only [ok_bind]
  refine bind_congr fun highAmount => ?_
  rw [Record.assign_of_notMem (hne (by decide) (by simp [Record.names])), List.append_assoc]
  rfl

/-- The names in a checked row, once the columns have been renamed. -/
theorem names_rename_perm (hnames : r.names.Perm expectedColumns) :
    (r.rename newName).names.Perm (fieldNames ++ ["original_target"]) := by
  rw [Record.names_rename, ← map_newName_expectedColumns]
  exact hnames.map newName

/-- The columns that are left of it without the target. -/
def baseColumns (r : Row) : Row := (r.rename newName).drop "original_target"

/-- They are the fields, in the order of the table. -/
theorem names_baseColumns_perm (hnames : r.names.Perm expectedColumns) :
    (baseColumns r).names.Perm fieldNames := by
  have hfields : (fieldNames ++ ["original_target"]).filter (· ≠ "original_target") =
      fieldNames := by
    rw [fieldNames_eq]
    decide
  rw [baseColumns, Record.names_drop, ← hfields]
  exact (names_rename_perm hnames).filter _

/-- The features of training are the fields and the added columns. -/
theorem trainingFeatures_eq (hnames : r.names.Perm expectedColumns)
    {target v amount months age : Cell} (htarget : ("kredit", target) ∈ r)
    (hv : target.oneMinus = .ok v) (hamount : ("hoehe", amount) ∈ r)
    (hmonths : ("laufzeit", months) ∈ r) (hage : ("alter", age) ∈ r) :
    trainingFeatures config r = do
      let perMonth ← amount.div months
      let perAge ← amount.div age
      let longTerm ← months.atLeast config.longTermThreshold
      let highAmount ← amount.atLeast config.highAmountThreshold
      return baseColumns r ++ [("credit_amount_per_month", perMonth),
        ("credit_amount_per_age", perAge),
        ("is_long_term_loan", .int (if longTerm then 1 else 0)),
        ("is_high_amount_loan", .int (if highAmount then 1 else 0))] := by
  have hperm := names_rename_perm hnames
  have hnodup : (r.rename newName).names.Nodup := hperm.nodup_iff.mpr nodup_newNames
  have hbase := names_baseColumns_perm hnames
  have hbaseNodup : (baseColumns r).names.Nodup := hbase.nodup_iff.mpr nodup_newNames.of_append_left
  have hcolumn {name : String} {cell : Cell} (h : (name, cell) ∈ r)
      (hne : newName name ≠ "original_target") :
      column (baseColumns r) (newName name) = .ok cell :=
    column_of_mem hbaseNodup (Record.mem_drop.mpr ⟨Record.mem_rename.mpr ⟨name, h, rfl⟩, hne⟩)
  have htarget' : column (r.rename newName) "original_target" = .ok target :=
    column_of_mem hnodup (Record.mem_rename.mpr ⟨"kredit", htarget, newName_targetColumn⟩)
  have hnew : "target" ∉ (r.rename newName).names := fun h =>
    target_notMem_newNames (hperm.mem_iff.mp h)
  have hdrop : ((r.rename newName).assign "target" v).drop "original_target" =
      baseColumns r ++ [("target", v)] := by
    have hother : Record.drop [("target", v)] "original_target" = [("target", v)] :=
      Record.drop_of_notMem (by simp [Record.names])
    rw [Record.assign_of_notMem hnew, Record.drop_append, hother]
    rfl
  have hadded : ∀ name ∈ addedNames, name ∉ Record.names (baseColumns r ++ [("target", v)]) := by
    intro name hname hmem
    rw [Record.names_append, List.mem_append, hbase.mem_iff] at hmem
    obtain hfield | htarget := hmem
    · exact notMem_addedNames hfield hname
    · obtain rfl := List.mem_singleton.mp htarget
      exact absurd hname (show "target" ∉ addedNames by decide)
  have hkeep : "target" ∉ (baseColumns r).names := fun h =>
    target_notMem_newNames (List.mem_append_left _ (hbase.mem_iff.mp h))
  obtain ⟨hamountName, hmonthsName, hageName⟩ := newName_terms
  have hfeatures := addFeatures_eq config hadded
    (column_append (hamountName ▸ hcolumn hamount (by rw [hamountName]; decide)) _)
    (column_append (hmonthsName ▸ hcolumn hmonths (by rw [hmonthsName]; decide)) _)
    (column_append (hageName ▸ hcolumn hage (by rw [hageName]; decide)) _)
  simp only [trainingFeatures, trainingRow, htarget', ok_bind, hv, hdrop]
  rw [hfeatures]
  simp only [bind_assoc, pure_bind]
  refine bind_congr fun perMonth => bind_congr fun perAge => bind_congr fun longTerm =>
    bind_congr fun highAmount => congrArg pure ?_
  rw [Record.drop_append, Record.drop_append, Record.drop_of_notMem hkeep]
  simp [Record.drop]

end Training

/-! ## Values -/

section Values

variable {lax : LaxParsers} {cell value : Cell}

/-- A field has a number, which is equal to itself. -/
theorem Coerces.exists_number? (h : Coerces lax cell value) :
    ∃ x, value.number? = some x ∧ x.eq x := by
  rcases h with ⟨n, -, rfl⟩ | ⟨x, hpos, -, rfl⟩
  · exact ⟨.finite n, rfl, by simp [PyFloat.eq]⟩
  · refine ⟨x, rfl, ?_⟩
    cases x <;> simp_all [PyFloat.eq, PyFloat.positive]

/-- It is the number of the cell that the field was made of, unless this is a text. -/
theorem Coerces.number?_eq (h : Coerces lax cell value) (htext : ∀ s, cell ≠ .str s) :
    cell.number? = value.number? := by
  rcases h with ⟨n, hint, rfl⟩ | ⟨x, -, hfloat, rfl⟩
  · cases cell with
    | int m => cases hint; rfl
    | bool b => cases b <;> cases hint <;> rfl
    | str s => exact absurd rfl (htext s)
    | float y =>
      cases y with
      | finite q =>
        simp only [Cell.toInt] at hint
        split at hint
        · rename_i hden
          cases hint
          rw [Cell.number?, Cell.number?, Rat.coe_int_num_of_den_eq_one hden]
        · cases hint
      | _ => cases hint
  · cases cell with
    | str s => exact absurd rfl (htext s)
    | _ => exact hfloat

/-- A text is equal to no field. -/
theorem Coerces.text_ne (h : Coerces lax cell value) (s : String) :
    (Cell.str s).eq value = false := by
  rcases h with ⟨n, -, rfl⟩ | ⟨x, -, -, rfl⟩ <;> rfl

variable {a b : Cell} {x y : PyFloat}

/-- Cells with the same number are equal. -/
theorem Cell.eq_of_number? (ha : a.number? = some x) (hb : b.number? = some x) (hx : x.eq x) :
    a.eq b := by
  unfold Cell.eq
  split
  · cases ha
  · simp only [ha, hb, hx]

/-- The numbers of equal cells are equal. -/
theorem Cell.number?_eq_of_eq (h : a.eq b) (ha : a.number? = some x) (hb : b.number? = some y) :
    x.eq y := by
  unfold Cell.eq at h
  split at h
  · cases ha
  · simpa only [ha, hb] using h

/-- Columns of numbers can be divided if they are not both boolean. -/
theorem Cell.div_of_number? (ha : a.number? = some x) (hb : b.number? = some y)
    (hbool : ∀ p q, a = .bool p → b ≠ .bool q) : a.div b = .ok (.float (x.div y)) := by
  unfold Cell.div
  split
  · exact absurd rfl (hbool _ _ rfl)
  · simp only [Cell.operand, ha, hb, Option.elim_some, ok_bind]
    rfl

/-- Numbers can be compared. -/
theorem Cell.atLeast_of_number? (ha : a.number? = some x) (q : ℚ) :
    a.atLeast q = .ok (x.atLeast q) := by
  simp only [Cell.atLeast, Cell.operand, ha, Option.elim_some, ok_bind]
  rfl

end Values

/-! ## Agreement -/

/-- No cell of the row is a text, and the amount and the duration are not both boolean. -/
structure Plain (r : Row) : Prop where
  noText : ∀ name s, (name, Cell.str s) ∉ r
  notBoolean : ∀ p q, ("hoehe", Cell.bool p) ∈ r → ("laufzeit", Cell.bool q) ∉ r

/-- The same names with the same values. -/
structure SameByName (training serving : Row) : Prop where
  names : training.names.Perm serving.names
  values : ∀ name v v', (name, v) ∈ training → (name, v') ∈ serving → v.eq v'

section Agreement

variable {lax : LaxParsers} {r : Row} {config : FeatureConfig} {a : CreditApplication}

/-- A field was made of the cell in its column. -/
theorem coerces_of_mem (hnames : r.names.Perm expectedColumns)
    (happ : applicationOf lax (r.rename newName) = .ok a) {name : String} {cell value : Cell}
    (hcell : (name, cell) ∈ r) (hvalue : (newName name, value) ∈ a.modelDump) :
    Coerces lax cell value := by
  obtain ⟨cell', hget, hcoerces⟩ := modelDump_coerces happ _ hvalue
  have hnodup : (r.rename newName).names.Nodup :=
    (names_rename_perm hnames).nodup_iff.mpr nodup_newNames
  have hsame := Record.get?_of_mem hnodup (Record.mem_rename.mpr ⟨name, hcell, rfl⟩)
  obtain rfl : cell' = cell := Option.some.inj (hget.symm.trans hsame)
  exact hcoerces

/-- Every expected column has a cell. -/
theorem exists_cell (hnames : r.names.Perm expectedColumns) {name : String}
    (h : name ∈ expectedColumns) : ∃ cell, (name, cell) ∈ r :=
  Record.exists_of_mem_names (hnames.mem_iff.mpr h)

/-- The amount, the duration and the age are those of the application. -/
theorem coerces_terms (hnames : r.names.Perm expectedColumns)
    (happ : applicationOf lax (r.rename newName) = .ok a) {amount months age : Cell}
    (hamount : ("hoehe", amount) ∈ r) (hmonths : ("laufzeit", months) ∈ r)
    (hage : ("alter", age) ∈ r) :
    Coerces lax amount (.float a.creditAmount) ∧ Coerces lax months (.int a.durationMonths) ∧
      Coerces lax age (.int a.age) := by
  obtain ⟨hamountName, hmonthsName, hageName⟩ := newName_terms
  refine ⟨coerces_of_mem hnames happ hamount ?_, coerces_of_mem hnames happ hmonths ?_,
    coerces_of_mem hnames happ hage ?_⟩
  · rw [hamountName]
    simp [CreditApplication.modelDump]
  · rw [hmonthsName]
    simp [CreditApplication.modelDump]
  · rw [hageName]
    simp [CreditApplication.modelDump]

/-- The features of training for a plain row. -/
theorem trainingFeatures_of_plain (hnames : r.names.Perm expectedColumns)
    {target v : Cell} (htarget : ("kredit", target) ∈ r) (hv : target.oneMinus = .ok v)
    (happ : applicationOf lax (r.rename newName) = .ok a) (hplain : Plain r) :
    trainingFeatures config r = .ok (baseColumns r ++
      addedColumns (buildFeatures a config).creditAmountPerMonth
        (buildFeatures a config).creditAmountPerAge (buildFeatures a config).isLongTermLoan
        (buildFeatures a config).isHighAmountLoan) := by
  obtain ⟨amount, hamount⟩ := exists_cell hnames (show "hoehe" ∈ expectedColumns by decide)
  obtain ⟨months, hmonths⟩ := exists_cell hnames (show "laufzeit" ∈ expectedColumns by decide)
  obtain ⟨age, hage⟩ := exists_cell hnames (show "alter" ∈ expectedColumns by decide)
  obtain ⟨hcoercesAmount, hcoercesMonths, hcoercesAge⟩ :=
    coerces_terms hnames happ hamount hmonths hage
  have hnumber := hcoercesAmount.number?_eq fun s hs => hplain.noText _ s (hs ▸ hamount)
  have hnumberMonths := hcoercesMonths.number?_eq fun s hs => hplain.noText _ s (hs ▸ hmonths)
  have hnumberAge := hcoercesAge.number?_eq fun s hs => hplain.noText _ s (hs ▸ hage)
  have hageBool : ∀ q, age ≠ .bool q := by
    -- an age of a boolean column would be at most 1
    rintro q rfl
    have hsame := PyFloat.finite.inj (Option.some.inj hnumberAge)
    have hsmall : (a.age : ℤ) = if q then 1 else 0 := by exact_mod_cast hsame.symm
    have hlower := a.age.2.1
    split at hsmall <;> omega
  have hpos : (0 : ℤ) < a.durationMonths := by have := a.durationMonths.2.1; omega
  have hposAge : (0 : ℤ) < a.age := by have := a.age.2.1; omega
  rw [trainingFeatures_eq hnames htarget hv hamount hmonths hage,
    Cell.div_of_number? hnumber hnumberMonths
      (fun p q hp hq => hplain.notBoolean p q (hp ▸ hamount) (hq ▸ hmonths)),
    Cell.div_of_number? hnumber hnumberAge (fun p q _ hq => hageBool q hq),
    Cell.atLeast_of_number? hnumberMonths, Cell.atLeast_of_number? hnumber,
    PyFloat.div_finite_of_pos hpos, PyFloat.div_finite_of_pos hposAge]
  rfl

/-- The names of the features of serving. -/
theorem names_servingFeatures : (servingFeatures config a).names = fieldNames ++ addedNames := by
  rw [servingFeatures, Record.names_append, names_modelDump]
  rfl

/-- The columns that are added are equal to themselves. -/
theorem addedColumns_eq_self {perMonth perAge : PyFloat} {longTerm highAmount : Bool}
    (hmonth : perMonth.eq perMonth) (hage : perAge.eq perAge) :
    ∀ c ∈ addedColumns perMonth perAge longTerm highAmount, c.2.eq c.2 := by
  simp [addedColumns, Cell.eq, Cell.number?, hmonth, hage]

/-- A part of an amount is equal to itself. -/
theorem divBy_eq_self {x : PyFloat} (h : x.positive) (n : ℤ) : (x.divBy n).eq (x.divBy n) := by
  cases x <;> simp_all [PyFloat.divBy, PyFloat.eq, PyFloat.positive]

variable (config) in
/-- The features of training and of serving are the same for a plain row, up to their order. -/
theorem sameByName_of_plain (hnames : r.names.Perm expectedColumns)
    (happ : applicationOf lax (r.rename newName) = .ok a) (hplain : Plain r) :
    SameByName (baseColumns r ++
      addedColumns (buildFeatures a config).creditAmountPerMonth
        (buildFeatures a config).creditAmountPerAge (buildFeatures a config).isLongTermLoan
        (buildFeatures a config).isHighAmountLoan) (servingFeatures config a) where
  names := by
    rw [names_servingFeatures, Record.names_append]
    exact (names_baseColumns_perm hnames).append_right _
  values := by
    intro name v v' htraining hserving
    have hbaseNames (h : (name, v) ∈ baseColumns r) : name ∈ fieldNames :=
      (names_baseColumns_perm hnames).mem_iff.mp (Record.mem_names h)
    have hdumpNames (h : (name, v') ∈ a.modelDump) : name ∈ fieldNames :=
      names_modelDump a ▸ Record.mem_names h
    rcases List.mem_append.mp htraining with hbase | hadded <;>
      rcases List.mem_append.mp hserving with hdump | hadded'
    · obtain ⟨hrename, -⟩ := Record.mem_drop.mp hbase
      obtain ⟨old, hold, rfl⟩ := Record.mem_rename.mp hrename
      have hcoerces := coerces_of_mem hnames happ hold hdump
      obtain ⟨x, hx, hself⟩ := hcoerces.exists_number?
      refine Cell.eq_of_number? ?_ hx hself
      rw [hcoerces.number?_eq fun s hs => hplain.noText _ s (hs ▸ hold), hx]
    · exact absurd (Record.mem_names hadded') (notMem_addedNames (hbaseNames hbase))
    · exact absurd (Record.mem_names hadded) (notMem_addedNames (hdumpNames hdump))
    · have hnodup : addedNames.Nodup := by decide
      obtain rfl := Record.eq_of_mem (r := addedColumns _ _ _ _) hnodup hadded hadded'
      exact addedColumns_eq_self (divBy_eq_self a.creditAmount.2 _)
        (divBy_eq_self a.creditAmount.2 _) _ hadded

/-- A row whose features agree is plain. -/
theorem plain_of_sameByName (hnames : r.names.Perm expectedColumns)
    {target v : Cell} (htarget : ("kredit", target) ∈ r) (hv : target.oneMinus = .ok v)
    (happ : applicationOf lax (r.rename newName) = .ok a) {training : Row}
    (htraining : trainingFeatures config r = .ok training)
    (hsame : SameByName training (servingFeatures config a)) : Plain r := by
  obtain ⟨amount, hamount⟩ := exists_cell hnames (show "hoehe" ∈ expectedColumns by decide)
  obtain ⟨months, hmonths⟩ := exists_cell hnames (show "laufzeit" ∈ expectedColumns by decide)
  obtain ⟨age, hage⟩ := exists_cell hnames (show "alter" ∈ expectedColumns by decide)
  rw [trainingFeatures_eq hnames htarget hv hamount hmonths hage] at htraining
  simp only [bind_eq_ok] at htraining
  obtain ⟨perMonth, hperMonth, perAge, -, longTerm, -, highAmount, -, hrow⟩ := htraining
  cases hrow
  have hnodup : r.names.Nodup := hnames.nodup_iff.mpr nodup_expectedColumns
  constructor
  · intro name s htext
    have hexpected := hnames.mem_iff.mp (Record.mem_names htext)
    by_cases hname : newName name = "original_target"
    · obtain rfl := name_of_target hexpected hname
      obtain rfl := Record.eq_of_mem hnodup htarget htext
      cases hv
    · have hbase : (newName name, Cell.str s) ∈ baseColumns r :=
        Record.mem_drop.mpr ⟨Record.mem_rename.mpr ⟨name, htext, rfl⟩, hname⟩
      have hfield := (names_baseColumns_perm hnames).mem_iff.mp (Record.mem_names hbase)
      obtain ⟨value, hvalue⟩ := Record.exists_of_mem_names ((names_modelDump a).symm ▸ hfield)
      have heq := hsame.values _ _ _ (List.mem_append_left _ hbase) (List.mem_append_left _ hvalue)
      rw [(coerces_of_mem hnames happ htext hvalue).text_ne] at heq
      cases heq
  · intro p q hp hq
    obtain rfl := Record.eq_of_mem hnodup hamount hp
    obtain rfl := Record.eq_of_mem hnodup hmonths hq
    cases hperMonth

end Agreement

/-! ## Accepted tables -/

section Accepted

variable {t : Table} {r : Row}

/-- A table that passes the column check has the expected columns, in some order. -/
theorem columns_of_validateColumns (h : validateColumns t = .ok ()) :
    t.columns.Perm expectedColumns := by
  simp only [validateColumns, ne_eq, ite_not] at h
  split at h
  · split at h
    · rename_i hmissing hextra
      have hexpected := List.filter_eq_nil_iff.mp hmissing
      have hcolumns := List.filter_eq_nil_iff.mp hextra
      refine (List.perm_ext_iff_of_nodup t.nodup nodup_expectedColumns).mpr fun name =>
        ⟨fun hname => ?_, fun hname => ?_⟩
      · simpa using hcolumns name hname
      · simpa using hexpected name hname
    · cases h
  · cases h

/-- The rows of a table that passes the target check have a number as target. -/
theorem target_of_validateTarget (h : validateTarget t = .ok ()) (hr : r ∈ t.rows) :
    ∃ target v, ("kredit", target) ∈ r ∧ target.oneMinus = .ok v := by
  obtain ⟨values, hvalues, h⟩ := bind_eq_ok.mp h
  obtain ⟨target, htarget, hcolumn⟩ := exists_of_mapM hvalues hr
  simp only [ne_eq, ite_not] at h
  split at h
  · rename_i hunexpected
    have hexpected := List.filter_eq_nil_iff.mp hunexpected target htarget
    have hmem : ("kredit", target) ∈ r := by
      unfold column at hcolumn
      cases hget : r.get? targetColumn with
      | none => rw [hget] at hcolumn; cases hcolumn
      | some cell =>
        rw [hget] at hcolumn
        cases hcolumn
        exact Record.mem_of_get? hget
    cases target with
    | str s => exact absurd rfl hexpected
    | float x => cases x <;> exact ⟨_, _, hmem, rfl⟩
    | _ => exact ⟨_, _, hmem, rfl⟩
  · cases h

/-- What the checks have established of a row. -/
theorem row_of_validateData (h : validateData t = .ok ()) (hr : r ∈ t.rows) :
    r.names.Perm expectedColumns ∧
      ∃ target v, ("kredit", target) ∈ r ∧ target.oneMinus = .ok v := by
  obtain ⟨_, hcolumns, h⟩ := bind_eq_ok.mp h
  obtain ⟨_, -, h⟩ := bind_eq_ok.mp h
  obtain ⟨_, -, h⟩ := bind_eq_ok.mp h
  obtain ⟨_, htarget, -⟩ := bind_eq_ok.mp h
  exact ⟨Table.names_of_mem hr ▸ columns_of_validateColumns hcolumns,
    target_of_validateTarget htarget hr⟩

end Accepted

/-! ## The two pipelines agree -/

/-- The columns other than the target are in the order of the expected ones. -/
def InSchemaOrder (t : Table) : Prop :=
  t.columns.filter (· ≠ targetColumn) = expectedColumns.filter (· ≠ targetColumn)

instance (t : Table) : Decidable (InSchemaOrder t) := inferInstanceAs (Decidable (_ = _))

/-- The fields of training are in the order of the application exactly if the table is. -/
theorem names_baseColumns_eq_iff {t : Table} {r : Row} (hr : r ∈ t.rows)
    (hnames : r.names.Perm expectedColumns) :
    (baseColumns r).names = fieldNames ↔ InSchemaOrder t := by
  have hexpected : ∀ name ∈ t.columns, name ∈ expectedColumns := fun name hname =>
    hnames.mem_iff.mp (Table.names_of_mem hr ▸ hname)
  have hfilter : (baseColumns r).names = (t.columns.filter (· ≠ targetColumn)).map newName := by
    rw [baseColumns, Record.names_drop, Record.names_rename, Table.names_of_mem hr, List.filter_map]
    refine congrArg (List.map newName) (List.filter_congr fun name hname => ?_)
    exact decide_eq_decide.mpr (not_congr
      ⟨name_of_target (hexpected name hname), fun h => h ▸ newName_targetColumn⟩)
  rw [hfilter, fieldNames, InSchemaOrder]
  refine ⟨eq_of_map_eq fun name hname name' hname' => ?_, congrArg _⟩
  exact newName_injOn name (hexpected name (List.mem_of_mem_filter hname)) name'
    (List.mem_of_mem_filter hname')

/-- Neither of the columns that the amount is divided by is zero. -/
def NoZeroDivisor (training : Row) : Prop :=
  ∀ name ∈ ["duration_months", "age"], ∀ cell, (name, cell) ∈ training →
    cell.number? ≠ some (.finite 0)

/-- Fields that are equal to those of an application are no zero divisors. -/
theorem noZeroDivisor_of_sameByName {config : FeatureConfig} {a : CreditApplication}
    {training : Row} (hsame : SameByName training (servingFeatures config a)) :
    NoZeroDivisor training := by
  have hdump : ∀ name ∈ ["duration_months", "age"], ∃ n : ℤ, n ≠ 0 ∧
      (name, Cell.int n) ∈ servingFeatures config a := by
    have hmonths := a.durationMonths.2.1
    have hage := a.age.2.1
    simp only [List.forall_mem_cons, servingFeatures, List.mem_append, CreditApplication.modelDump]
    exact ⟨⟨a.durationMonths, by omega, .inl (by simp)⟩, ⟨a.age, by omega, .inl (by simp)⟩,
      fun _ h => nomatch h⟩
  intro name hname cell hcell hzero
  obtain ⟨n, hn, hserving⟩ := hdump name hname
  have heq := hsame.values _ _ _ hcell hserving
  have hsameNumber := Cell.number?_eq_of_eq heq hzero rfl
  simp only [PyFloat.eq, PyFloat.finite.injEq, decide_eq_true_eq] at hsameNumber
  exact hn (by exact_mod_cast hsameNumber.symm)

/-- The two pipelines are defined for a row and give the same values under the same names. -/
def AgreeByName (config : FeatureConfig) (r : Row) (a : CreditApplication) : Prop :=
  ∃ training, trainingFeatures config r = .ok training ∧ NoZeroDivisor training ∧
    SameByName training (servingFeatures config a)

/-- They also give them in the same order. -/
def AgreeInOrder (config : FeatureConfig) (r : Row) (a : CreditApplication) : Prop :=
  ∃ training, trainingFeatures config r = .ok training ∧ NoZeroDivisor training ∧
    training.names = (servingFeatures config a).names ∧
      SameByName training (servingFeatures config a)

/-- For a row of a checked table that is an application, the two pipelines agree on the names and
the values exactly if the row is plain. They agree on the order as well exactly if the columns of
the table, except for the target, are in the order of the expected columns. -/
theorem training_serving_agree_iff (lax : LaxParsers) (config : FeatureConfig) (t : Table) (r : Row)
    (a : CreditApplication) (haccepted : validateData t = .ok ()) (hrow : r ∈ t.rows)
    (happ : applicationOf lax (r.rename newName) = .ok a) :
    (AgreeByName config r a ↔ Plain r) ∧
      (AgreeInOrder config r a ↔ Plain r ∧ InSchemaOrder t) := by
  obtain ⟨hnames, target, v, htarget, hv⟩ := row_of_validateData haccepted hrow
  have hplain {training : Row} (htraining : trainingFeatures config r = .ok training)
      (hsame : SameByName training (servingFeatures config a)) : Plain r :=
    plain_of_sameByName hnames htarget hv happ htraining hsame
  have hbase (perMonth perAge : PyFloat) (longTerm highAmount : Bool) :
      Record.names (baseColumns r ++ addedColumns perMonth perAge longTerm highAmount) =
        (servingFeatures config a).names ↔ InSchemaOrder t := by
    rw [names_servingFeatures, Record.names_append, ← names_baseColumns_eq_iff hrow hnames]
    exact List.append_left_inj _
  refine ⟨⟨?_, fun h => ?_⟩, ⟨?_, fun ⟨h, horder⟩ => ?_⟩⟩
  · rintro ⟨training, htraining, -, hsame⟩
    exact hplain htraining hsame
  · have hsame := sameByName_of_plain config hnames happ h
    exact ⟨_, trainingFeatures_of_plain hnames htarget hv happ h,
      noZeroDivisor_of_sameByName hsame, hsame⟩
  · rintro ⟨training, htraining, -, horder, hsame⟩
    have h := hplain htraining hsame
    rw [trainingFeatures_of_plain hnames htarget hv happ h] at htraining
    cases htraining
    exact ⟨h, (hbase _ _ _ _).mp horder⟩
  · have hsame := sameByName_of_plain config hnames happ h
    exact ⟨_, trainingFeatures_of_plain hnames htarget hv happ h,
      noZeroDivisor_of_sameByName hsame, (hbase _ _ _ _).mpr horder, hsame⟩

/-- A row in the order of the expected columns. -/
def sampleCells : List Cell :=
  [.int 1, .int 24, .int 2, .int 3, .int 3500, .int 1, .int 3, .int 2, .int 2, .int 1, .int 2,
    .int 2, .int 32, .int 1, .int 2, .int 1, .int 3, .int 1, .int 1, .int 1, .int 1]

/-- The table of this row. -/
def schemaTable : Table where
  columns := expectedColumns
  cells := [sampleCells]
  nodup := by decide
  width := by decide

/-- The table with its columns in the reverse order. -/
def reversedTable : Table where
  columns := expectedColumns.reverse
  cells := [sampleCells.reverse]
  nodup := by decide
  width := by decide

/-- The pipelines agree on the row of the first table. -/
theorem training_serving_agree_iff_schemaTable :
    let row := expectedColumns.zip sampleCells
    ∃ a, applicationOf ⟨fun _ => none, fun _ => none⟩ (Record.rename newName row) = .ok a ∧
      AgreeByName ⟨36, 2500⟩ row a ∧ AgreeInOrder ⟨36, 2500⟩ row a := by
  intro row
  have hplain : Plain row := by
    constructor <;> simp [row, expectedColumns, sampleCells]
  obtain ⟨hbyName, hinOrder⟩ := training_serving_agree_iff ⟨fun _ => none, fun _ => none⟩
    ⟨36, 2500⟩ schemaTable row _ rfl (List.mem_singleton_self _) rfl
  exact ⟨_, rfl, hbyName.mpr hplain, hinOrder.mpr ⟨hplain, rfl⟩⟩

/-- The checks accept the reversed table, whose features come in another order. -/
theorem training_serving_order_differs :
    ¬∀ (lax : LaxParsers) (config : FeatureConfig) (t : Table) (r : Row) (a : CreditApplication),
      validateData t = .ok () → r ∈ t.rows → applicationOf lax (r.rename newName) = .ok a →
        AgreeInOrder config r a := by
  intro h
  obtain ⟨training, htraining, -, hnames, -⟩ := h ⟨fun _ => none, fun _ => none⟩ ⟨36, 2500⟩
    reversedTable (expectedColumns.reverse.zip sampleCells.reverse) _ rfl
    (List.mem_singleton_self _) rfl
  cases htraining
  rw [names_servingFeatures] at hnames
  exact absurd (congrArg List.head? hnames) (by decide +kernel)

end CreditScoringMlops.Scoring

import CreditScoringMlops.Scoring.TrainingData

/-!
# The restoration of the raw data

The data set comes with codes such as `A410`: the number of the attribute and the number of the
category, without anything between them. The script keeps the last digit of a code, so categories
that end in the same digit become one. Columns of codes have the type `object`, as in the version of
pandas that the models were logged with.
-/

namespace CreditScoringMlops.Scoring

open Python Data

/-! ## The script -/

/-- `int(value[-1])`, for the digits of ASCII. -/
def lastDigit (value : String) : Except PyExc ℤ :=
  match value.toList.getLast? with
  | none => .error (.other "string index out of range")
  | some c =>
    if c.isDigit then .ok (c.toNat - '0'.toNat : ℕ)
    else .error (.valueError
      s!"invalid literal for int() with base 10: {reprString (String.singleton c)}")

/-- `code_to_int`. -/
def codeToInt : Cell → Except PyExc Cell
  | .str value =>
    if value.toList.head? = some 'A' then return .int (← lastDigit value) else return .str value
  | value => return value

/-- A cell with a text. -/
def Cell.isStr : Cell → Bool
  | .str _ => true
  | _ => false

/-- The type of a column is `object`: it holds a text. -/
def isObject (rows : List Row) (name : String) : Bool :=
  rows.any fun r => (r.get? name).any Cell.isStr

/-- One round of the loop over the columns. -/
def restoreColumn (rows : List Row) (name : String) : Except PyExc (List Row) :=
  if isObject rows name then
    rows.mapM fun r => do return r.assign name (← codeToInt (← column r name))
  else return rows

/-- The mapping of the target; any other value becomes a missing one. -/
def mapTarget (cell : Cell) : Cell :=
  if cell.eq (.int 1) then .int 1 else if cell.eq (.int 2) then .int 0 else .float .nan

/-- `main`: the rows that it writes for a table that it has read. -/
def restore (t : Table) : Except PyExc (List Row) := do
  let rows ← t.columns.foldlM restoreColumn t.rows
  rows.mapM fun r => do return r.assign targetColumn (mapTarget (← column r targetColumn))

/-! ## The format of the data set -/

/-- What a column holds: integers, floats, or the codes of an attribute. -/
inductive ColumnKind where
  | integer
  | float
  | codes (number : ℕ)

/-- The code of a category. -/
def code (number category : ℕ) : String := "A" ++ toString number ++ toString category

/-- A cell of such a column. -/
def ColumnKind.Holds : ColumnKind → Cell → Prop
  | integer, cell => ∃ n, cell = .int n
  | float, cell => ∃ q, cell = .float (.finite q)
  | codes number, cell => ∃ category, cell = .str (code number category)

/-- A column of numbers. -/
def ColumnKind.IsNumeric : ColumnKind → Prop
  | codes _ => False
  | _ => True

/-- A table in the format of the data set: its columns, each of one kind, and a numeric target. -/
structure IsUci (kinds : String → ColumnKind) (t : Table) : Prop where
  columns : t.columns = expectedColumns
  holds : ∀ r ∈ t.rows, ∀ c ∈ r, (kinds c.1).Holds c.2
  target : (kinds targetColumn).IsNumeric

/-! ## Codes -/

/-- The last digit of a number is its remainder. -/
theorem getLast?_toString (n : ℕ) :
    (toString n).toList.getLast? = some (n % 10).digitChar := by
  rw [Nat.toString_eq_repr, Nat.toList_repr, Nat.toDigits_eq_if (by decide)]
  split
  · rename_i h
    rw [Nat.mod_eq_of_lt h]
    rfl
  · exact List.getLast?_concat

/-- Categories have different codes. -/
theorem code_injective (number : ℕ) : Function.Injective (code number) := by
  intro m n h
  have hcategory : m.repr = n.repr := (String.append_right_inj _).mp h
  have hdigits : Nat.toDigits 10 m = Nat.toDigits 10 n := by
    rw [← Nat.toList_repr, ← Nat.toList_repr, hcategory]
  have hread := congrArg (Nat.ofDigitChars 10 · 0) hdigits
  simpa only [Nat.ofDigitChars_ten_toDigits] using hread

/-- The digits of ASCII are read as what they stand for. -/
theorem digitChar_digit {d : ℕ} (h : d < 10) :
    d.digitChar.isDigit ∧ d.digitChar.toNat - '0'.toNat = d := by
  have hall : ∀ d : Fin 10, (d : ℕ).digitChar.isDigit ∧
      (d : ℕ).digitChar.toNat - '0'.toNat = (d : ℕ) := by decide
  exact hall ⟨d, h⟩

/-- Only the last digit of the category is kept. -/
theorem codeToInt_code (number category : ℕ) :
    codeToInt (.str (code number category)) = .ok (.int (category % 10 : ℕ)) := by
  have hdigit : (category % 10).digitChar.isDigit ∧
      (category % 10).digitChar.toNat - '0'.toNat = category % 10 :=
    digitChar_digit (Nat.mod_lt _ (by decide))
  have hlast : lastDigit (code number category) = .ok (category % 10 : ℕ) := by
    have hend : (code number category).toList.getLast? = some (category % 10).digitChar := by
      rw [code, String.toList_append, List.getLast?_append, getLast?_toString, Option.some_or]
    rw [lastDigit, hend]
    dsimp only
    rw [if_pos hdigit.1, hdigit.2]
  have hlead : (code number category).toList.head? = some 'A' := by
    rw [code, String.append_assoc, String.toList_append]
    rfl
  rw [codeToInt, if_pos hlead, hlast]
  rfl

/-! ## What the script makes of a table -/

/-- What a cell becomes. -/
def decode (cell : Cell) : Cell := (codeToInt cell).toOption.getD cell

/-- The script can read a cell. -/
def IsReadable (cell : Cell) : Prop := codeToInt cell = .ok (decode cell)

/-- Only texts are decoded. -/
theorem decode_eq_self {cell : Cell} (h : cell.isStr = false) : decode cell = cell := by
  cases cell with
  | str value => cases h
  | _ => rfl

/-- What has been decoded is kept. -/
theorem codeToInt_decode (cell : Cell) (h : IsReadable cell) :
    codeToInt (decode cell) = .ok (decode cell) := by
  cases cell with
  | str value =>
    rw [IsReadable, codeToInt] at h
    split at h
    · obtain ⟨digit, -, hdigit⟩ := bind_eq_ok.mp h
      rw [← Except.ok.inj hdigit]
      rfl
    · rename_i hlead
      rw [← Except.ok.inj h, codeToInt, if_neg hlead]
      rfl
  | _ => rfl

/-- So it is readable, and decoding it again changes nothing. -/
theorem decode_decode {cell : Cell} (h : IsReadable cell) :
    IsReadable (decode cell) ∧ decode (decode cell) = decode cell := by
  have hsame : decode (decode cell) = decode cell := by
    rw [decode, codeToInt_decode cell h]
    rfl
  exact ⟨(codeToInt_decode cell h).trans (congrArg _ hsame.symm), hsame⟩

/-- Change the cells under one name. -/
def mapColumn (name : String) (f : Cell → Cell) (r : Row) : Row :=
  r.map fun c => (c.1, if c.1 = name then f c.2 else c.2)

@[simp] theorem names_mapColumn (name : String) (f : Cell → Cell) (r : Row) :
    (mapColumn name f r).names = r.names := by
  simp [mapColumn, Record.names]

/-- An assignment to a column changes its cell. -/
theorem assign_column {r : Row} (hnodup : r.names.Nodup) {name : String} (hname : name ∈ r.names)
    {f : Cell → Except PyExc Cell} {g : Cell → Cell} (hf : ∀ c ∈ r, f c.2 = .ok (g c.2)) :
    (do return r.assign name (← f (← column r name))) =
      (.ok (mapColumn name g r) : Except PyExc Row) := by
  obtain ⟨cell, hcell⟩ := Record.exists_of_mem_names hname
  rw [column, Record.get?_of_mem hnodup hcell, Option.elim_some, ok_bind, hf _ hcell, ok_bind,
    Record.assign, if_pos hname]
  refine congrArg Except.ok (List.map_congr_left fun c hc => ?_)
  by_cases heq : c.1 = name
  · have hsame : c.2 = cell := Record.eq_of_mem hnodup (heq ▸ hc) hcell
    rw [if_pos heq, if_pos heq, hsame, heq]
  · rw [if_neg heq, if_neg heq]

/-- The rows have the columns once each, and their cells can be read. -/
def Restorable (names : List String) (rows : List Row) : Prop :=
  ∀ r ∈ rows, r.names.Nodup ∧ (∀ name ∈ names, name ∈ r.names) ∧ ∀ c ∈ r, IsReadable c.2

/-- One round decodes one column. -/
theorem restoreColumn_eq {names : List String} {rows : List Row} (h : Restorable names rows)
    {name : String} (hname : name ∈ names) :
    restoreColumn rows name = .ok (rows.map (mapColumn name decode)) := by
  unfold restoreColumn
  split
  · exact mapM_eq_ok fun r hr => assign_column (h r hr).1 ((h r hr).2.1 name hname) (h r hr).2.2
  · rename_i hobject
    -- without a text in the column nothing is decoded
    have hkeep : ∀ r ∈ rows, mapColumn name decode r = r := by
      intro r hr
      refine (List.map_congr_left fun c hc => ?_).trans (List.map_id r)
      by_cases heq : c.1 = name
      · have hget : r.get? name = some c.2 := Record.get?_of_mem (h r hr).1 (heq ▸ hc)
        have hstr : c.2.isStr = false := by
          by_contra htext
          refine hobject (List.any_eq_true.mpr ⟨r, hr, ?_⟩)
          rw [hget]
          simpa using htext
        rw [if_pos heq, decode_eq_self hstr]
        rfl
      · rw [if_neg heq]
        rfl
    exact congrArg Except.ok ((List.map_congr_left hkeep).trans (List.map_id rows)).symm

/-- Decoding a column keeps that. -/
theorem Restorable.mapColumn {names : List String} {rows : List Row} (h : Restorable names rows)
    (name : String) : Restorable names (rows.map (mapColumn name decode)) := by
  intro r' hr'
  obtain ⟨r, hr, rfl⟩ := List.mem_map.mp hr'
  rw [names_mapColumn]
  refine ⟨(h r hr).1, (h r hr).2.1, fun c' hc' => ?_⟩
  obtain ⟨c, hc, rfl⟩ := List.mem_map.mp hc'
  have hreadable := (h r hr).2.2 c hc
  dsimp only
  split
  · exact (decode_decode hreadable).1
  · exact hreadable

/-- The loop decodes the columns. -/
theorem foldlM_restoreColumn {names : List String} {rows : List Row} (h : Restorable names rows) :
    names.foldlM restoreColumn rows =
      .ok (rows.map fun r => r.map fun c => (c.1, if c.1 ∈ names then decode c.2 else c.2)) := by
  induction names generalizing rows with
  | nil => simp [pure, Except.pure]
  | cons name names ih =>
    have hrest : Restorable names (rows.map (Scoring.mapColumn name decode)) := by
      intro r hr
      obtain ⟨hnodup, hnames, hreadable⟩ := h.mapColumn name r hr
      exact ⟨hnodup, fun n hn => hnames n (List.mem_cons_of_mem _ hn), hreadable⟩
    rw [List.foldlM_cons, restoreColumn_eq h List.mem_cons_self, ok_bind, ih hrest, List.map_map]
    refine congrArg Except.ok (List.map_congr_left fun r hr => ?_)
    simp only [Function.comp_apply, Scoring.mapColumn, List.map_map]
    refine List.map_congr_left fun c hc => ?_
    have hdecode := (decode_decode ((h r hr).2.2 c hc)).2
    simp only [Function.comp_apply, List.mem_cons]
    by_cases heq : c.1 = name
    · simp [heq, hdecode]
    · simp [heq]

/-- A row after the loop. -/
def decodedRow (r : Row) : Row := r.map fun c => (c.1, decode c.2)

@[simp] theorem names_decodedRow (r : Row) : (decodedRow r).names = r.names := by
  simp [decodedRow, Record.names]

/-- A row after the restoration. -/
def restoredRow (r : Row) : Row := mapColumn targetColumn mapTarget (decodedRow r)

/-- A cell of the format can be read. -/
theorem ColumnKind.Holds.isReadable {kind : ColumnKind} {cell : Cell} (h : kind.Holds cell) :
    IsReadable cell := by
  cases kind with
  | integer => obtain ⟨n, rfl⟩ := h; rfl
  | float => obtain ⟨q, rfl⟩ := h; rfl
  | codes number =>
    obtain ⟨category, rfl⟩ := h
    rw [IsReadable, decode, codeToInt_code]
    rfl

/-- A table of the format is restored row by row. -/
theorem restore_eq {kinds : String → ColumnKind} {t : Table} (ht : IsUci kinds t) :
    restore t = .ok (t.rows.map restoredRow) := by
  have hnames : ∀ r ∈ t.rows, r.names = t.columns := fun r hr => t.names_of_mem hr
  have hrestorable : Restorable t.columns t.rows := fun r hr =>
    ⟨hnames r hr ▸ t.nodup, fun name hname => (hnames r hr).symm ▸ hname,
      fun c hc => (ht.holds r hr c hc).isReadable⟩
  have hdecoded : (t.rows.map fun r => r.map fun c =>
      (c.1, if c.1 ∈ t.columns then decode c.2 else c.2)) = t.rows.map decodedRow := by
    refine List.map_congr_left fun r hr => List.map_congr_left fun c hc => ?_
    rw [if_pos (hnames r hr ▸ Record.mem_names hc)]
  have htarget : ∀ r ∈ t.rows.map decodedRow,
      (do return Record.assign r targetColumn (mapTarget (← column r targetColumn))) =
        (.ok (mapColumn targetColumn mapTarget r) : Except PyExc Row) := by
    intro r' hr'
    obtain ⟨r, hr, rfl⟩ := List.mem_map.mp hr'
    refine assign_column (f := fun cell => .ok (mapTarget cell)) ?_ ?_ fun _ _ => rfl
    · rw [names_decodedRow, hnames r hr]
      exact t.nodup
    · rw [names_decodedRow, hnames r hr, ht.columns]
      decide
  rw [restore, foldlM_restoreColumn hrestorable, ok_bind, hdecoded, mapM_eq_ok htarget,
    List.map_map]
  rfl

/-! ## Which cells are merged -/

/-- A restored cell. -/
def restoredCell (name : String) (cell : Cell) : Cell :=
  if name = targetColumn then mapTarget (decode cell) else decode cell

/-- A restored row consists of restored cells. -/
theorem restoredRow_eq (r : Row) :
    restoredRow r = r.map fun c => (c.1, restoredCell c.1 c.2) := by
  rw [restoredRow, mapColumn, decodedRow, List.map_map]
  rfl

/-- A target that is neither 1 nor 2. -/
def IsUnmapped (cell : Cell) : Prop := cell.eq (.int 1) = false ∧ cell.eq (.int 2) = false

/-- Two cells of a column that the script does not tell apart: the same one, targets that are not
mapped, or categories with the same last digit. -/
def Merged (kinds : String → ColumnKind) (name : String) (x y : Cell) : Prop :=
  x = y ∨ (name = targetColumn ∧ IsUnmapped x ∧ IsUnmapped y) ∨
    ∃ number m n, kinds name = .codes number ∧ x = .str (code number m) ∧
      y = .str (code number n) ∧ m % 10 = n % 10

/-- A number compared with an integer. -/
theorem Cell.eq_int_of_number? {cell : Cell} {q : ℚ} (h : cell.number? = some (.finite q)) (n : ℤ) :
    cell.eq (.int n) = decide (q = n) := by
  cases cell with
  | str value => cases h
  | int m => cases h; simp [Cell.eq, Cell.number?, PyFloat.eq]
  | float x => cases h; simp [Cell.eq, Cell.number?, PyFloat.eq]
  | bool b => cases h; simp [Cell.eq, Cell.number?, PyFloat.eq]

/-- The target of a number. -/
theorem mapTarget_of_number? {cell : Cell} {q : ℚ} (h : cell.number? = some (.finite q)) :
    mapTarget cell = if q = 1 then .int 1 else if q = 2 then .int 0 else .float .nan := by
  simp [mapTarget, Cell.eq_int_of_number? h]

/-- Two numbers have the same target if they are the same, or both are unmapped. -/
theorem mapTarget_eq_iff {x y : Cell} {p q : ℚ} (hx : x.number? = some (.finite p))
    (hy : y.number? = some (.finite q)) :
    mapTarget x = mapTarget y ↔ p = q ∨ (IsUnmapped x ∧ IsUnmapped y) := by
  rw [mapTarget_of_number? hx, mapTarget_of_number? hy, IsUnmapped, IsUnmapped,
    Cell.eq_int_of_number? hx, Cell.eq_int_of_number? hx, Cell.eq_int_of_number? hy,
    Cell.eq_int_of_number? hy]
  simp only [decide_eq_false_iff_not]
  split_ifs <;> grind

/-- A cell of a column of numbers is not decoded. -/
theorem ColumnKind.Holds.number {kind : ColumnKind} (hkind : kind.IsNumeric) {cell : Cell}
    (h : kind.Holds cell) : decode cell = cell ∧ ∃ q, cell.number? = some (.finite q) := by
  cases kind with
  | integer => obtain ⟨n, rfl⟩ := h; exact ⟨rfl, n, rfl⟩
  | float => obtain ⟨q, rfl⟩ := h; exact ⟨rfl, q, rfl⟩
  | codes number => cases hkind

/-- Cells of such a column are known by their numbers. -/
theorem ColumnKind.Holds.eq_of_number? {kind : ColumnKind} (hkind : kind.IsNumeric) {x y : Cell}
    (hx : kind.Holds x) (hy : kind.Holds y) (h : x.number? = y.number?) : x = y := by
  cases kind with
  | integer =>
    obtain ⟨m, rfl⟩ := hx
    obtain ⟨n, rfl⟩ := hy
    simpa [Cell.number?] using h
  | float =>
    obtain ⟨p, rfl⟩ := hx
    obtain ⟨q, rfl⟩ := hy
    simpa [Cell.number?] using h
  | codes number => cases hkind

variable {kinds : String → ColumnKind} {name : String} {x y : Cell}

/-- Cells of a column of numbers are merged in the target only. -/
theorem merged_iff_of_isNumeric (hkind : (kinds name).IsNumeric) :
    Merged kinds name x y ↔ x = y ∨ (name = targetColumn ∧ IsUnmapped x ∧ IsUnmapped y) := by
  refine ⟨?_, fun h => h.imp_right .inl⟩
  rintro (rfl | h | ⟨number, m, n, hcodes, -⟩)
  · exact .inl rfl
  · exact .inr h
  · rw [hcodes] at hkind
    cases hkind

/-- Codes are merged if their categories have the same last digit. -/
theorem decode_code_eq_iff {number m n : ℕ} :
    decode (.str (code number m)) = decode (.str (code number n)) ↔ m % 10 = n % 10 := by
  rw [decode, decode, codeToInt_code, codeToInt_code]
  change Cell.int (m % 10 : ℕ) = Cell.int (n % 10 : ℕ) ↔ _
  rw [Cell.int.injEq, Nat.cast_inj]

/-- Cells of a column are restored alike if they are merged. -/
theorem restoredCell_eq_iff (htarget : (kinds targetColumn).IsNumeric)
    (hx : (kinds name).Holds x) (hy : (kinds name).Holds y) :
    restoredCell name x = restoredCell name y ↔ Merged kinds name x y := by
  cases hkind : kinds name with
  | codes number =>
    have hname : name ≠ targetColumn := by
      rintro rfl
      rw [hkind] at htarget
      cases htarget
    rw [hkind] at hx hy
    obtain ⟨m, rfl⟩ := hx
    obtain ⟨n, rfl⟩ := hy
    rw [restoredCell, restoredCell, if_neg hname, if_neg hname]
    constructor
    · exact fun h => .inr (.inr ⟨number, m, n, hkind, rfl, rfl, decode_code_eq_iff.mp h⟩)
    · rintro (h | ⟨h, -⟩ | ⟨number', m', n', -, hm, hn, hdigit⟩)
      · rw [h]
      · exact absurd h hname
      · rw [hm, hn]
        exact decode_code_eq_iff.mpr hdigit
  | _ =>
    have hnumeric : (kinds name).IsNumeric := by
      rw [hkind]
      trivial
    obtain ⟨hdecode, p, hp⟩ := hx.number hnumeric
    obtain ⟨hdecode', q, hq⟩ := hy.number hnumeric
    have hsame : x = y ↔ p = q := by
      constructor
      · rintro rfl
        simpa [hp] using hq
      · rintro rfl
        exact hx.eq_of_number? hnumeric hy (hp.trans hq.symm)
    rw [merged_iff_of_isNumeric hnumeric, restoredCell, restoredCell, hdecode, hdecode']
    split
    · rename_i hname
      rw [mapTarget_eq_iff hp hq, hsame, and_iff_right hname]
    · rename_i hname
      rw [or_iff_left fun h => hname h.1]

/-! ## Rows -/

variable {t : Table} {r r' : Row}

/-- Rows are restored alike if they are merged in every column. -/
theorem restoredRow_eq_iff (ht : IsUci kinds t) (hr : r ∈ t.rows) (hr' : r' ∈ t.rows) :
    restoredRow r = restoredRow r' ↔ ∀ c ∈ r.zip r', Merged kinds c.1.1 c.1.2 c.2.2 := by
  have hnames : r.names = r'.names := (t.names_of_mem hr).trans (t.names_of_mem hr').symm
  rw [restoredRow_eq, restoredRow_eq, Record.map_eq_map_iff hnames]
  refine forall₂_congr fun c hc => ?_
  obtain ⟨hmem, hmem', hname⟩ := Record.of_mem_zip hnames hc
  exact restoredCell_eq_iff ht.target (ht.holds r hr _ hmem) (hname ▸ ht.holds r' hr' _ hmem')

/-- What a cell may be compared with: cells of its own type, or missing ones. -/
inductive Cell.Comparable : Cell → Cell → Prop where
  | int (m n : ℤ) : Comparable (.int m) (.int n)
  | float (p q : ℚ) : Comparable (.float (.finite p)) (.float (.finite q))
  | null_left (n : ℤ) : Comparable (.float .nan) (.int n)
  | null_right (n : ℤ) : Comparable (.int n) (.float .nan)
  | null : Comparable (.float .nan) (.float .nan)

/-- Such cells count as equal only if they are. -/
theorem Cell.Comparable.eq {x y : Cell} (h : x.Comparable y)
    (heq : x.eq y || (x.isNull && y.isNull)) : x = y := by
  cases h with
  | int m n => simpa [Cell.eq, Cell.number?, PyFloat.eq, Cell.isNull] using heq
  | float p q => simpa [Cell.eq, Cell.number?, PyFloat.eq, Cell.isNull] using heq
  | null_left n => simp [Cell.eq, Cell.number?, PyFloat.eq, Cell.isNull] at heq
  | null_right n => simp [Cell.eq, Cell.number?, PyFloat.eq, Cell.isNull] at heq
  | null => rfl

/-- The mapped target is an integer or missing. -/
theorem mapTarget_cases (cell : Cell) :
    (∃ n, mapTarget cell = .int n) ∨ mapTarget cell = .float .nan := by
  unfold mapTarget
  split
  · exact .inl ⟨1, rfl⟩
  · split
    · exact .inl ⟨0, rfl⟩
    · exact .inr rfl

/-- The restored cells of a column are comparable. -/
theorem comparable_restoredCell (hx : (kinds name).Holds x) (hy : (kinds name).Holds y) :
    (restoredCell name x).Comparable (restoredCell name y) := by
  unfold restoredCell
  split
  · obtain ⟨m, hm⟩ | hm := mapTarget_cases (decode x) <;>
      obtain ⟨n, hn⟩ | hn := mapTarget_cases (decode y) <;> rw [hm, hn]
    · exact .int m n
    · exact .null_right m
    · exact .null_left n
    · exact .null
  · cases hkind : kinds name <;> rw [hkind] at hx hy <;> obtain ⟨a, rfl⟩ := hx <;>
      obtain ⟨b, rfl⟩ := hy
    · exact .int a b
    · exact .float a b
    · rw [decode, decode, codeToInt_code, codeToInt_code]
      exact .int _ _

/-- Restored rows count as duplicates only if they are the same row. -/
theorem eq_of_sameCells (ht : IsUci kinds t) (hr : r ∈ t.rows) (hr' : r' ∈ t.rows)
    (h : sameCells (restoredRow r) (restoredRow r')) : restoredRow r = restoredRow r' := by
  have hnames : r.names = r'.names := (t.names_of_mem hr).trans (t.names_of_mem hr').symm
  rw [restoredRow_eq, restoredRow_eq, Record.map_eq_map_iff hnames]
  intro c hc
  obtain ⟨hmem, hmem', hname⟩ := Record.of_mem_zip hnames hc
  refine (comparable_restoredCell (ht.holds r hr _ hmem)
    (hname ▸ ht.holds r' hr' _ hmem')).eq ?_
  rw [restoredRow_eq, restoredRow_eq, sameCells, List.zip_map, List.all_map] at h
  have hcell := List.all_eq_true.mp h c hc
  simpa [hname] using hcell

/-- Rows of which no two count as equal have no duplicates. -/
theorem duplicatedCount_eq_zero {rows : List Row}
    (h : rows.Pairwise fun r r' => sameCells r r' = false) : duplicatedCount rows = 0 := by
  induction rows with
  | nil => rfl
  | cons r rows ih =>
    rw [List.pairwise_cons] at h
    have hany : rows.any (sameCells r) = false := List.any_eq_false.mpr fun r' hr' => by
      simp [h.1 r' hr']
    rw [duplicatedCount, hany, ih h.2]
    rfl

/-! ## A sample -/

/-- The kinds of the columns: some hold numbers, the others the codes of their place. -/
def uciKinds (name : String) : ColumnKind :=
  if name ∈ ["laufzeit", "hoehe", "rate", "wohnzeit", "alter", "bishkred", "pers", "kredit"] then
    .integer
  else .codes (expectedColumns.idxOf name + 1)

/-- A row in which only the purpose is left open. -/
def uciRow (purpose : ℕ) : List Cell :=
  [.str (code 1 1), .int 6, .str (code 3 4), .str (code 4 purpose), .int 1169, .str (code 6 5),
    .str (code 7 5), .int 4, .str (code 9 3), .str (code 10 1), .int 4, .str (code 12 1), .int 67,
    .str (code 14 3), .str (code 15 2), .int 2, .str (code 17 3), .int 1, .str (code 19 2),
    .str (code 20 1), .int 1]

theorem length_uciRow (purposes : List ℕ) :
    ∀ row ∈ purposes.map uciRow, row.length = expectedColumns.length :=
  List.forall_mem_map.mpr fun _ _ => rfl

/-- A table of such rows. -/
def uciTable (purposes : List ℕ) : Table :=
  ⟨expectedColumns, purposes.map uciRow, nodup_expectedColumns, length_uciRow purposes⟩

/-- It has the format of the data set. -/
theorem isUci_uciTable (purposes : List ℕ) : IsUci uciKinds (uciTable purposes) := by
  have hint : ∀ name, uciKinds name = .integer → ∀ n, (uciKinds name).Holds (.int n) := by
    intro name hname n
    rw [hname]
    exact ⟨n, rfl⟩
  have hcode : ∀ name number, uciKinds name = .codes number →
      ∀ category, (uciKinds name).Holds (.str (code number category)) := by
    intro name number hname category
    rw [hname]
    exact ⟨category, rfl⟩
  refine ⟨rfl, ?_, trivial⟩
  simp only [Table.rows, uciTable, List.map_map, List.forall_mem_map, Function.comp_apply]
  intro purpose _
  simp only [expectedColumns, uciRow, List.zip_cons_cons, List.zip_nil_left, List.forall_mem_cons]
  refine ⟨hcode _ _ rfl _, hint _ rfl _, hcode _ _ rfl _, hcode _ _ rfl _, hint _ rfl _,
    hcode _ _ rfl _, hcode _ _ rfl _, hint _ rfl _, hcode _ _ rfl _, hcode _ _ rfl _,
    hint _ rfl _, hcode _ _ rfl _, hint _ rfl _, hcode _ _ rfl _, hcode _ _ rfl _, hint _ rfl _,
    hcode _ _ rfl _, hint _ rfl _, hcode _ _ rfl _, hcode _ _ rfl _, hint _ rfl _, nofun⟩

/-! ## The restored table -/

/-- The rows of a table, restored, make a table. -/
theorem exists_restoredTable (t : Table) :
    ∃ t' : Table, t'.columns = t.columns ∧ t'.rows = t.rows.map restoredRow := by
  have hnames : ∀ r ∈ t.rows, (restoredRow r).names = t.columns := fun r hr => by
    rw [restoredRow, names_mapColumn, names_decodedRow, t.names_of_mem hr]
  have hwidth : ∀ row ∈ (t.rows.map restoredRow).map (·.map Prod.snd),
      row.length = t.columns.length := by
    simp only [List.forall_mem_map]
    intro r hr
    rw [← hnames r hr, List.length_map, Record.names, List.length_map]
  refine ⟨⟨t.columns, _, t.nodup, hwidth⟩, rfl, ?_⟩
  rw [Table.rows, List.map_map]
  refine (List.map_congr_left fun r' hr' => ?_).trans (List.map_id _)
  obtain ⟨r, hr, rfl⟩ := List.mem_map.mp hr'
  exact (List.zip_of_prod (hnames r hr) rfl).symm

/-- No two different rows are merged in every column. -/
def NoRowsMerged (kinds : String → ColumnKind) (t : Table) : Prop :=
  ∀ r ∈ t.rows, ∀ r' ∈ t.rows,
    (∀ c ∈ r.zip r', Merged kinds c.1.1 c.1.2 c.2.2) → r = r'

/-- The restored rows tell the rows of a table apart, and without duplicates there they pass the
check for duplicates. -/
structure Lossless (t : Table) (rows : List Row) : Prop where
  length : rows.length = t.rows.length
  injective : ∀ c ∈ t.rows.zip rows, ∀ d ∈ t.rows.zip rows, c.2 = d.2 → c.1 = d.1
  unique : t.rows.Nodup → ∃ t' : Table, t'.columns = t.columns ∧ t'.rows = rows ∧
    validateUniqueRows t' = .ok ()

/-- Restoring is injective on the rows of a table if no two of them are merged. -/
theorem restoredRow_injOn_iff (ht : IsUci kinds t) :
    (∀ r ∈ t.rows, ∀ r' ∈ t.rows, restoredRow r = restoredRow r' → r = r') ↔
      NoRowsMerged kinds t :=
  forall₂_congr fun _ hr => forall₂_congr fun _ hr' =>
    imp_congr_left (restoredRow_eq_iff ht hr hr')

/-- The rows of a table beside what they become. -/
theorem zip_restoredRow (rows : List Row) :
    rows.zip (rows.map restoredRow) = rows.map fun r => (r, restoredRow r) := by
  simpa using List.zip_map' (f := id) (g := restoredRow) (l := rows)

/-- Where nothing is lost, no rows are merged. -/
theorem Lossless.noRowsMerged (ht : IsUci kinds t) (h : Lossless t (t.rows.map restoredRow)) :
    NoRowsMerged kinds t := by
  rw [← restoredRow_injOn_iff ht]
  intro r hr r' hr' heq
  have hinjective := h.injective
  rw [zip_restoredRow] at hinjective
  exact hinjective (r, restoredRow r) (List.mem_map_of_mem hr) (r', restoredRow r')
    (List.mem_map_of_mem hr') heq

/-- Where no rows are merged, nothing is lost. -/
theorem NoRowsMerged.lossless (ht : IsUci kinds t) (h : NoRowsMerged kinds t) :
    Lossless t (t.rows.map restoredRow) := by
  have hinjective := (restoredRow_injOn_iff ht).mpr h
  refine ⟨List.length_map _, ?_, fun hnodup => ?_⟩
  · rw [zip_restoredRow]
    simp only [List.forall_mem_map]
    exact hinjective
  · obtain ⟨t', hcolumns, hrows⟩ := exists_restoredTable t
    refine ⟨t', hcolumns, hrows, ?_⟩
    have hcount : duplicatedCount t'.rows = 0 := by
      rw [hrows]
      refine duplicatedCount_eq_zero (List.pairwise_map.mpr (hnodup.imp_of_mem ?_))
      intro r r' hr hr' hne
      rw [Bool.eq_false_iff]
      exact fun hsame => hne (hinjective r hr r' hr' (eq_of_sameCells ht hr hr' hsame))
    rw [validateUniqueRows, hcount]
    rfl

/-- The restoration of a table in the format of the data set loses nothing exactly if no two of its
rows are merged. -/
theorem restore_lossless_iff (ht : IsUci kinds t) :
    ∃ rows, restore t = .ok rows ∧ (Lossless t rows ↔ NoRowsMerged kinds t) :=
  ⟨_, restore_eq ht, fun h => h.noRowsMerged ht, fun h => h.lossless ht⟩

/-- Rows are merged if their purposes end in the same digit. -/
theorem merged_uciRow {m n : ℕ} (h : m % 10 = n % 10) :
    ∀ c ∈ (expectedColumns.zip (uciRow m)).zip (expectedColumns.zip (uciRow n)),
      Merged uciKinds c.1.1 c.1.2 c.2.2 := by
  have hpurpose : Merged uciKinds "verw" (.str (code 4 m)) (.str (code 4 n)) :=
    .inr (.inr ⟨4, m, n, rfl, rfl, rfl, h⟩)
  simp only [expectedColumns, uciRow, List.zip_cons_cons, List.zip_nil_left, List.forall_mem_cons]
  exact ⟨.inl rfl, .inl rfl, .inl rfl, hpurpose, .inl rfl, .inl rfl, .inl rfl, .inl rfl, .inl rfl,
    .inl rfl, .inl rfl, .inl rfl, .inl rfl, .inl rfl, .inl rfl, .inl rfl, .inl rfl, .inl rfl,
    .inl rfl, .inl rfl, .inl rfl, nofun⟩

/-- Only then. -/
theorem mod_eq_of_merged {m n : ℕ}
    (h : ∀ c ∈ (expectedColumns.zip (uciRow m)).zip (expectedColumns.zip (uciRow n)),
      Merged uciKinds c.1.1 c.1.2 c.2.2) : m % 10 = n % 10 := by
  simp only [expectedColumns, uciRow, List.zip_cons_cons, List.forall_mem_cons] at h
  have hpurpose : Merged uciKinds "verw" (.str (code 4 m)) (.str (code 4 n)) := h.2.2.2.1
  rcases hpurpose with hsame | ⟨htarget, -⟩ | ⟨number, m', n', hnumber, hm, hn, hdigit⟩
  · rw [code_injective 4 (Cell.str.inj hsame)]
  · exact absurd htarget (by decide)
  · obtain rfl := ColumnKind.codes.inj hnumber
    rw [code_injective 4 (Cell.str.inj hm), code_injective 4 (Cell.str.inj hn), hdigit]

/-- Two purposes that end in different digits. -/
theorem restore_lossless_iff_sample :
    ∃ rows, restore (uciTable [0, 3]) = .ok rows ∧ Lossless (uciTable [0, 3]) rows := by
  obtain ⟨rows, hrows, hiff⟩ := restore_lossless_iff (isUci_uciTable [0, 3])
  refine ⟨rows, hrows, hiff.mpr ?_⟩
  simp only [NoRowsMerged, Table.rows, uciTable, List.map_map, List.forall_mem_map,
    Function.comp_apply]
  intro m hm n hn hmerged
  have hdigit := mod_eq_of_merged hmerged
  have hsame : ∀ m ∈ [0, 3], ∀ n ∈ [0, 3], m % 10 = n % 10 → m = n := by decide
  rw [hsame m hm n hn hdigit]

/-- Two rows that differ in the purpose only, `A40` and `A410`, become the same row. -/
theorem restore_merges_purposes : ¬∀ kinds t, IsUci kinds t →
    ∃ rows, restore t = .ok rows ∧ Lossless t rows := by
  intro h
  have ht := isUci_uciTable [0, 10]
  obtain ⟨rows, hrows, hlossless⟩ := h uciKinds (uciTable [0, 10]) ht
  obtain rfl := Except.ok.inj ((restore_eq ht).symm.trans hrows)
  have hsame : expectedColumns.zip (uciRow 0) = expectedColumns.zip (uciRow 10) :=
    hlossless.noRowsMerged ht _ List.mem_cons_self _ (List.mem_cons_of_mem _ List.mem_cons_self)
      (merged_uciRow (m := 0) (n := 10) rfl)
  have hpurpose : code 4 0 = code 4 10 := by
    simpa [expectedColumns, uciRow] using hsame
  exact absurd (code_injective 4 hpurpose) (by decide)

end CreditScoringMlops.Scoring

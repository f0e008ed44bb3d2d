import Mathlib.Data.List.DropRight

/-!
# Python strings

The string methods the executor relies on, on lists of characters. `isSpace` is `str.isspace`
on one character, which is also what `\s` matches in a `str` pattern.
-/

namespace CreditScoringMlops.Python

/-- White space, as `str.strip` removes it and `\s` matches it. -/
def isSpace (c : Char) : Bool :=
  let n := c.toNat
  (9 ≤ n && n ≤ 13) || (28 ≤ n && n ≤ 32) || n == 0x85 || n == 0xa0 || n == 0x1680 ||
    (0x2000 ≤ n && n ≤ 0x200a) || n == 0x2028 || n == 0x2029 || n == 0x202f || n == 0x205f ||
    n == 0x3000

/-- `str.strip()`. -/
def strip (s : List Char) : List Char :=
  ((s.dropWhile isSpace).reverse.dropWhile isSpace).reverse

/-- `str.lower()` of one character, as far as an ASCII pattern can tell: the ASCII capitals, and
the two other characters whose lower case contains an ASCII letter (the dotted capital I and the
Kelvin sign). Every other character is lowered to characters outside ASCII, or is not cased; it is
kept, which no ASCII pattern distinguishes. -/
def lowerChar (c : Char) : List Char :=
  if c.toNat = 0x130 then ['i', Char.ofNat 0x307]
  else if c.toNat = 0x212a then ['k']
  else [c.toLower]

/-- `str.lower()`. -/
def lower (s : List Char) : List Char := s.flatMap lowerChar

/-- The character class `[a-z0-9]`. -/
def isLowerAlnum (c : Char) : Bool := ('a' ≤ c && c ≤ 'z') || ('0' ≤ c && c ≤ '9')

/-- The character class `[a-z0-9-]`. -/
def isLowerAlnumDash (c : Char) : Bool := isLowerAlnum c || c == '-'

/-- A hexadecimal digit in lower case. -/
def isLowerHex (c : Char) : Bool := ('a' ≤ c && c ≤ 'f') || ('0' ≤ c && c ≤ '9')

/-- The text `str(uuid4())` has: 32 hexadecimal digits with four dashes between them. -/
def isUuid (s : List Char) : Bool :=
  s.length == 36 && s.zipIdx.all fun (c, k) =>
    if k ∈ [8, 13, 18, 23] then c == '-' else isLowerHex c

/-- A hexadecimal digit is a letter or a digit. -/
theorem isLowerAlnum_of_isLowerHex {c : Char} (h : isLowerHex c) : isLowerAlnum c := by
  simp only [isLowerHex, isLowerAlnum, Bool.or_eq_true, Bool.and_eq_true, decide_eq_true_eq] at h ⊢
  obtain ⟨ha, hf⟩ | hdigit := h
  · exact .inl ⟨ha, Char.le_trans hf (by decide)⟩
  · exact .inr hdigit

/-- The characters of a UUID, by their places. -/
theorem isUuid_getElem {s : List Char} (h : isUuid s) {k : ℕ} (hk : k < s.length) :
    if k ∈ [8, 13, 18, 23] then s[k] = '-' else isLowerHex s[k] := by
  have hmem : (s[k], k) ∈ s.zipIdx := List.mk_mem_zipIdx_iff_getElem?.mpr (by simp [hk])
  have hchar := List.all_eq_true.mp (Bool.and_eq_true_iff.mp h).2 _ hmem
  split <;> simp_all

/-- The codes of the characters of `[a-z0-9-]`. -/
theorem toNat_of_isLowerAlnumDash {c : Char} (h : isLowerAlnumDash c) :
    c.toNat = 45 ∨ (48 ≤ c.toNat ∧ c.toNat ≤ 57) ∨ (97 ≤ c.toNat ∧ c.toNat ≤ 122) := by
  simp only [isLowerAlnumDash, isLowerAlnum, Bool.or_eq_true, Bool.and_eq_true,
    decide_eq_true_eq, beq_iff_eq, Char.le_def, UInt32.le_iff_toNat_le, Char.toNat_val] at h
  obtain (hletter | hdigit) | rfl := h
  · exact .inr (.inr hletter)
  · exact .inr (.inl hdigit)
  · exact .inl rfl

/-- Such a character is in lower case. -/
theorem lowerChar_of_isLowerAlnumDash {c : Char} (h : isLowerAlnumDash c) : lowerChar c = [c] := by
  have hcode := toNat_of_isLowerAlnumDash h
  have hcapital : ¬(c.val ≥ 'A'.val ∧ c.val ≤ 'Z'.val) := by
    intro ⟨hlower, hupper⟩
    have hlower : 65 ≤ c.toNat := by simpa [UInt32.le_iff_toNat_le] using hlower
    have hupper : c.toNat ≤ 90 := by simpa [UInt32.le_iff_toNat_le] using hupper
    omega
  have hlower : c.toLower = c := dif_neg hcapital
  rw [lowerChar, if_neg (by omega), if_neg (by omega), hlower]

/-- It is no white space. -/
theorem isSpace_of_isLowerAlnumDash {c : Char} (h : isLowerAlnumDash c) : isSpace c = false := by
  have hcode := toNat_of_isLowerAlnumDash h
  simp only [isSpace, Bool.or_eq_false_iff, Bool.and_eq_false_iff, decide_eq_false_iff_not,
    beq_eq_false_iff_ne]
  omega

/-- A text without white space is not stripped. -/
theorem strip_eq_self {s : List Char} (h : ∀ c ∈ s, isSpace c = false) : strip s = s := by
  have hkeep : ∀ l : List Char, (∀ c ∈ l, isSpace c = false) → l.dropWhile isSpace = l := by
    intro l hl
    cases l with
    | nil => rfl
    | cons c l => exact List.dropWhile_cons_of_neg (by simp [hl c (by simp)])
  rw [strip, hkeep s h, hkeep s.reverse (fun c hc => h c (List.mem_reverse.mp hc)),
    List.reverse_reverse]

/-- A stripped text has nothing left to strip. -/
theorem strip_strip (s : List Char) : strip (strip s) = strip s := by
  have hfront : (strip s).dropWhile isSpace = strip s := by
    refine List.dropWhile_eq_self_iff.mpr fun hlength => ?_
    have hlead : strip s <+: s.dropWhile isSpace := List.rdropWhile_prefix isSpace _
    have hself := List.dropWhile_eq_self_iff.mp (List.dropWhile_idempotent isSpace s)
    rw [hlead.getElem hlength]
    exact hself (hlength.trans_le hlead.length_le)
  calc strip (strip s) = ((strip s).dropWhile isSpace).rdropWhile isSpace := rfl
    _ = (strip s).rdropWhile isSpace := by rw [hfront]
    _ = strip s := List.rdropWhile_idempotent isSpace _

/-- A text over `[a-z0-9-]` is what `lower` and `strip` make of it. -/
theorem strip_lower_eq_self {s : List Char} (h : ∀ c ∈ s, isLowerAlnumDash c) :
    strip (lower s) = s := by
  have hlower : lower s = s := by
    rw [lower, List.flatMap_congr fun c hc => lowerChar_of_isLowerAlnumDash (h c hc)]
    exact List.flatMap_singleton' s
  rw [hlower]
  exact strip_eq_self fun c hc => isSpace_of_isLowerAlnumDash (h c hc)

/-- `repr` of a string without control characters: single quotes, unless only those occur in it. -/
def reprChars (s : List Char) : List Char :=
  let quote := if s.contains '\'' && !s.contains '"' then '"' else '\''
  let escape := fun c => if c == '\\' || c == quote then ['\\', c] else [c]
  [quote] ++ s.flatMap escape ++ [quote]

/-- `repr` of a string. -/
def reprString (s : String) : String := String.ofList (reprChars s.toList)

end CreditScoringMlops.Python

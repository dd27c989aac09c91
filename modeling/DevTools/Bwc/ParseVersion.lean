import Mathlib
import DevTools.Text

/-!
# Version strings of `create_bwc_indexes.py`

`parse_version` splits a version at `.` and `-`, appends `GA` to a three-part version,
lower-cases the parts and asserts that there are four of them; `main` skips a version `v` when
`parse_version(v) < parse_version('2.3.0')` under Python's list comparison, which compares the
parts as strings (`strListLt`, `strLt`).

For a release `X.Y.Z` or `X.Y.Z-Q` the parts are `[X, Y, Z, q]`, where `q` is `Q` lower-cased or
`ga` (`parseVersion_release`, `parseVersion_prerelease`). Two numerals of the same length compare as
strings as they compare as numbers (`strLt_iff_value_lt`); numerals of different lengths and
qualifiers need not: `2.3.0-rc1` is not below the minimum `2.3.0`, and `10.0.0` is
(`belowMinimum_rc1_and_ten`).
-/

namespace DevTools.Bwc

/-- A separator of `re.split('[.-]', version)`. -/
def isSeparator (c : Char) : Bool := c = '.' || c = '-'

/-- `str.lower()` on the ASCII letters of a version string. -/
def lower (s : List Char) : List Char := s.map Char.toLower

/-- `parse_version(version)`; `none` when `assert len(splitted) == 4` fails. -/
def parseVersion (version : List Char) : Option (List (List Char)) :=
  let splitted := version.splitOnP isSeparator
  let splitted := if splitted.length = 3 then splitted ++ ["GA".toList] else splitted
  let splitted := splitted.map lower
  if splitted.length = 4 then some splitted else none

/-- Python's `<` on `str`: the first differing code point decides, and a proper prefix is smaller. -/
def strLt : List Char → List Char → Bool
  | _, [] => false
  | [], _ :: _ => true
  | a :: s, b :: t => if a = b then strLt s t else a.toNat < b.toNat

/-- Python's `<` on a `list` of `str`. -/
def strListLt : List (List Char) → List (List Char) → Bool
  | _, [] => false
  | [], _ :: _ => true
  | a :: s, b :: t => if a = b then strListLt s t else strLt a b

/-- `parse_version(a) < parse_version(b)`; `none` when one of the asserts fails. -/
def versionLt (a b : List Char) : Option Bool := do
  return strListLt (← parseVersion a) (← parseVersion b)

/-- The test of `main`: the version is skipped as older than `2.3.0`. -/
def belowMinimum (version : List Char) : Option Bool := versionLt version "2.3.0".toList

/-! ## The parts of a release version -/

/-- A part that `re.split('[.-]', ...)` keeps whole: it has no separator. -/
def IsPart (s : List Char) : Prop := ∀ c ∈ s, isSeparator c = false

instance : DecidablePred IsPart := fun s => inferInstanceAs (Decidable (∀ c ∈ s, _))

theorem isPart_of_isNumeral {s : List Char} (h : IsNumeral s) : IsPart s := fun c hc => by
  have := h.2 c hc
  simp only [Char.isDigit, Bool.and_eq_true, decide_eq_true_eq] at this
  simp only [isSeparator, Bool.or_eq_false_iff, decide_eq_false_iff_not]
  constructor <;> rintro rfl <;> simp at this

theorem lower_eq_of_isNumeral {s : List Char} (h : IsNumeral s) : lower s = s := by
  refine (List.map_congr_left fun c hc => ?_).trans (List.map_id s)
  have := h.2 c hc
  simp only [Char.isDigit, Bool.and_eq_true, decide_eq_true_eq] at this
  simp only [Char.toLower, Char.isUpper, id]
  split_ifs with hu
  · simp only [Bool.and_eq_true, decide_eq_true_eq] at hu
    exact absurd (lt_of_lt_of_le (by decide) hu.1) (not_lt.2 this.2)
  · rfl

theorem splitOnP_part_sep {s rest : List Char} (hs : IsPart s) {c : Char} (hc : isSeparator c) :
    (s ++ c :: rest).splitOnP isSeparator = s :: rest.splitOnP isSeparator :=
  List.splitOnP_first _ _ (fun x hx => by simp [hs x hx]) _ hc _

theorem IsPart.splitOnP {s : List Char} (h : IsPart s) : s.splitOnP isSeparator = [s] :=
  List.splitOnP_eq_single _ _ fun c hc => by simp [h c hc]

section Release

variable {X Y Z Q : List Char} (hX : IsNumeral X) (hY : IsNumeral Y) (hZ : IsNumeral Z)
include hX hY hZ

/-- `parse_version('X.Y.Z') = [X, Y, Z, 'ga']`. -/
theorem parseVersion_release :
    parseVersion (X ++ '.' :: Y ++ '.' :: Z) = some [X, Y, Z, "ga".toList] := by
  simp [parseVersion, splitOnP_part_sep (isPart_of_isNumeral hX) (c := '.') rfl,
    splitOnP_part_sep (isPart_of_isNumeral hY) (c := '.') rfl, (isPart_of_isNumeral hZ).splitOnP,
    lower_eq_of_isNumeral hX, lower_eq_of_isNumeral hY, lower_eq_of_isNumeral hZ,
    show lower ['G', 'A'] = ['g', 'a'] from rfl]

/-- `parse_version('X.Y.Z-Q') = [X, Y, Z, Q.lower()]`. -/
theorem parseVersion_prerelease (hQ : IsPart Q) :
    parseVersion (X ++ '.' :: Y ++ '.' :: Z ++ '-' :: Q) = some [X, Y, Z, lower Q] := by
  simp [parseVersion, splitOnP_part_sep (isPart_of_isNumeral hX) (c := '.') rfl,
    splitOnP_part_sep (isPart_of_isNumeral hY) (c := '.') rfl,
    splitOnP_part_sep (isPart_of_isNumeral hZ) (c := '-') rfl, hQ.splitOnP,
    lower_eq_of_isNumeral hX, lower_eq_of_isNumeral hY, lower_eq_of_isNumeral hZ]

end Release

/-! ## Comparing numerals as strings -/

/-- The number a decimal numeral denotes (`48` is the code point of `0`). -/
def numeralValue : List Char → Nat
  | [] => 0
  | c :: s => (c.toNat - 48) * 10 ^ s.length + numeralValue s

theorem toNat_of_isDigit {c : Char} (h : c.isDigit) : 48 ≤ c.toNat ∧ c.toNat ≤ 57 := by
  simp only [Char.isDigit, Bool.and_eq_true, decide_eq_true_eq, Char.le_def, UInt32.le_def] at h
  exact h

theorem numeralValue_lt : ∀ {s : List Char}, (∀ c ∈ s, c.isDigit) → numeralValue s < 10 ^ s.length
  | [], _ => by simp [numeralValue]
  | c :: s, h => by
    have hc := toNat_of_isDigit (h c (List.mem_cons_self c s))
    have ih := numeralValue_lt fun d hd => h d (List.mem_cons_of_mem c hd)
    calc numeralValue (c :: s) < (c.toNat - 48) * 10 ^ s.length + 10 ^ s.length := by
          simp only [numeralValue]; omega
      _ ≤ 9 * 10 ^ s.length + 10 ^ s.length :=
          Nat.add_le_add_right (Nat.mul_le_mul_right _ (by omega)) _
      _ = 10 ^ (c :: s).length := by rw [List.length_cons, Nat.pow_succ]; omega

theorem add_lt_add_of_digit_lt {dx dy va vb p : Nat} (hd : dx < dy) (ha : va < p) :
    dx * p + va < dy * p + vb :=
  calc dx * p + va < (dx + 1) * p := by rw [Nat.succ_mul]; omega
    _ ≤ dy * p := Nat.mul_le_mul_right p hd
    _ ≤ dy * p + vb := Nat.le_add_right _ _

/-- Two numerals of the same length compare as strings as they compare as numbers. -/
theorem strLt_iff_value_lt : ∀ {a b : List Char}, (∀ c ∈ a, c.isDigit) → (∀ c ∈ b, c.isDigit) →
    a.length = b.length → (strLt a b = true ↔ numeralValue a < numeralValue b)
  | [], [], _, _, _ => by simp [strLt, numeralValue]
  | x :: a, y :: b, ha, hb, hl => by
    have hx := toNat_of_isDigit (ha x (List.mem_cons_self x a))
    have hy := toNat_of_isDigit (hb y (List.mem_cons_self y b))
    have hl' : a.length = b.length := Nat.succ.inj hl
    have va := numeralValue_lt fun c hc => ha c (List.mem_cons_of_mem x hc)
    have vb := numeralValue_lt fun c hc => hb c (List.mem_cons_of_mem y hc)
    simp only [strLt, numeralValue]
    by_cases hxy : x = y
    · subst hxy
      rw [if_pos rfl, strLt_iff_value_lt (fun c hc => ha c (List.mem_cons_of_mem x hc))
        (fun c hc => hb c (List.mem_cons_of_mem x hc)) hl', hl']
      omega
    · have hne : x.toNat ≠ y.toNat := fun h => hxy (by rw [← Char.ofNat_toNat x, h, Char.ofNat_toNat])
      rw [if_neg hxy, decide_eq_true_iff, hl']
      rcases Nat.lt_or_gt_of_ne hne with h | h
      · exact iff_of_true h (add_lt_add_of_digit_lt (by omega) (hl' ▸ va))
      · exact iff_of_false (by omega) (not_lt.2 (add_lt_add_of_digit_lt (by omega) vb).le)

theorem eq_of_numeralValue_eq : ∀ {a b : List Char}, (∀ c ∈ a, c.isDigit) → (∀ c ∈ b, c.isDigit) →
    a.length = b.length → numeralValue a = numeralValue b → a = b
  | [], [], _, _, _, _ => rfl
  | x :: a, y :: b, ha, hb, hl, hv => by
    have hx := toNat_of_isDigit (ha x (List.mem_cons_self x a))
    have hy := toNat_of_isDigit (hb y (List.mem_cons_self y b))
    have hl' : a.length = b.length := Nat.succ.inj hl
    have va := numeralValue_lt fun c hc => ha c (List.mem_cons_of_mem x hc)
    have vb := numeralValue_lt fun c hc => hb c (List.mem_cons_of_mem y hc)
    simp only [numeralValue, hl'] at hv
    have hd : x.toNat = y.toNat := by
      rcases Nat.lt_trichotomy (x.toNat - 48) (y.toNat - 48) with h | h | h
      · exact absurd hv (add_lt_add_of_digit_lt h (hl' ▸ va)).ne
      · omega
      · exact absurd hv.symm (add_lt_add_of_digit_lt h vb).ne
    have hxy : x = y := by rw [← Char.ofNat_toNat x, hd, Char.ofNat_toNat]
    subst hxy
    rw [eq_of_numeralValue_eq (fun c hc => ha c (List.mem_cons_of_mem x hc))
      (fun c hc => hb c (List.mem_cons_of_mem x hc)) hl' (by omega)]

section SameLength

variable {a b : List Char} (ha : IsNumeral a) (hb : IsNumeral b) (hl : a.length = b.length)
include ha hb hl

theorem strLt_eq_decide : strLt a b = decide (numeralValue a < numeralValue b) :=
  Bool.eq_iff_iff.2 ((strLt_iff_value_lt ha.2 hb.2 hl).trans decide_eq_true_iff.symm)

theorem eq_iff_numeralValue_eq : a = b ↔ numeralValue a = numeralValue b :=
  ⟨congrArg _, eq_of_numeralValue_eq ha.2 hb.2 hl⟩

end SameLength

/-- For two releases `X.Y.Z` whose corresponding numerals have the same number of digits, `main`'s
comparison is the numeric order of `(X, Y, Z)`. -/
theorem versionLt_release {X Y Z X' Y' Z' : List Char} (hX : IsNumeral X) (hY : IsNumeral Y)
    (hZ : IsNumeral Z) (hX' : IsNumeral X') (hY' : IsNumeral Y') (hZ' : IsNumeral Z')
    (lX : X.length = X'.length) (lY : Y.length = Y'.length) (lZ : Z.length = Z'.length) :
    versionLt (X ++ '.' :: Y ++ '.' :: Z) (X' ++ '.' :: Y' ++ '.' :: Z') =
      some (decide (numeralValue X < numeralValue X' ∨ numeralValue X = numeralValue X' ∧
        (numeralValue Y < numeralValue Y' ∨ numeralValue Y = numeralValue Y' ∧
          numeralValue Z < numeralValue Z'))) := by
  simp only [versionLt, parseVersion_release hX hY hZ, parseVersion_release hX' hY' hZ',
    Option.bind_eq_bind, Option.some_bind, Option.pure_def, Option.some.injEq, strListLt,
    strLt_eq_decide hX hX' lX, strLt_eq_decide hY hY' lY, strLt_eq_decide hZ hZ' lZ,
    eq_iff_numeralValue_eq hX hX' lX, eq_iff_numeralValue_eq hY hY' lY,
    eq_iff_numeralValue_eq hZ hZ' lZ, if_true]
  split_ifs <;> simp_all

/-- The three asserts of the module, `parse_version('1.2.3') < parse_version('2.1.0')`,
`parse_version('1.2.3') < parse_version('1.2.4')` and `parse_version('1.1.0') <
parse_version('1.2.0')`, by the numeric order. -/
theorem versionLt_module_assert :
    versionLt ("1".toList ++ '.' :: "2".toList ++ '.' :: "3".toList)
        ("2".toList ++ '.' :: "1".toList ++ '.' :: "0".toList) = some true ∧
      versionLt ("1".toList ++ '.' :: "2".toList ++ '.' :: "3".toList)
        ("1".toList ++ '.' :: "2".toList ++ '.' :: "4".toList) = some true ∧
      versionLt ("1".toList ++ '.' :: "1".toList ++ '.' :: "0".toList)
        ("1".toList ++ '.' :: "2".toList ++ '.' :: "0".toList) = some true :=
  ⟨Eq.trans (versionLt_release (by decide) (by decide) (by decide) (by decide) (by decide)
      (by decide) rfl rfl rfl) (by decide),
    Eq.trans (versionLt_release (by decide) (by decide) (by decide) (by decide) (by decide)
      (by decide) rfl rfl rfl) (by decide),
    Eq.trans (versionLt_release (by decide) (by decide) (by decide) (by decide) (by decide)
      (by decide) rfl rfl rfl) (by decide)⟩

/-- `main` does not skip `2.3.0-rc1`, which comes before `2.3.0`, and skips `10.0.0`, which
comes after it. -/
theorem belowMinimum_rc1_and_ten :
    belowMinimum "2.3.0-rc1".toList = some false ∧ belowMinimum "10.0.0".toList = some true := by
  decide

end DevTools.Bwc

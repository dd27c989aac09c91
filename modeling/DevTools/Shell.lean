import Mathlib
import DevTools.PosixPath

/-!
# Words of a shell command line

`os.system(command)` and `subprocess.check_call(command, shell=True)` hand the string to
`/bin/sh -c`, which cuts it into words before running it. This file models that cut for command
lines made of plain characters and blanks: letters, digits and `-_./+:@%,` are read as
themselves wherever they stand in a word, and runs of blanks separate words. A line holding any
other character (a quote, `$`, `;`, a glob character, `=`, `~`, `#`, a newline, ...) is outside
the model (`shellWords` is `none`), since the shell may read it in other ways.

The laws used later cut a line word by word: a plain word followed by a blank is the first word
(`shellWords_word_blank`), leading blanks are skipped (`shellWords_blank`), and a plain word alone
is one word (`shellWords_word`). A word that starts with `-` is read by the programs here (`rm`,
`zip`, `find`) as an option or an expression, not as a path (`IsOptionWord`).
-/

namespace DevTools

/-- A character a POSIX shell reads as itself anywhere in an unquoted word. -/
def plainChar (c : Char) : Bool :=
  c.isAlphanum || c = '-' || c = '_' || c = '.' || c = '/' || c = '+' || c = ':' || c = '@' ||
    c = '%' || c = ','

/-- A blank, which separates words. -/
def blankChar (c : Char) : Bool := c = ' ' || c = '\t'

/-- The words the shell cuts a command line into, for a line of plain characters and blanks;
`none` for a line outside that part of the shell's language. -/
def shellWords (command : List Char) : Option (List (List Char)) :=
  if command.all fun c => plainChar c || blankChar c then
    some ((command.splitOnP blankChar).filter (· ≠ []))
  else none

/-- A text of plain characters only. -/
def IsPlain (s : List Char) : Prop := ∀ c ∈ s, plainChar c

instance : DecidablePred IsPlain := fun s => inferInstanceAs (Decidable (∀ c ∈ s, plainChar c))

/-- A word of plain characters only. -/
def IsPlainWord (w : List Char) : Prop := w ≠ [] ∧ IsPlain w

instance : DecidablePred IsPlainWord := fun w => inferInstanceAs (Decidable (w ≠ [] ∧ IsPlain w))

theorem blankChar_eq_false_of_plain {c : Char} (h : plainChar c) : blankChar c = false := by
  cases hb : blankChar c
  · rfl
  · simp only [blankChar, Bool.or_eq_true, decide_eq_true_eq] at hb
    rcases hb with rfl | rfl <;> exact absurd h (by decide)

theorem splitOnP_plain {w : List Char} (hw : ∀ c ∈ w, plainChar c) :
    w.splitOnP blankChar = [w] :=
  List.splitOnP_eq_single _ _ fun c hc => by simp [blankChar_eq_false_of_plain (hw c hc)]

theorem shellWords_word {w : List Char} (hw : IsPlainWord w) : shellWords w = some [w] := by
  have hall : (w.all fun c => plainChar c || blankChar c) = true :=
    List.all_eq_true.2 fun c hc => by simp [hw.2 c hc]
  simp [shellWords, hall, splitOnP_plain hw.2, hw.1]

theorem shellWords_blank (rest : List Char) : shellWords (' ' :: rest) = shellWords rest := by
  unfold shellWords
  have hb : blankChar ' ' = true := rfl
  simp [List.splitOnP_cons, hb]

theorem shellWords_word_blank {w : List Char} (hw : IsPlainWord w) (rest : List Char) :
    shellWords (w ++ ' ' :: rest) = (shellWords rest).map (w :: ·) := by
  have hwall : (w.all fun c => plainChar c || blankChar c) = true :=
    List.all_eq_true.2 fun c hc => by simp [hw.2 c hc]
  have hb : blankChar ' ' = true := rfl
  unfold shellWords
  rw [List.splitOnP_first blankChar w
    (fun c hc => by simp [blankChar_eq_false_of_plain (hw.2 c hc)]) ' ' hb]
  simp only [List.all_append, hwall, List.all_cons, hb, Bool.or_true, Bool.true_and]
  split_ifs <;> simp [hw.1]

/-! ## Plain paths

The path functions of `os.path` write only slashes, dots and characters of their arguments, so
they keep a path plain. -/

theorem isPlain_append {a b : List Char} (ha : IsPlain a) (hb : IsPlain b) : IsPlain (a ++ b) :=
  fun c hc => (List.mem_append.1 hc).elim (ha c) (hb c)

theorem isPlain_join {a b : List Char} (ha : IsPlain a) (hb : IsPlain b) : IsPlain (join a b) := by
  unfold join
  split_ifs
  · exact hb
  · exact isPlain_append ha hb
  · exact isPlain_append ha fun c hc => (List.mem_cons.1 hc).elim (· ▸ rfl) (hb c)

theorem isPlain_normpath {p : List Char} (hp : IsPlain p) : IsPlain (normpath p) := fun c hc => by
  rcases mem_normpath hc with rfl | rfl | hc
  · rfl
  · rfl
  · exact hp c hc

theorem isPlain_cwdPath {cwd : List (List Char)} (h : ∀ n ∈ cwd, IsPlain n) :
    IsPlain (cwdPath cwd) := fun c hc => by
  rcases List.mem_cons.1 hc with rfl | hc
  · rfl
  rcases mem_of_mem_intercalate hc with hc | ⟨n, hn, hcn⟩
  · exact List.mem_singleton.1 hc ▸ rfl
  · exact h n hn c hcn

theorem isPlain_abspath {cwd p : List Char} (hcwd : IsPlain cwd) (hp : IsPlain p) :
    IsPlain (abspath cwd p) := by
  unfold abspath
  split_ifs
  · exact isPlain_normpath hp
  · exact isPlain_normpath (isPlain_join hcwd hp)

/-! ## Operands -/

/-- A word the program reads as options: one that starts with `-`. -/
def IsOptionWord (word : List Char) : Prop := word.head? = some '-'

instance : DecidablePred IsOptionWord := fun word => inferInstanceAs (Decidable (word.head? = _))

theorem not_isOptionWord_of_isabs {p : List Char} (hp : isabs p) : ¬ IsOptionWord p := by
  rw [isabs, decide_eq_true_eq] at hp
  rw [IsOptionWord, hp]
  decide

/-- A relative path not read as options, joined to a directory not read as options, is not read
as options. -/
theorem not_isOptionWord_join {a b : List Char} (ha : ¬ IsOptionWord a) (hb : isabs b = false)
    (hb' : ¬ IsOptionWord b) : ¬ IsOptionWord (join a b) := by
  rw [IsOptionWord, head?_join a hb]
  split_ifs
  · exact hb'
  · exact ha

end DevTools

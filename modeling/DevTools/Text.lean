import Mathlib.Data.List.Infix

/-!
# Python strings

Both scripts work on `str` values; they are modelled as `List Char`. This file gives the string
operations the scripts call: `s.replace(old, new)` (`replace`), and the reading of a text file
opened with the default `newline=None`, which turns `\r\n` and a lone `\r` into `\n`
(`translateNewlines`) and yields the lines through their `\n` (`readLines`).

The main facts are that a replacement never straddles a character that the pattern does not
contain (`replace_append_cons`), so that replacing line by line is replacing in the whole text
(`flatten_map_replace`), and that a replacement by a longer text changes the string exactly when
the pattern occurs in it (`replace_eq_self_iff`).
-/

namespace DevTools

open List

/-! ## `str.replace` -/

/-- The left-to-right scan of `str.replace`; `skip` characters of the occurrence just replaced are
still to be passed over. -/
def replaceScan (old new : List Char) : Nat → List Char → List Char
  | _, [] => []
  | k + 1, _ :: s => replaceScan old new k s
  | 0, c :: s =>
    if old <+: c :: s then new ++ replaceScan old new (old.length - 1) s
    else c :: replaceScan old new 0 s

/-- `s.replace(old, new)`: every occurrence of `old`, found left to right and without overlaps, is
replaced by `new` (the scripts only replace non-empty patterns). -/
def replace (old new s : List Char) : List Char := replaceScan old new 0 s

section Replace

variable {old new : List Char}

theorem replaceScan_eq_replace_drop : ∀ (k : Nat) (s : List Char),
    replaceScan old new k s = replace old new (s.drop k)
  | 0, _ => rfl
  | _ + 1, [] => by simp [replaceScan, replace]
  | k + 1, _ :: s => by simp [replaceScan, replaceScan_eq_replace_drop k s]

@[simp] theorem replace_nil : replace old new [] = [] := by simp [replace, replaceScan]

theorem replace_cons_of_starts {c : Char} {s : List Char} (h0 : old ≠ []) (h : old <+: c :: s) :
    replace old new (c :: s) = new ++ replace old new ((c :: s).drop old.length) := by
  obtain ⟨n, hn⟩ := Nat.exists_eq_succ_of_ne_zero (List.length_pos.2 h0).ne'
  rw [replace, replaceScan, if_pos h, hn, Nat.succ_sub_one, replaceScan_eq_replace_drop]
  rfl

theorem replace_cons_of_not_starts {c : Char} {s : List Char} (h : ¬ old <+: c :: s) :
    replace old new (c :: s) = c :: replace old new s := by
  simp [replace, replaceScan, h]

/-- A pattern that does not contain `c` and is a prefix of `a ++ c :: b` is a prefix of `a`. -/
theorem prefix_append_cons_iff {c : Char} {a b : List Char} (hc : c ∉ old) :
    old <+: a ++ c :: b ↔ old <+: a := by
  refine ⟨fun ⟨t, ht⟩ => ?_, fun h => h.trans (prefix_append _ _)⟩
  rcases List.append_eq_append_iff.1 ht with ⟨a', rfl, -⟩ | ⟨c', rfl, hc'⟩
  · exact prefix_append _ _
  · cases c' with
    | nil => simp
    | cons x c' =>
      obtain ⟨rfl, -⟩ := List.cons_eq_cons.1 hc'
      exact absurd (List.mem_append_right a (List.mem_cons_self _ c')) hc

/-- No occurrence of a pattern straddles a character that the pattern does not contain. -/
theorem replace_append_cons {c : Char} {b : List Char} (h0 : old ≠ []) (hc : c ∉ old) :
    ∀ a : List Char, replace old new (a ++ c :: b) = replace old new (a ++ [c]) ++ replace old new b
  | [] => by
    have h1 : ¬ old <+: c :: b := fun h =>
      h0 (prefix_nil.1 ((prefix_append_cons_iff (a := []) hc).1 h))
    have h2 : ¬ old <+: [c] := fun h =>
      h0 (prefix_nil.1 ((prefix_append_cons_iff (a := []) (b := []) hc).1 h))
    simp [replace_cons_of_not_starts h1, replace_cons_of_not_starts h2]
  | x :: a => by
    have hb := prefix_append_cons_iff (a := x :: a) (b := b) hc
    have hn := prefix_append_cons_iff (a := x :: a) (b := []) hc
    simp only [cons_append] at hb hn ⊢
    by_cases hp : old <+: x :: a
    · have hle := hp.length_le
      have := List.length_pos.2 h0
      rw [replace_cons_of_starts h0 (hb.2 hp), replace_cons_of_starts h0 (hn.2 hp),
        ← cons_append, ← cons_append, drop_append_of_le_length hle, drop_append_of_le_length hle,
        replace_append_cons h0 hc ((x :: a).drop old.length), append_assoc]
    · rw [replace_cons_of_not_starts (mt hb.1 hp), replace_cons_of_not_starts (mt hn.1 hp),
        replace_append_cons h0 hc a, cons_append]
termination_by a => a.length

/-- Replacing line by line is replacing in the whole text, when every line but the last ends with
`\n` and the pattern contains no `\n`. -/
theorem flatten_map_replace (h0 : old ≠ []) (hn : '\n' ∉ old) :
    ∀ ls : List (List Char), (∀ l ∈ ls.dropLast, ∃ a, l = a ++ ['\n']) →
      (ls.map (replace old new)).flatten = replace old new ls.flatten
  | [], _ => by simp
  | [l], _ => by simp
  | l :: l' :: ls, h => by
    obtain ⟨a, rfl⟩ := h l (by simp)
    have ih := flatten_map_replace h0 hn (l' :: ls) fun m hm => h m (by simp_all)
    have e : ((a ++ ['\n']) :: l' :: ls).flatten = a ++ '\n' :: (l' :: ls).flatten := by simp
    rw [map_cons, flatten_cons, ih, e, replace_append_cons (b := (l' :: ls).flatten) h0 hn]

theorem replace_of_no_occurrence : ∀ {s : List Char}, ¬ old <:+: s → replace old new s = s
  | [], _ => replace_nil
  | c :: s, h => by
    rw [infix_cons_iff, not_or] at h
    rw [replace_cons_of_not_starts h.1, replace_of_no_occurrence h.2]

theorem length_le_length_replace (h0 : old ≠ []) (hl : old.length ≤ new.length) :
    ∀ s : List Char, s.length ≤ (replace old new s).length
  | [] => le_rfl
  | c :: s => by
    by_cases hp : old <+: c :: s
    · have := List.length_pos.2 h0
      have ih := length_le_length_replace h0 hl ((c :: s).drop old.length)
      rw [replace_cons_of_starts h0 hp, length_append]
      simp only [length_drop] at ih ⊢
      omega
    · have ih := length_le_length_replace h0 hl s
      rw [replace_cons_of_not_starts hp, length_cons, length_cons]
      omega
termination_by s => s.length

theorem length_lt_length_replace (h0 : old ≠ []) (hl : old.length < new.length) :
    ∀ {s : List Char}, old <:+: s → s.length < (replace old new s).length
  | [], h => absurd (List.eq_nil_of_infix_nil h) h0
  | c :: s, h => by
    by_cases hp : old <+: c :: s
    · have := hp.length_le
      have ih := length_le_length_replace h0 hl.le ((c :: s).drop old.length)
      rw [replace_cons_of_starts h0 hp, length_append]
      simp only [length_drop] at ih ⊢
      omega
    · have ih := length_lt_length_replace h0 hl ((infix_cons_iff.1 h).resolve_left hp)
      rw [replace_cons_of_not_starts hp, length_cons, length_cons]
      omega

/-- A replacement by a longer text leaves a string unchanged exactly when the pattern does not
occur in it. -/
theorem replace_eq_self_iff (h0 : old ≠ []) (hl : old.length < new.length) {s : List Char} :
    replace old new s = s ↔ ¬ old <:+: s :=
  ⟨fun h hi => (length_lt_length_replace h0 hl hi).ne (congrArg length h).symm,
    replace_of_no_occurrence⟩

theorem mem_of_mem_replace {x : Char} (h0 : old ≠ []) :
    ∀ {s : List Char}, x ∈ replace old new s → x ∈ s ∨ x ∈ new
  | [], h => by simp at h
  | c :: s, h => by
    by_cases hp : old <+: c :: s
    · have := List.length_pos.2 h0
      rw [replace_cons_of_starts h0 hp, mem_append] at h
      exact h.elim Or.inr fun h => (mem_of_mem_replace h0 h).imp (fun h => drop_subset _ _ h) id
    · rw [replace_cons_of_not_starts hp, mem_cons] at h
      exact h.elim (fun h => Or.inl (h ▸ mem_cons_self _ _))
        fun h => (mem_of_mem_replace h0 h).imp (mem_cons_of_mem c) id
termination_by s => s.length

end Replace

/-! ## Numerals -/

/-- A decimal numeral, as `\d+` matches it: a non-empty run of the digits `0`-`9`. -/
def IsNumeral (s : List Char) : Prop := s ≠ [] ∧ ∀ c ∈ s, c.isDigit

instance : DecidablePred IsNumeral := fun s => inferInstanceAs (Decidable (s ≠ [] ∧ ∀ c ∈ s, _))

/-! ## Reading a text file -/

/-- The decoding of a file opened in text mode with `newline=None`: `\r\n` and a lone `\r` are
read as `\n`. -/
def translateNewlines : List Char → List Char
  | [] => []
  | '\r' :: '\n' :: s => '\n' :: translateNewlines s
  | '\r' :: s => '\n' :: translateNewlines s
  | c :: s => c :: translateNewlines s

/-- `for line in file`: each line runs up to and including its `\n`; the last one may have none. -/
def readLines : List Char → List (List Char)
  | [] => []
  | c :: s =>
    if c = '\n' then [c] :: readLines s
    else match readLines s with
      | [] => [[c]]
      | l :: ls => (c :: l) :: ls

section Lines

theorem translateNewlines_cons_of_ne {c : Char} (s : List Char) (hc : c ≠ '\r') :
    translateNewlines (c :: s) = c :: translateNewlines s :=
  translateNewlines.eq_4 c s (fun _ h => absurd h hc) hc

theorem translateNewlines_cr_of_head {s : List Char} (hs : s.head? ≠ some '\n') :
    translateNewlines ('\r' :: s) = '\n' :: translateNewlines s :=
  translateNewlines.eq_3 s fun _ h => hs (by simp [h])

/-- Decoding splits at a boundary that is not followed by `\n`. -/
theorem translateNewlines_append {y : List Char} (hy : y.head? ≠ some '\n') (u : List Char) :
    translateNewlines (u ++ y) = translateNewlines u ++ translateNewlines y := by
  induction u using translateNewlines.induct with
  | case1 => rfl
  | case2 s ih => simp [translateNewlines, ih]
  | case3 s hs ih =>
    have h : (s ++ y).head? ≠ some '\n' := by
      cases s with
      | nil => simpa using hy
      | cons x s =>
        simp only [cons_append, head?_cons, ne_eq, Option.some.injEq]
        rintro rfl
        exact hs s rfl
    rw [cons_append, translateNewlines_cr_of_head h, ih, translateNewlines.eq_3 s hs]
    rfl
  | case4 c s _ hc ih =>
    rw [cons_append, translateNewlines_cons_of_ne _ hc, translateNewlines_cons_of_ne _ hc, ih]
    rfl

/-- Text without `\r` is read as it is. -/
theorem translateNewlines_append_left {y : List Char} :
    ∀ {u : List Char}, '\r' ∉ u → translateNewlines (u ++ y) = u ++ translateNewlines y
  | [], _ => rfl
  | c :: u, h => by
    rw [mem_cons, not_or] at h
    rw [cons_append, translateNewlines_cons_of_ne _ (Ne.symm h.1), translateNewlines_append_left h.2]
    rfl

theorem translateNewlines_of_not_mem {s : List Char} (h : '\r' ∉ s) : translateNewlines s = s := by
  simpa [translateNewlines] using translateNewlines_append_left (y := []) h

theorem eq_nil_of_prefix_newline {p t : List Char} (hn : '\n' ∉ p) (h : p <+: '\n' :: t) : p = [] := by
  cases p with
  | nil => rfl
  | cons x p =>
    obtain ⟨rfl, -⟩ := cons_prefix_cons.1 h
    exact absurd (mem_cons_self _ _) hn

theorem flatten_readLines : ∀ s : List Char, (readLines s).flatten = s
  | [] => rfl
  | c :: s => by
    have ih := flatten_readLines s
    by_cases hc : c = '\n'
    · simp [readLines, hc, ih]
    · simp only [readLines, if_neg hc]
      split <;> simp_all

/-- Every line but the last ends with `\n`. -/
theorem readLines_dropLast : ∀ (s : List Char), ∀ l ∈ (readLines s).dropLast, ∃ a, l = a ++ ['\n']
  | [], l, h => by simp [readLines] at h
  | c :: s, l, h => by
    have ih := readLines_dropLast s
    by_cases hc : c = '\n'
    · simp only [readLines, if_pos hc] at h
      cases hs : readLines s with
      | nil => simp [hs] at h
      | cons m ms =>
        rw [hs, dropLast_cons₂, mem_cons] at h
        exact h.elim (fun h => ⟨[], by simp [h, hc]⟩) fun h => ih l (hs ▸ h)
    · simp only [readLines, if_neg hc] at h
      cases hs : readLines s with
      | nil => simp [hs] at h
      | cons m ms =>
        rw [hs] at h ih
        cases ms with
        | nil => simp at h
        | cons m' ms =>
          rw [dropLast_cons₂, mem_cons] at h
          obtain ⟨a, rfl⟩ := ih m (by simp)
          exact h.elim (fun h => ⟨c :: a, by simp [h]⟩) fun h => ih l (by simp [h])

theorem not_mem_translateNewlines (s : List Char) : '\r' ∉ translateNewlines s := by
  induction s using translateNewlines.induct with
  | case1 => simp [translateNewlines]
  | case2 s ih => simpa [translateNewlines] using ih
  | case3 s hs ih => rw [translateNewlines.eq_3 s hs]; simpa using ih
  | case4 c s _ hc ih =>
    rw [translateNewlines_cons_of_ne _ hc, List.mem_cons, not_or]
    exact ⟨Ne.symm hc, ih⟩

theorem mem_of_mem_readLines {s line : List Char} (hl : line ∈ readLines s) {c : Char}
    (hc : c ∈ line) : c ∈ s := by
  rw [← flatten_readLines s]
  exact List.mem_flatten.2 ⟨line, hl, hc⟩

theorem readLines_of_not_mem : ∀ {s : List Char}, s ≠ [] → '\n' ∉ s → readLines s = [s]
  | [c], _, hn => by simp [readLines, Ne.symm (List.mem_singleton.not.1 hn)]
  | c :: c' :: s, _, hn => by
    rw [List.mem_cons, not_or] at hn
    rw [readLines, if_neg (Ne.symm hn.1), readLines_of_not_mem (List.cons_ne_nil c' s) hn.2]

variable {p : List Char} (hr : '\r' ∉ p) (hn : '\n' ∉ p)
include hr hn

theorem prefix_of_prefix_translateNewlines {t : List Char} (h : p <+: translateNewlines t) :
    p <+: t := by
  induction t using translateNewlines.induct generalizing p with
  | case1 => exact (prefix_nil.1 h) ▸ nil_prefix
  | case2 s _ =>
    rw [translateNewlines.eq_2] at h
    exact (eq_nil_of_prefix_newline hn h) ▸ nil_prefix
  | case3 s hs _ =>
    rw [translateNewlines.eq_3 s hs] at h
    exact (eq_nil_of_prefix_newline hn h) ▸ nil_prefix
  | case4 c s _ hc ih =>
    rw [translateNewlines_cons_of_ne _ hc] at h
    cases p with
    | nil => exact nil_prefix
    | cons x p =>
      obtain ⟨rfl, hp⟩ := cons_prefix_cons.1 h
      rw [mem_cons, not_or] at hr hn
      exact (prefix_cons_inj x).2 (ih hr.2 hn.2 hp)

theorem infix_of_infix_translateNewlines {t : List Char} (h0 : p ≠ [])
    (h : p <:+: translateNewlines t) : p <:+: t := by
  induction t using translateNewlines.induct with
  | case1 => exact absurd (eq_nil_of_infix_nil h) h0
  | case2 s ih =>
    rw [translateNewlines.eq_2, infix_cons_iff] at h
    exact h.elim (fun h => absurd (eq_nil_of_prefix_newline hn h) h0)
      fun h => infix_cons (infix_cons (ih h))
  | case3 s hs ih =>
    rw [translateNewlines.eq_3 s hs, infix_cons_iff] at h
    exact h.elim (fun h => absurd (eq_nil_of_prefix_newline hn h) h0) fun h => infix_cons (ih h)
  | case4 c s _ hc ih =>
    rw [translateNewlines_cons_of_ne _ hc, infix_cons_iff] at h
    rw [infix_cons_iff]
    exact h.imp (fun h => prefix_of_prefix_translateNewlines hr hn (t := c :: s)
      (by rwa [translateNewlines_cons_of_ne _ hc])) ih

/-- A pattern without line breaks occurs in the decoded text exactly when it occurs in the file. -/
theorem infix_translateNewlines_iff {t : List Char} (h0 : p ≠ []) :
    p <:+: translateNewlines t ↔ p <:+: t := by
  refine ⟨infix_of_infix_translateNewlines hr hn h0, fun ⟨u, w, hw⟩ => ?_⟩
  have hy : (p ++ w).head? ≠ some '\n' := by
    obtain ⟨x, p, rfl⟩ := List.exists_cons_of_ne_nil h0
    simp only [cons_append, head?_cons, ne_eq, Option.some.injEq]
    rintro rfl
    exact hn (mem_cons_self _ _)
  rw [← hw, append_assoc, translateNewlines_append hy, translateNewlines_append_left hr,
    ← append_assoc]
  exact infix_append _ _ _

end Lines

end DevTools

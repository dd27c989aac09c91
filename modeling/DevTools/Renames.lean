import Mathlib
import DevTools.Fs

/-!
# Renaming files one after the other

Both ways the release script renames the local maven metadata files end in a sequence of
`rename(2)` calls on files. This file says once what such a sequence does. `renameAll fs tgt srcs`
renames every file `e` of `srcs` to `tgt e` at once: the entries at the targets are gone, and each
renamed file keeps its place in the list of entries. It reads `srcs` only through its members
(`renameAll_congr`), so it does not depend on an order.

The renames form a `Batch` when each source is a file, its target is a name in the same directory
where no directory is, no two sources share a target and no target is a source. Then the renames
leave every directory as it was (`isDir_renameAll`), so the kernel finds every path of a directory
and every source still to be renamed where it found them first (`lookup_of_isDir_eq`,
`createTarget_of_isDir_eq`), and each `rename(2)` adds one file to those renamed at once
(`rename_renameAll`). Renaming the files of a batch one after the other, in any order, is
therefore renaming them at once (`foldlM_rename`), and the tree stays well formed
(`wf_renameAll`).
-/

namespace DevTools.Fs

/-- The file system once each file `e` of `srcs` is renamed `tgt e`, all at once. -/
def renameAll (fs : Fs) (tgt : List (List Char) → List (List Char))
    (srcs : List (List (List Char))) : Fs :=
  ⟨(fs.entries.filter fun x => x.1 ∉ srcs.map tgt).map fun x =>
    (if x.1 ∈ srcs then tgt x.1 else x.1, x.2)⟩

/-- Renames of files that give the same file system in any order. -/
structure Batch (fs : Fs) (tgt : List (List Char) → List (List Char))
    (srcs : List (List (List Char))) : Prop where
  file : ∀ e ∈ srcs, (e, Kind.file) ∈ fs.entries
  sibling : ∀ e ∈ srcs, ∃ n, IsName n ∧ tgt e = e.dropLast ++ [n]
  not_dir : ∀ e ∈ srcs, (tgt e, Kind.dir) ∉ fs.entries
  inj : ∀ e ∈ srcs, ∀ e' ∈ srcs, tgt e = tgt e' → e = e'
  fresh : ∀ e ∈ srcs, tgt e ∉ srcs

variable {fs : Fs} {tgt : List (List Char) → List (List Char)} {S : List (List (List Char))}

theorem Batch.mono (hB : Batch fs tgt S) {S' : List (List (List Char))} (h : S' ⊆ S) :
    Batch fs tgt S' where
  file e he := hB.file e (h he)
  sibling e he := hB.sibling e (h he)
  not_dir e he := hB.not_dir e (h he)
  inj e he e' he' := hB.inj e (h he) e' (h he')
  fresh e he ht := hB.fresh e (h he) (h ht)

@[simp] theorem renameAll_nil : fs.renameAll tgt [] = fs := by
  simp [renameAll]

theorem renameAll_congr {S' : List (List (List Char))} (hS : ∀ e, e ∈ S ↔ e ∈ S') :
    fs.renameAll tgt S = fs.renameAll tgt S' := by
  simp only [renameAll, List.mem_map, hS]

/-! ## The entries after the renames -/

theorem mem_renameAll (hB : Batch fs tgt S) {y : List (List Char)} {k : Kind} :
    (y, k) ∈ (fs.renameAll tgt S).entries ↔
      (∃ e ∈ S, y = tgt e ∧ (e, k) ∈ fs.entries) ∨
        ((y, k) ∈ fs.entries ∧ y ∉ S ∧ y ∉ S.map tgt) := by
  have hfresh : ∀ e ∈ S, e ∉ S.map tgt := fun e he hm => by
    obtain ⟨e', he', rfl⟩ := List.mem_map.1 hm
    exact hB.fresh e' he' he
  simp only [renameAll, List.mem_map, List.mem_filter, decide_eq_true_eq, Prod.mk.injEq]
  constructor
  · rintro ⟨⟨x, k'⟩, ⟨hx, hxt⟩, hy, rfl⟩
    dsimp only at hy hxt
    split_ifs at hy with hxS
    · exact .inl ⟨x, hxS, hy.symm, hx⟩
    · subst hy
      exact .inr ⟨hx, hxS, hxt⟩
  · rintro (⟨e, he, rfl, hek⟩ | ⟨hy, hyS, hyt⟩)
    · exact ⟨(e, k), ⟨hek, fun hm => hfresh e he (List.mem_map.2 hm)⟩, by simp [he]⟩
    · exact ⟨(y, k), ⟨hy, hyt⟩, by simp [hyS]⟩

theorem nodup_renameAll (h : fs.WF) (hB : Batch fs tgt S) :
    ((fs.renameAll tgt S).entries.map Prod.fst).Nodup := by
  have hnd : (fs.entries.filter fun x => x.1 ∉ S.map tgt).Nodup :=
    (h.nodup.of_map _).sublist (List.filter_sublist _)
  rw [renameAll, List.map_map]
  refine hnd.map_on fun x hx x' hx' hxx => ?_
  rw [List.mem_filter, decide_eq_true_eq] at hx hx'
  have hfst : x.1 = x'.1 := by
    simp only [Function.comp_apply] at hxx
    split_ifs at hxx with h1 h2 h2
    · exact hB.inj _ h1 _ h2 hxx
    · exact absurd (List.mem_map_of_mem tgt h1) (hxx ▸ hx'.2)
    · exact absurd (List.mem_map_of_mem tgt h2) (hxx ▸ hx.2)
    · exact hxx
  exact List.inj_on_of_nodup_map h.nodup hx.1 hx'.1 hfst

/-- The renames leave every directory as it was. -/
theorem isDir_renameAll (h : fs.WF) (hB : Batch fs tgt S) (y : List (List Char)) :
    (fs.renameAll tgt S).isDir y = fs.isDir y := by
  rcases eq_or_ne y [] with rfl | hy
  · rfl
  simp only [isDir, decide_eq_decide, kind?_eq_some_iff (nodup_renameAll h hB) hy,
    kind?_eq_some_iff h.nodup hy, mem_renameAll hB]
  constructor
  · rintro (⟨e, he, rfl, hed⟩ | ⟨hy, -, -⟩)
    · exact absurd (kind_eq_of_mem h.nodup (hB.file e he) hed) (by decide)
    · exact hy
  · intro hy'
    refine .inr ⟨hy', fun hyS => absurd (kind_eq_of_mem h.nodup (hB.file y hyS) hy') (by decide),
      fun hyt => ?_⟩
    obtain ⟨e, he, rfl⟩ := List.mem_map.1 hyt
    exact hB.not_dir e he hy'

/-- A batch of renames keeps the tree well formed. -/
theorem wf_renameAll (h : fs.WF) (hB : Batch fs tgt S) : (fs.renameAll tgt S).WF where
  nodup := nodup_renameAll h hB
  names x hx := by
    obtain ⟨y, k⟩ := x
    rcases (mem_renameAll hB).1 hx with ⟨e, he, rfl, hek⟩ | ⟨hy, -, -⟩
    · obtain ⟨n, hn, ht⟩ := hB.sibling e he
      intro m hm
      rw [ht, List.mem_append, List.mem_singleton] at hm
      exact hm.elim (fun hm => h.names _ hek m (List.mem_of_mem_dropLast hm)) fun hm => hm ▸ hn
    · exact h.names _ hy
  parent x hx := by
    obtain ⟨y, k⟩ := x
    rw [isDir_renameAll h hB]
    rcases (mem_renameAll hB).1 hx with ⟨e, he, rfl, hek⟩ | ⟨hy, -, -⟩
    · obtain ⟨n, -, ht⟩ := hB.sibling e he
      rw [ht, List.dropLast_concat]
      exact ⟨by simp, (h.parent _ hek).2⟩
    · exact h.parent _ hy

theorem childOf_eq_none {E y : List (List Char)} (hy : y.dropLast ≠ E) : childOf E y = none := by
  cases hc : childOf E y with
  | none => rfl
  | some n => exact absurd (by rw [childOf_eq_some.1 hc, List.dropLast_concat]) hy

/-- A directory that holds none of the renamed files lists the same names. -/
theorem names_renameAll (hB : Batch fs tgt S) {E : List (List Char)}
    (hS : ∀ e ∈ S, e.dropLast ≠ E) (b : Bool) : (fs.renameAll tgt S).names E b = fs.names E b := by
  have h1 : ∀ y ∈ S, childOf E y = none := fun y hy => childOf_eq_none (hS y hy)
  have h2 : ∀ y ∈ S, childOf E (tgt y) = none := fun y hy => childOf_eq_none <| by
    obtain ⟨n, -, ht⟩ := hB.sibling y hy
    rw [ht, List.dropLast_concat]
    exact hS y hy
  simp only [names, renameAll, List.filter_map, List.filterMap_map, List.filter_filter,
    List.filterMap_filter]
  congr 1
  funext x
  by_cases hxS : x.1 ∈ S
  · simp [hxS, h1 _ hxS, h2 _ hxS]
  · by_cases hxt : x.1 ∈ S.map tgt
    · obtain ⟨y, hy, hyx⟩ := List.mem_map.1 hxt
      have hc : childOf E x.1 = none := hyx ▸ h2 y hy
      simp [hxS, hxt, hc]
    · simp [hxS, hxt]

/-! ## The kernel's lookups only read the directories -/

section Lookups

variable {fs' : Fs} (hdir : ∀ y, fs'.isDir y = fs.isDir y)
include hdir

theorem osWalk_of_isDir_eq : ∀ (cs : List (List Char)) {cur e : List (List Char)},
    fs.osWalk cur cs = some e → fs'.kind? e ≠ none → fs'.osWalk cur cs = some e
  | [], _, _, h, _ => h
  | c :: cs, cur, e, h, he => by
    unfold osWalk at h ⊢
    rw [hdir]
    split_ifs at h ⊢
    · exact osWalk_of_isDir_eq cs h he
    · exact osWalk_of_isDir_eq cs h he
    · obtain ⟨_, -, rfl⟩ := Option.map_eq_some'.1 h
      obtain ⟨k, hk⟩ := Option.ne_none_iff_exists'.1 he
      simp [hk]
    · exact osWalk_of_isDir_eq cs h he

theorem lookup_of_isDir_eq {cwd : List (List Char)} {p : List Char} {e : List (List Char)}
    (h : fs.lookup cwd p = some e) (he : fs'.kind? e ≠ none) : fs'.lookup cwd p = some e := by
  unfold lookup at h ⊢
  split_ifs at h ⊢ <;> exact osWalk_of_isDir_eq hdir _ h he

theorem kind?_ne_none_of_isDir {e : List (List Char)} (he : fs.isDir e) : fs'.kind? e ≠ none := by
  have : fs'.kind? e = some .dir := by simpa [isDir] using (hdir e).trans he
  simp [this]

theorem createTarget_of_isDir_eq {cwd : List (List Char)} {p : List Char} {t : List (List Char)}
    (h : fs.createTarget cwd p = some t) : fs'.createTarget cwd p = some t := by
  unfold createTarget at h ⊢
  generalize split p = q at h ⊢
  obtain ⟨dir, name⟩ := q
  dsimp only at h ⊢
  split_ifs at h ⊢ with hn hd
  · simpa [hdir] using h
  · cases hl : fs.lookup cwd dir with
    | none => simp [hl] at h
    | some E =>
      rw [hl] at h
      dsimp only at h
      split_ifs at h with hE
      rw [lookup_of_isDir_eq hdir hl (kind?_ne_none_of_isDir hdir hE)]
      dsimp only
      rw [hdir, if_pos hE]
      exact h

end Lookups

theorem pathIsDir_of_isDir_eq {fs' : Fs} (hdir : ∀ y, fs'.isDir y = fs.isDir y)
    (cwd : List (List Char)) (p : List Char) : fs'.pathIsDir cwd p = fs.pathIsDir cwd p := by
  have key : ∀ {f g : Fs}, (∀ y, g.isDir y = f.isDir y) →
      f.pathIsDir cwd p = true → g.pathIsDir cwd p = true := by
    intro f g hfg hp
    unfold pathIsDir at hp ⊢
    split at hp
    · rename_i e he
      rw [lookup_of_isDir_eq hfg he (kind?_ne_none_of_isDir hfg hp)]
      dsimp only
      rw [hfg]
      exact hp
    · cases hp
  exact Bool.eq_iff_iff.2 ⟨key fun y => (hdir y).symm, key hdir⟩

/-! ## One rename more -/

theorem map_filter_congr {α β : Type} {l : List α} {p q : α → Bool} {f g : α → β}
    (hpq : ∀ x ∈ l, p x = q x) (hfg : ∀ x ∈ l, q x → f x = g x) :
    (l.filter p).map f = (l.filter q).map g := by
  rw [List.filter_congr hpq]
  exact List.map_congr_left fun x hx => hfg x (List.mem_filter.1 hx).1 (List.mem_filter.1 hx).2

section Step

variable {e : List (List Char)}

theorem moveTree_renameAll (h : fs.WF) (hB : Batch fs tgt (S ++ [e])) (he : e ∉ S) :
    (fs.renameAll tgt S).moveTree e (tgt e) = fs.renameAll tgt (S ++ [e]) := by
  have hmem : e ∈ S ++ [e] := by simp
  have hf := hB.file e hmem
  have hS : ∀ x ∈ S, x ∈ S ++ [e] := fun x hx => by simp [hx]
  -- a renamed file or an entry left alone lies under `e` only if it is `e`
  have hunder : ∀ x ∈ fs.entries, e <+: (if x.1 ∈ S then tgt x.1 else x.1) → x.1 = e := by
    intro x hx hp
    split_ifs at hp with hxS
    · obtain ⟨n, -, ht⟩ := hB.sibling _ (hS _ hxS)
      have hpar : fs.isDir (tgt x.1).dropLast := by
        rw [ht, List.dropLast_concat]
        exact (h.parent x hx).2
      exact absurd (eq_of_prefix_of_file h hf hp hpar ▸ hmem) (hB.fresh _ (hS _ hxS))
    · exact eq_of_prefix_of_file h hf hp (h.parent x hx).2
  simp only [moveTree, renameAll, List.filter_map, List.filter_filter, List.map_map, mk.injEq]
  refine map_filter_congr (fun x hx => ?_) (fun x hx _ => ?_)
  · simp only [Function.comp_apply, List.map_append, List.mem_append, List.map_cons, List.map_nil,
      List.mem_singleton, not_or]
    by_cases hxS : x.1 ∈ S
    · have h1 : tgt x.1 ≠ tgt e := fun h' => he (hB.inj _ (hS _ hxS) _ hmem h' ▸ hxS)
      have h2 : x.1 ≠ tgt e := fun h' => hB.fresh _ hmem (h' ▸ hS _ hxS)
      simp [hxS, h1, h2]
    · simp [hxS, Bool.and_comm]
  · by_cases hxe : x.1 = e
    · simp [hxe, he]
    · have hnp : ¬ e <+: (if x.1 ∈ S then tgt x.1 else x.1) := fun hp => hxe (hunder x hx hp)
      simp only [Function.comp_apply, if_neg hnp]
      simp [hxe]

/-- One `rename(2)` of the next file of a batch, from the tree where the files before it are
renamed. -/
theorem rename_renameAll (h : fs.WF) (hB : Batch fs tgt (S ++ [e])) (he : e ∉ S)
    {cwd : List (List Char)} {src dst : List Char} (hsrc : fs.lookup cwd src = some e)
    (hdst : fs.createTarget cwd dst = some (tgt e)) :
    (fs.renameAll tgt S).rename cwd src dst = some (fs.renameAll tgt (S ++ [e])) := by
  have hmem : e ∈ S ++ [e] := by simp
  have hS : Batch fs tgt S := hB.mono fun x hx => by simp [hx]
  have hnd := nodup_renameAll h hS
  have hf := hB.file e hmem
  have hne : e ≠ [] := (h.parent _ hf).1
  have hkind : (fs.renameAll tgt S).kind? e = some .file :=
    (kind?_eq_some_iff hnd hne).2 ((mem_renameAll hS).2 (.inr ⟨hf, he, fun hm => by
      obtain ⟨e', he', hee⟩ := List.mem_map.1 hm
      exact hB.fresh e' (by simp [he']) (hee ▸ hmem)⟩))
  obtain ⟨n, -, ht⟩ := hB.sibling e hmem
  have htne : tgt e ≠ [] := by simp [ht]
  have het : e ≠ tgt e := fun h' => hB.fresh e hmem (h' ▸ hmem)
  have hnp : ¬ e <+: tgt e := fun hp => het (eq_of_prefix_of_file h hf hp (by
    rw [ht, List.dropLast_concat]
    exact (h.parent _ hf).2)).symm
  have htk : (fs.renameAll tgt S).kind? (tgt e) ≠ some .dir := fun hk => by
    rcases (mem_renameAll hS).1 ((kind?_eq_some_iff hnd htne).1 hk) with
      ⟨e', he', hee, -⟩ | ⟨hd, -, -⟩
    · exact he (hB.inj e hmem e' (by simp [he']) hee ▸ he')
    · exact hB.not_dir e hmem hd
  have hdir := isDir_renameAll h hS
  unfold rename
  rw [lookup_of_isDir_eq hdir hsrc (by simp [hkind]), createTarget_of_isDir_eq hdir hdst]
  dsimp only
  rw [if_neg het, if_neg (by simp [hne, hnp]), hkind, ← moveTree_renameAll h hB he]
  cases hk : (fs.renameAll tgt S).kind? (tgt e) with
  | none => rfl
  | some k => cases k <;> simp_all

end Step

/-- Renaming the files of a batch one after the other, in the order of `L`, from the tree where
the files of `S` are renamed, renames them all. -/
theorem foldlM_rename {α : Type} (h : fs.WF) {cwd : List (List Char)} (src dst : α → List Char)
    (ent : α → List (List Char)) :
    ∀ (L : List α) (S : List (List (List Char))), Batch fs tgt (S ++ L.map ent) →
      (S ++ L.map ent).Nodup →
      (∀ a ∈ L, fs.lookup cwd (src a) = some (ent a) ∧
        fs.createTarget cwd (dst a) = some (tgt (ent a))) →
      L.foldlM (fun fs' a => fs'.rename cwd (src a) (dst a)) (fs.renameAll tgt S) =
        some (fs.renameAll tgt (S ++ L.map ent))
  | [], S, _, _, _ => by simp
  | a :: L, S, hB, hnd, hL => by
    have hB' : Batch fs tgt ((S ++ [ent a]) ++ L.map ent) := by simpa using hB
    have hnd' : ((S ++ [ent a]) ++ L.map ent).Nodup := by simpa using hnd
    have he : ent a ∉ S := fun he => by
      simp only [List.map_cons, List.nodup_append, List.nodup_cons] at hnd
      exact hnd.2.2 he (List.mem_cons_self _ _)
    obtain ⟨hsrc, hdst⟩ := hL a (List.mem_cons_self a L)
    rw [List.foldlM_cons, rename_renameAll h (hB'.mono (List.subset_append_left _ _)) he hsrc hdst]
    simpa using foldlM_rename h src dst ent L (S ++ [ent a]) hB' hnd'
      fun b hb => hL b (List.mem_cons_of_mem a hb)

end DevTools.Fs

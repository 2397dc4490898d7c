import CircuitDocs.Proofs.Disk.Listing

/-! # What a search comes to

A search lists a directory and then those that it enters from there. Its queue stands for all
directories that are listed in this way: listing the first one and putting its directories at the
end loses none of them. The loop gives their files, or ends at an entry of one of them.
-/

namespace CircuitDocs.Search

variable {s : Search} {f g k : Folder} {queue : List Folder} {names : List Text} {n : Text}
  {l : Listing}

/-! ## One directory -/

theorem Folder.mem_children : n ∈ f.children ↔ (f.entries.find? n).isSome = true := by
  rw [children, (perm_orderNames _).mem_iff, Listing.mem_names_iff]

theorem Folder.nodup_children (h : f.entries.distinct = true) : f.children.Nodup :=
  (perm_orderNames _).nodup_iff.mpr (Listing.nodup_names h)

theorem mem_filesIn :
    names ∈ s.filesIn f ↔ ∃ n ∈ f.children, f.entries.enter? n = none ∧
      s.finds f.names n = true ∧ f.names ++ [n] = names := by
  simp [filesIn, and_assoc]

theorem mem_foldersIn :
    g ∈ s.foldersIn f ↔ ∃ n inner, f.entries.enter? n = some inner ∧
      s.enters f.names n = true ∧ g = ⟨f.names ++ [n], inner⟩ := by
  rw [foldersIn, List.mem_filterMap]
  constructor
  · rintro ⟨n, -, h⟩
    split at h
    · rename_i henters
      obtain ⟨inner, hinner, rfl⟩ := Option.map_eq_some_iff.mp h
      exact ⟨n, inner, hinner, henters, rfl⟩
    · simp at h
  · rintro ⟨n, inner, hinner, henters, rfl⟩
    refine ⟨n, Folder.mem_children.mpr (Listing.exists_find?_of_enter? hinner).1, ?_⟩
    rw [if_pos henters, hinner]
    rfl

theorem halt?_eq_none_iff :
    s.halt? f = none ↔ ∀ n ∈ f.children, s.refusal? (f.names ++ [n]) = none := by
  simp [halt?]

theorem exists_of_halt? {halt : Halt} (h : s.halt? f = some halt) :
    ∃ n ∈ f.children, halt.names = f.names ++ [n] ∧ s.refusal? halt.names = some halt.cause := by
  obtain ⟨n, hn, hmap⟩ := List.exists_of_findSome?_eq_some h
  obtain ⟨cause, hcause, rfl⟩ := Option.map_eq_some_iff.mp hmap
  exact ⟨n, hn, rfl, hcause⟩

/-! ## All directories of a queue -/

/-- Whether a search that begins at a directory comes to list another one. -/
inductive Visits (s : Search) : Folder → Folder → Prop where
  | here {f : Folder} (h : s.listable f.names = true) : Visits s f f
  | inside {f g k : Folder} (h : s.listable f.names = true) (hg : g ∈ s.foldersIn f)
      (hk : Visits s g k) : Visits s f k

theorem Visits.listable (h : s.Visits f k) : s.listable f.names = true := by
  cases h with
  | here h => exact h
  | inside h _ _ => exact h

theorem Visits.names_prefix (h : s.Visits f k) : f.names <+: k.names := by
  induction h with
  | here => exact List.prefix_refl _
  | inside _ hg _ ih =>
    obtain ⟨n, inner, -, -, rfl⟩ := mem_foldersIn.mp hg
    exact (List.prefix_append _ _).trans ih

theorem Visits.concat (h : s.Visits f k) (hg : g ∈ s.foldersIn k)
    (hlist : s.listable g.names = true) : s.Visits f g := by
  induction h with
  | here h => exact .inside h hg (.here hlist)
  | inside h hg' _ ih => exact .inside h hg' (ih hg)

/-- Whether one of the directories that a queue stands for satisfies a condition. -/
def Awaits (s : Search) (queue : List Folder) (P : Folder → Prop) : Prop :=
  ∃ f ∈ queue, ∃ k, s.Visits f k ∧ P k

variable {P : Folder → Prop}

theorem not_awaits_nil : ¬ s.Awaits [] P := by
  rintro ⟨f, hf, -⟩
  simp at hf

theorem awaits_cons (h : s.listable f.names = true) :
    s.Awaits (f :: queue) P ↔ P f ∨ s.Awaits (queue ++ s.foldersIn f) P := by
  constructor
  · rintro ⟨g, hg, k, hvisits, hk⟩
    rcases List.mem_cons.mp hg with rfl | hg
    · cases hvisits with
      | here => exact Or.inl hk
      | inside _ hg hvisits => exact Or.inr ⟨_, List.mem_append_right _ hg, k, hvisits, hk⟩
    · exact Or.inr ⟨g, List.mem_append_left _ hg, k, hvisits, hk⟩
  · rintro (hf | ⟨g, hg, k, hvisits, hk⟩)
    · exact ⟨f, .head _, f, .here h, hf⟩
    · rcases List.mem_append.mp hg with hg | hg
      · exact ⟨g, .tail _ hg, k, hvisits, hk⟩
      · exact ⟨f, .head _, k, .inside h hg hvisits, hk⟩

theorem awaits_cons_of_not_listable (h : ¬ s.listable f.names = true) :
    s.Awaits (f :: queue) P ↔ s.Awaits queue P := by
  constructor
  · rintro ⟨g, hg, k, hvisits, hk⟩
    rcases List.mem_cons.mp hg with rfl | hg
    · exact absurd hvisits.listable h
    · exact ⟨g, hg, k, hvisits, hk⟩
  · rintro ⟨g, hg, k, hvisits, hk⟩
    exact ⟨g, .tail _ hg, k, hvisits, hk⟩

/-- The loop gives the files of the directories that its queue stands for, none of which has an
entry that ends the search; or it ends at one that has. -/
theorem loop_cases (s : Search) (queue : List Folder) :
    (∃ files, s.loop queue = .ok files ∧ ¬ s.Awaits queue (fun k => s.halt? k ≠ none) ∧
        ∀ names, names ∈ files ↔ s.Awaits queue fun k => names ∈ s.filesIn k) ∨
      ∃ halt, s.loop queue = .error halt ∧ s.Awaits queue fun k => s.halt? k = some halt := by
  fun_induction loop s queue with
  | case1 => exact Or.inl ⟨[], rfl, not_awaits_nil, by simp [not_awaits_nil]⟩
  | case2 folder queue hlist halt hhalt =>
    exact Or.inr ⟨halt, rfl, (awaits_cons hlist).mpr (Or.inl hhalt)⟩
  | case3 folder queue hlist hhalt ih =>
    rcases ih with ⟨files, hfiles, hnone, hmem⟩ | ⟨halt, hloop, hawaits⟩
    · refine Or.inl ⟨s.filesIn folder ++ files, by rw [hfiles]; rfl, ?_, fun names => ?_⟩
      · rw [awaits_cons hlist, not_or]
        exact ⟨not_not.mpr hhalt, hnone⟩
      · rw [List.mem_append, hmem, awaits_cons hlist]
    · exact Or.inr ⟨halt, by rw [hloop]; rfl, (awaits_cons hlist).mpr (Or.inr hawaits)⟩
  | case4 folder queue hlist ih =>
    simp only [awaits_cons_of_not_listable hlist]
    exact ih

theorem mem_of_loop {files : List (List Text)} (h : s.loop queue = .ok files) :
    names ∈ files ↔ s.Awaits queue fun k => names ∈ s.filesIn k := by
  rcases loop_cases s queue with ⟨files', hfiles, -, hmem⟩ | ⟨halt, hloop, -⟩
  · exact Except.ok.inj (h.symm.trans hfiles) ▸ hmem names
  · simp [h] at hloop

/-! ## Every file once -/

/-- Whether neither of two directories is above the other. -/
def Folder.Apart (f g : Folder) : Prop := ¬ f.names <+: g.names ∧ ¬ g.names <+: f.names

theorem Folder.Apart.symm (h : f.Apart g) : g.Apart f := And.symm h

theorem Folder.Apart.below (h : f.Apart g) (hk : k ∈ s.foldersIn f) : k.Apart g := by
  obtain ⟨n, inner, -, -, rfl⟩ := mem_foldersIn.mp hk
  refine ⟨fun hkg => h.1 ((List.prefix_append _ _).trans hkg), fun hgk => ?_⟩
  rcases List.prefix_concat_iff.mp hgk with he | hgf
  · exact h.1 (he ▸ List.prefix_append _ _)
  · exact h.2 hgf

theorem pairwise_foldersIn (h : f.entries.distinct = true) :
    (s.foldersIn f).Pairwise Folder.Apart := by
  refine List.pairwise_filterMap.mpr ((Folder.nodup_children h).imp ?_)
  intro n m hnm k hk k' hk'
  have hname : ∀ {n : Text} {k : Folder}, (if s.enters f.names n then
      (f.entries.enter? n).map (⟨f.names ++ [n], ·⟩) else none) = some k →
      k.names = f.names ++ [n] := by
    intro n k hk
    split at hk
    · obtain ⟨inner, -, rfl⟩ := Option.map_eq_some_iff.mp hk
      rfl
    · simp at hk
  rw [Folder.Apart, hname hk, hname hk']
  simp [hnm, Ne.symm hnm]

theorem distinct_of_mem_foldersIn (h : f.entries.distinct = true) (hg : g ∈ s.foldersIn f) :
    g.entries.distinct = true := by
  obtain ⟨n, inner, hinner, -, rfl⟩ := mem_foldersIn.mp hg
  obtain ⟨-, m, hm⟩ := Listing.exists_find?_of_enter? hinner
  exact Listing.distinct_of_find? h hm

theorem not_awaits_filesIn (hqueue : ∀ g ∈ queue, f.Apart g) (h : names ∈ s.filesIn f) :
    ¬ s.Awaits (queue ++ s.foldersIn f) fun k => names ∈ s.filesIn k := by
  rintro ⟨g, hg, k, hvisits, hk⟩
  obtain ⟨n, -, -, -, rfl⟩ := mem_filesIn.mp h
  obtain ⟨m, -, -, -, he⟩ := mem_filesIn.mp hk
  have hprefix : g.names <+: f.names := List.append_inj_left' he rfl ▸ hvisits.names_prefix
  rcases List.mem_append.mp hg with hg | hg
  · exact (hqueue g hg).2 hprefix
  · obtain ⟨j, inner, -, -, rfl⟩ := mem_foldersIn.mp hg
    have hlength := hprefix.length_le
    rw [List.length_append, List.length_singleton] at hlength
    omega

theorem nodup_filesIn (h : f.entries.distinct = true) : (s.filesIn f).Nodup := by
  refine ((Folder.nodup_children h).filter _).map fun n m he => ?_
  exact List.singleton_inj.mp (List.append_cancel_left he)

theorem nodup_of_loop {files : List (List Text)} (h : s.loop queue = .ok files)
    (hqueue : queue.Pairwise Folder.Apart) (hdistinct : ∀ f ∈ queue, f.entries.distinct = true) :
    files.Nodup := by
  fun_induction loop s queue generalizing files with
  | case1 => exact Except.ok.inj h ▸ List.nodup_nil
  | case2 => simp at h
  | case3 folder queue hlist hhalt ih =>
    rw [List.pairwise_cons] at hqueue
    rw [List.forall_mem_cons] at hdistinct
    cases hloop : s.loop (queue ++ s.foldersIn folder) with
    | error halt => simp [hloop, Except.map] at h
    | ok files' =>
      rw [hloop] at h
      obtain rfl := Except.ok.inj h
      have hrest : files'.Nodup := by
        refine ih hloop ?_ ?_
        · rw [List.pairwise_append]
          refine ⟨hqueue.2, pairwise_foldersIn hdistinct.1, fun g hg k hk => ?_⟩
          exact ((hqueue.1 g hg).below hk).symm
        · intro g hg
          rcases List.mem_append.mp hg with hg | hg
          · exact hdistinct.2 g hg
          · exact distinct_of_mem_foldersIn hdistinct.1 hg
      refine (nodup_filesIn hdistinct.1).append hrest fun names hn hn' => ?_
      exact not_awaits_filesIn hqueue.1 hn ((mem_of_loop hloop).mp hn')
  | case4 folder queue hlist ih =>
    exact ih h hqueue.of_cons fun f hf => hdistinct f (.tail _ hf)

end CircuitDocs.Search

import Mathlib.Data.List.Induction
import CircuitDocs.Proofs.Disk.Reordering
import CircuitDocs.Proofs.Disk.Search

/-! # Discovery is exact

A search of a tree comes to the directories that can be listed, are not ignored and are not called
`.git`. It gives the source files in them that are not ignored, each once and in order, whatever
the patterns and the order of the entries. It has no result exactly when the system does not tell
what one of the entries in these directories is.
-/

namespace CircuitDocs

open Text

theorem Path.isSource_iff {name : Text} :
    Path.isSource name = true ↔ ∃ stem, stem ≠ [] ∧ name = stem ++ ".compact".toList := by
  have hbefore : ∀ stem, before? ".compact".toList name = some stem ↔
      name = stem ++ ".compact".toList := by
    intro stem
    rw [before?, Option.map_eq_some_iff]
    constructor
    · rintro ⟨t, ht, rfl⟩
      rw [after?_eq_some_iff] at ht
      rw [← List.reverse_reverse name, ht, List.reverse_append, List.reverse_reverse]
    · rintro rfl
      exact ⟨stem.reverse, after?_eq_some_iff.mpr List.reverse_append, List.reverse_reverse stem⟩
  rw [Path.isSource]
  constructor
  · intro h
    split at h
    · rename_i c t hs
      exact ⟨c :: t, by simp, (hbefore _).mp hs⟩
    · simp at h
  · rintro ⟨stem, hne, hname⟩
    obtain ⟨c, t, rfl⟩ := List.exists_cons_of_ne_nil hne
    rw [(hbefore _).mpr hname]

theorem Ignore.ignored_nil (path : Text) (directory : Bool) :
    Ignore.ignored [] path directory = false := by
  simp [Ignore.ignored, Ignore.decides, Ignore.hits]

namespace Search

variable {s : Search} {k : Folder} {l : Listing} {here names : List Text} {n : Text}

def passes (s : Search) (here : List Text) (name : Text) : Bool :=
  s.enters here name && s.listable (here ++ [name])

theorem passes_iff :
    s.passes here n = true ↔
      n ≠ repositoryName ∧ s.ignored (here ++ [n]) true = false ∧
        s.listable (here ++ [n]) = true := by
  simp [passes, enters, and_assoc]

theorem finds_iff :
    s.finds here n = true ↔
      Path.isSource n = true ∧ s.ignored (here ++ [n]) false = false := by
  simp [finds]

theorem Visits.passes {f : Folder} (hl : l.IsTree) (h : s.Visits f k)
    (hf : l.at? f.names = some (.folder f.entries))
    (hway : ∀ q n, q ++ [n] <+: f.names → s.passes q n = true) :
    l.at? k.names = some (.folder k.entries) ∧
      ∀ q n, q ++ [n] <+: k.names → s.passes q n = true := by
  induction h with
  | here => exact ⟨hf, hway⟩
  | @inside f g k _ hg hk ih =>
    have hlist := hk.listable
    obtain ⟨m, inner, hinner, henters, rfl⟩ := mem_foldersIn.mp hg
    refine ih ?_ fun q n hq => ?_
    · rw [Listing.at?_append hf (by simp), Listing.at?_singleton]
      exact (hl.of_at? hf).enter?_eq_some_iff.mp hinner
    · rcases List.prefix_concat_iff.mp hq with he | hq
      · obtain ⟨rfl, hn⟩ := List.append_inj' he rfl
        obtain rfl := List.singleton_inj.mp hn
        rw [Search.passes, henters, hlist]
        rfl
      · exact hway q n hq

theorem visits_of_passes (hl : l.IsTree) (htop : s.listable [] = true) {entries : Listing}
    (hat : l.at? names = some (.folder entries))
    (hway : ∀ q n, q ++ [n] <+: names → s.passes q n = true) :
    s.Visits ⟨[], l⟩ ⟨names, entries⟩ := by
  induction names using List.reverseRecOn generalizing entries with
  | nil =>
    obtain rfl := Node.folder.inj (Option.some.inj hat)
    exact .here htop
  | append_singleton p n ih =>
    obtain ⟨upper, hp, hn⟩ := Listing.exists_of_at?_concat hat
    obtain ⟨-, -, hlist⟩ := passes_iff.mp (hway p n (List.prefix_refl _))
    have henters : s.enters p n = true :=
      (Bool.and_eq_true_iff.mp (hway p n (List.prefix_refl _))).1
    have hvisits := ih hp fun q m hq => hway q m (hq.trans (List.prefix_append _ _))
    refine hvisits.concat (mem_foldersIn.mpr ⟨n, entries, ?_, henters, rfl⟩) hlist
    exact (hl.of_at? hp).enter?_eq_some_iff.mpr hn

theorem awaits_iff (hl : l.IsTree) {P : Folder → Prop} :
    s.Awaits [⟨[], l⟩] P ↔ s.listable [] = true ∧ ∃ names entries,
      l.at? names = some (.folder entries) ∧
        (∀ q n, q ++ [n] <+: names → s.passes q n = true) ∧ P ⟨names, entries⟩ := by
  constructor
  · rintro ⟨f, hf, k, hvisits, hk⟩
    obtain rfl := List.mem_singleton.mp hf
    obtain ⟨hat, hway⟩ := hvisits.passes hl rfl (by simp)
    exact ⟨hvisits.listable, k.names, k.entries, hat, hway, hk⟩
  · rintro ⟨htop, names, entries, hat, hway, hk⟩
    exact ⟨_, List.mem_singleton_self _, _, visits_of_passes hl htop hat hway, hk⟩

end Search

namespace Disk

variable {d : Disk} {target : Path} {patterns : List Ignore.Pattern} {l l' root' : Listing}
  {names : List Text}

/-! ## What is discovered -/

/-- Whether the names below `target`, whose entries are `l`, are those of an entry that a search
meets: it stands below directories that can be listed, are not called `.git` and are not matched by
the patterns. -/
structure Met (d : Disk) (target : Path) (patterns : List Ignore.Pattern) (l : Listing)
    (names : List Text) : Prop where
  entry : names ≠ []
  there : (l.at? names).isSome = true
  listable : ∀ q, q <+: names → q ≠ names → target.names ++ q ∉ d.sealed
  outside : ∀ q, q <+: names → q ≠ names → q.getLast? ≠ some ".git".toList
  passed : ∀ q, q <+: names → q ≠ names → q ≠ [] →
    Ignore.ignored patterns (Path.joined q) true = false

/-- Whether an entry that is met is a source file that is discovered: it is no directory, has the
name of a source file, and is not matched by the patterns either. -/
structure Discoverable (d : Disk) (target : Path) (patterns : List Ignore.Pattern) (l : Listing)
    (names : List Text) : Prop extends Met d target patterns l names where
  leaf : l.leadsToFolder names = false
  source : ∃ stem, stem ≠ [] ∧ names.getLast? = some (stem ++ ".compact".toList)
  kept : Ignore.ignored patterns (Path.joined names) false = false

theorem Discoverable.nil_patterns (h : d.Discoverable target patterns l names) :
    d.Discoverable target [] l names where
  entry := h.entry
  there := h.there
  listable := h.listable
  outside := h.outside
  passed _ _ _ _ := Ignore.ignored_nil _ _
  leaf := h.leaf
  source := h.source
  kept := Ignore.ignored_nil _ _

theorem forall_above_concat {P : List Text → Prop} {p : List Text} {n : Text} :
    (∀ q, q <+: p ++ [n] → q ≠ p ++ [n] → P q) ↔
      P [] ∧ ∀ q k, q ++ [k] <+: p → P (q ++ [k]) := by
  constructor
  · intro h
    refine ⟨h [] List.nil_prefix (by simp), fun q k hq => ?_⟩
    refine h _ (hq.trans (List.prefix_append p [n])) fun he => ?_
    have := hq.length_le
    rw [he, List.length_append, List.length_singleton] at this
    omega
  · rintro ⟨htop, hway⟩ q hq hne
    rcases List.eq_nil_or_concat' q with rfl | ⟨q, k, rfl⟩
    · exact htop
    · exact hway q k ((List.prefix_concat_iff.mp hq).resolve_left hne)

theorem met_iff (hl : l.IsTree) :
    d.Met target patterns l names ↔
      (d.search target patterns).Awaits [⟨[], l⟩]
        fun k => ∃ n ∈ k.children, names = k.names ++ [n] := by
  rw [Search.awaits_iff hl]
  constructor
  · intro h
    obtain ⟨p, n, rfl⟩ := (List.eq_nil_or_concat' names).resolve_left h.entry
    obtain ⟨node, hat⟩ := Option.isSome_iff_exists.mp h.there
    obtain ⟨entries, hp, hn⟩ := Listing.exists_of_at?_concat hat
    obtain ⟨htop, hlistable⟩ := forall_above_concat.mp h.listable
    refine ⟨decide_eq_true htop, p, entries, hp, fun q k hq => ?_, n,
      Search.Folder.mem_children.mpr (by rw [hn]; rfl), rfl⟩
    have hgit : k ≠ repositoryName := by
      rintro rfl
      exact (forall_above_concat.mp h.outside).2 q _ hq List.getLast?_concat
    exact Search.passes_iff.mpr ⟨hgit, (forall_above_concat.mp h.passed).2 q k hq (by simp),
      decide_eq_true (hlistable q k hq)⟩
  · rintro ⟨htop, p, entries, hp, hway, n, hn, rfl⟩
    have hpasses := fun q k hq => Search.passes_iff.mp (hway q k hq)
    refine ⟨by simp, ?_, forall_above_concat.mpr ⟨of_decide_eq_true htop, ?_⟩,
      forall_above_concat.mpr ⟨by simp, ?_⟩, forall_above_concat.mpr ⟨by simp, ?_⟩⟩
    · rw [Listing.at?_append hp (by simp)]
      exact Search.Folder.mem_children.mp hn
    · intro q k hq
      exact of_decide_eq_true (hpasses q k hq).2.2
    · intro q k hq he
      rw [List.getLast?_concat] at he
      exact (hpasses q k hq).1 (Option.some.inj he)
    · intro q k hq _
      exact (hpasses q k hq).2.1

theorem discoverable_iff (hl : l.IsTree) :
    d.Discoverable target patterns l names ↔
      (d.search target patterns).Awaits [⟨[], l⟩]
        fun k => names ∈ (d.search target patterns).filesIn k := by
  constructor
  · intro h
    obtain ⟨htop, p, entries, hp, hway, n, hn, rfl⟩ :=
      (Search.awaits_iff hl).mp ((met_iff hl).mp h.toMet)
    obtain ⟨stem, hstem, hname⟩ := h.source
    rw [List.getLast?_concat] at hname
    have hleaf : entries.enter? n = none := by
      have hleaf := h.leaf
      rw [Listing.leadsToFolder_append hp (by simp)] at hleaf
      exact Option.isNone_iff_eq_none.mp (Option.isSome_eq_false_iff.mp hleaf)
    refine (Search.awaits_iff hl).mpr ⟨htop, p, entries, hp, hway, ?_⟩
    exact Search.mem_filesIn.mpr ⟨n, hn, hleaf, Search.finds_iff.mpr
      ⟨Path.isSource_iff.mpr ⟨stem, hstem, Option.some.inj hname⟩, h.kept⟩, rfl⟩
  · intro h
    obtain ⟨htop, p, entries, hp, hway, hfile⟩ := (Search.awaits_iff hl).mp h
    obtain ⟨n, hn, hleaf, hfinds, rfl⟩ := Search.mem_filesIn.mp hfile
    obtain ⟨hsource, hkept⟩ := Search.finds_iff.mp hfinds
    obtain ⟨stem, hstem, hname⟩ := Path.isSource_iff.mp hsource
    have hmet : d.Met target patterns l (p ++ [n]) :=
      (met_iff hl).mpr ((Search.awaits_iff hl).mpr ⟨htop, p, entries, hp, hway, n, hn, rfl⟩)
    refine ⟨hmet, ?_, ⟨stem, hstem, by rw [List.getLast?_concat, hname]⟩, hkept⟩
    rw [Listing.leadsToFolder_append hp (by simp), Listing.leadsToFolder, Listing.isFolder, hleaf]
    rfl

/-! ## Searches -/

/-- Whether files are the discoverable ones, each once and in order, and nothing that is met ends
the search. -/
structure Exact (d : Disk) (target : Path) (patterns : List Ignore.Pattern) (l : Listing)
    (files : List Path) : Prop where
  ordered : files.Pairwise fun p q => namesBefore p.names q.names = true
  mem_iff : ∀ p, p ∈ files ↔
    ∃ names, p = target.below names ∧ d.Discoverable target patterns l names
  told : ∀ names, d.Met target patterns l names → d.refusal? (target.below names) = none

/-- Whether the search ends at an entry of which the system does not tell what it is. -/
def Ends (d : Disk) (target : Path) (patterns : List Ignore.Pattern) (l : Listing) : Prop :=
  ∃ names cause, d.Met target patterns l names ∧ d.refusal? (target.below names) = some cause ∧
    d.searchFolder target patterns l = .error (.refused cause (target.below names))

theorem pairwise_below (target : Path) {found : List (List Text)}
    (h : found.Pairwise fun p q => namesBefore p q = true) :
    (found.map target.below).Pairwise fun p q => namesBefore p.names q.names = true := by
  refine List.pairwise_map.mpr (h.imp fun {p q} hpq => ?_)
  rw [namesBefore_iff] at hpq ⊢
  exact List.append_left_lt hpq

theorem searchFolder_cases (d : Disk) (target : Path) (patterns : List Ignore.Pattern)
    (hl : l.IsTree) :
    (∃ found, d.searchFolder target patterns l = .ok ((sortNames found).map target.below) ∧
        found.Nodup ∧ (∀ names, names ∈ found ↔ d.Discoverable target patterns l names) ∧
        ∀ names, d.Met target patterns l names → d.refusal? (target.below names) = none) ∨
      d.Ends target patterns l := by
  rcases Search.loop_cases (d.search target patterns) [⟨[], l⟩] with
    ⟨found, hloop, hnone, hmem⟩ | ⟨halt, hloop, hawaits⟩
  · refine Or.inl ⟨found, ?_, ?_, fun names => ?_, fun names hmet => ?_⟩
    · rw [searchFolder, Search.run, hloop]
      rfl
    · exact Search.nodup_of_loop hloop (List.pairwise_singleton _ _) (by simpa using hl.distinct)
    · rw [hmem, discoverable_iff hl]
    · by_contra hrefusal
      obtain ⟨f, hf, k, hvisits, n, hn, rfl⟩ := (met_iff hl).mp hmet
      exact hnone ⟨f, hf, k, hvisits, fun hhalt =>
        hrefusal (Search.halt?_eq_none_iff.mp hhalt n hn)⟩
  · obtain ⟨f, hf, k, hvisits, hhalt⟩ := hawaits
    obtain ⟨n, hn, hnames, hcause⟩ := Search.exists_of_halt? hhalt
    refine Or.inr ⟨halt.names, halt.cause, ?_, hcause, ?_⟩
    · exact (met_iff hl).mpr ⟨f, hf, k, hvisits, n, hn, hnames⟩
    · rw [searchFolder, Search.run, hloop]
      rfl

theorem searchFolder_exact (d : Disk) (target : Path) (patterns : List Ignore.Pattern)
    (hl : l.IsTree) :
    (∃ files, d.searchFolder target patterns l = .ok files ∧ d.Exact target patterns l files) ∨
      d.Ends target patterns l := by
  rcases searchFolder_cases d target patterns hl with ⟨found, hfiles, hnodup, hmem, htold⟩ | hends
  · refine Or.inl ⟨_, hfiles, pairwise_below target (pairwise_sortNames hnodup), fun p => ?_, htold⟩
    simp only [List.mem_map, mem_sortNames, hmem]
    constructor
    · rintro ⟨names, hn, rfl⟩
      exact ⟨names, rfl, hn⟩
    · rintro ⟨names, rfl, hn⟩
      exact ⟨names, hn, rfl⟩
  · exact Or.inr hends

theorem discover_folder (h : d.ask target = .ok (.folder l)) {gitignore : Bool}
    (hps : (if gitignore then d.patterns target else .ok (.ok [])) = .ok (.ok patterns)) :
    d.discover gitignore target = d.searchFolder target patterns l := by
  rw [discover, h, hps]

theorem exists_patterns_of_discover (h : d.ask target = .ok (.folder l)) {gitignore : Bool}
    {files : List Path} (hfiles : d.discover gitignore target = .ok files) :
    ∃ patterns, (if gitignore then d.patterns target else .ok (.ok [])) = .ok (.ok patterns) ∧
      d.searchFolder target patterns l = .ok files := by
  rw [discover, h] at hfiles
  rcases hps : (if gitignore then d.patterns target else .ok (.ok [])) with
    fault | fault | patterns
  · simp [hps] at hfiles
  · simp [hps] at hfiles
  · simp only [hps] at hfiles
    exact ⟨patterns, rfl, hfiles⟩

/-! ## Entries in another order -/

theorem Met.reordered (h : d.Met target patterns l names) (hsame : l.SameEntries l') :
    (d.withRoot root').Met target patterns l' names where
  entry := h.entry
  there := hsame.isSome_at? names ▸ h.there
  listable := h.listable
  outside := h.outside
  passed := h.passed

theorem Discoverable.reordered (h : d.Discoverable target patterns l names) (hl : l.IsTree)
    (hl' : l'.IsTree) (hsame : l.SameEntries l') :
    (d.withRoot root').Discoverable target patterns l' names where
  toMet := h.toMet.reordered hsame
  leaf := by
    obtain ⟨p, n, rfl⟩ := (List.eq_nil_or_concat' names).resolve_left h.entry
    rcases hsame.at?_cases (p ++ [n]) with ⟨hn, -⟩ | ⟨node, node', hn, hn', halike⟩
    · have hthere := h.there
      simp [hn] at hthere
    · have hleaf := (hl.leadsToFolder_eq hn).symm.trans h.leaf
      rw [hl'.leadsToFolder_eq hn']
      cases halike <;> exact hleaf
  source := h.source
  kept := h.kept

theorem discover_reordered (h : d.root.SameEntries root') (ht : d.ask target = .ok (.folder l))
    (ht' : (d.withRoot root').ask target = .ok (.folder l')) (hl : l.IsTree) (hl' : l'.IsTree)
    {gitignore : Bool} {files : List Path} (hfiles : d.discover gitignore target = .ok files) :
    (d.withRoot root').discover gitignore target = .ok files := by
  obtain ⟨patterns, hps, hsearch⟩ := exists_patterns_of_discover ht hfiles
  have hps' : (if gitignore then (d.withRoot root').patterns target else .ok (.ok [])) =
      .ok (.ok patterns) := by
    cases gitignore with
    | false => exact hps
    | true => exact patterns_reordered h ht ht' hl.distinct hl'.distinct hps
  rw [discover_folder ht' hps']
  have hsame := sameEntries_of_ask h ht ht'
  rcases searchFolder_cases d target patterns hl with ⟨found, hfound, hnodup, hmem, htold⟩ | hends
  · rcases searchFolder_cases (d.withRoot root') target patterns hl' with
      ⟨found', hfound', hnodup', hmem', -⟩ | ⟨names, cause, hmet, hcause, -⟩
    · have hperm : found'.Perm found := by
        refine (List.perm_ext_iff_of_nodup hnodup' hnodup).mpr fun names => ?_
        rw [hmem, hmem']
        exact ⟨fun hn => hn.reordered hl' hl hsame.symm, fun hn => hn.reordered hl hl' hsame⟩
      rw [hfound', sortNames_eq_of_perm hperm, ← hfound, hsearch]
    · rw [refusal?_eq h, htold names (hmet.reordered hsame.symm)] at hcause
      simp at hcause
  · obtain ⟨names, cause, -, -, herror⟩ := hends
    simp [hsearch] at herror

theorem discover_sublist (ht : d.ask target = .ok (.folder l)) (hl : l.IsTree)
    {found : List Path} (h : d.discover true target = .ok found) :
    (∃ all, d.discover false target = .ok all ∧ found.Sublist all) ∨ d.Ends target [] l := by
  obtain ⟨patterns, -, hsearch⟩ := exists_patterns_of_discover ht h
  rw [discover_folder ht (if_neg Bool.false_ne_true)]
  rcases searchFolder_cases d target patterns hl with
    ⟨kept, hkept, hnodup, hmem, -⟩ | ⟨_, _, -, -, herror⟩
  · rcases searchFolder_cases d target [] hl with ⟨all, hall, -, hmem', -⟩ | hends
    · refine Or.inl ⟨_, hall, ?_⟩
      obtain rfl := Except.ok.inj (hsearch.symm.trans hkept)
      refine (sublist_sortNames hnodup fun names hn => ?_).map _
      exact (hmem' names).mpr ((hmem names).mp hn).nil_patterns
    · exact Or.inr hends
  · simp [hsearch] at herror

def undergrowth : Listing :=
  .folder "shut".toList (.folder "sub".toList
      (.file ignoreFileName (Utf8.encode "\\!a.compact\n".toList) .empty)
      (.file "d.compact".toList [] .empty))
    (.folder "lib".toList (.link "!a.compact".toList "none".toList
        (.file ".compact".toList [] .empty))
      (.file ignoreFileName (Utf8.encode "/gen\n".toList) .empty))

/-- A disk with a repository, an ignored directory and the undergrowth. -/
def thicket : Disk where
  root := .folder ".git".toList (.file "c.compact".toList [] .empty)
    (.folder "gen".toList (.file "b.compact".toList [] .empty) undergrowth)
  sealed := [["shut".toList]]
  veiled := [["shut".toList]]

def thicketSwapped : Listing :=
  .folder "gen".toList (.file "b.compact".toList [] .empty)
    (.folder ".git".toList (.file "c.compact".toList [] .empty) undergrowth)

end Disk

end CircuitDocs

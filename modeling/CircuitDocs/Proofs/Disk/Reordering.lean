import CircuitDocs.Proofs.Disk.Lookup
import CircuitDocs.Proofs.Disk.Scan

/-! # Listings in another order

Two listings have the same entries when the same stands at every path of both. Links and paths then
lead to the same places, and where a scan for ignore files succeeds, it finds the same files with
the same patterns.
-/

namespace CircuitDocs

theorem exists_mapM_of_perm {ε α β : Type} {f : α → Except ε β} {as as' : List α}
    {result : List β} (h : as.Perm as') (hresult : as.mapM f = .ok result) :
    ∃ result', as'.mapM f = .ok result' ∧ result.Perm result' := by
  induction h generalizing result with
  | nil => exact ⟨result, hresult, .refl _⟩
  | cons a _ ih =>
    obtain ⟨b, bs, hb, hbs, rfl⟩ := mapM_cons_eq_ok_iff.mp hresult
    obtain ⟨bs', hbs', hperm⟩ := ih hbs
    exact ⟨b :: bs', mapM_cons_eq_ok_iff.mpr ⟨b, bs', hb, hbs', rfl⟩, hperm.cons b⟩
  | swap a a' as =>
    obtain ⟨b, bs, hb, hbs, rfl⟩ := mapM_cons_eq_ok_iff.mp hresult
    obtain ⟨b', bs, hb', hbs', rfl⟩ := mapM_cons_eq_ok_iff.mp hbs
    refine ⟨b' :: b :: bs, ?_, .swap _ _ _⟩
    exact mapM_cons_eq_ok_iff.mpr
      ⟨b', _, hb', mapM_cons_eq_ok_iff.mpr ⟨b, bs, hb, hbs', rfl⟩, rfl⟩
  | trans _ _ ih ih' =>
    obtain ⟨result', hresult', hperm⟩ := ih hresult
    obtain ⟨result'', hresult'', hperm'⟩ := ih' hresult'
    exact ⟨result'', hresult'', hperm.trans hperm'⟩

namespace Listing

/-- Whether the same stands at every path of two listings, apart from what is below it. -/
def SameEntries (l l' : Listing) : Prop :=
  ∀ names, (l.at? names).map Node.bare = (l'.at? names).map Node.bare

end Listing

/-- Whether two nodes differ in the order of what is below them at most. -/
inductive Node.Alike : Node → Node → Prop
  | file (content : List UInt8) : Alike (.file content) (.file content)
  | link (target : Text) : Alike (.link target) (.link target)
  | folder {inner inner' : Listing} (h : inner.SameEntries inner') :
      Alike (.folder inner) (.folder inner')

namespace Listing

variable {l l' root root' : Listing} {p : List Text}

theorem SameEntries.symm (h : l.SameEntries l') : l'.SameEntries l := fun names => (h names).symm

theorem sameEntries_swap {k k' : Text} (node node' : Node) (rest : Listing) (hk : k ≠ k') :
    (node.entry k (node'.entry k' rest)).SameEntries (node'.entry k' (node.entry k rest)) := by
  have hfind : ∀ n, (node.entry k (node'.entry k' rest)).find? n =
      (node'.entry k' (node.entry k rest)).find? n := by
    intro n
    simp only [find?_entry]
    split <;> split <;> simp_all
  intro names
  match names with
  | [] => rfl
  | [n] => rw [at?_singleton, at?_singleton, hfind]
  | n :: m :: names => rw [at?, at?, hfind]

theorem SameEntries.inside {inner inner' : Listing} (h : l.SameEntries l')
    (hp : l.at? p = some (.folder inner)) (hp' : l'.at? p = some (.folder inner')) :
    inner.SameEntries inner' := by
  intro q
  by_cases hq : q = []
  · subst hq
    rfl
  · rw [← at?_append hp hq, ← at?_append hp' hq]
    exact h (p ++ q)

theorem SameEntries.at?_cases (h : l.SameEntries l') (p : List Text) :
    (l.at? p = none ∧ l'.at? p = none) ∨
      ∃ node node', l.at? p = some node ∧ l'.at? p = some node' ∧ node.Alike node' := by
  have hbare := h p
  cases hp : l.at? p with
  | none =>
    rw [hp, Option.map_none] at hbare
    exact Or.inl ⟨rfl, Option.map_eq_none_iff.mp hbare.symm⟩
  | some node =>
    rw [hp, Option.map_some] at hbare
    obtain ⟨node', hp', hbare⟩ := Option.map_eq_some_iff.mp hbare.symm
    refine Or.inr ⟨node, node', rfl, hp', ?_⟩
    cases node <;> cases node' <;> simp only [Node.bare, reduceCtorEq] at hbare
    · obtain rfl := Node.file.inj hbare
      exact .file _
    · obtain rfl := Node.link.inj hbare
      exact .link _
    · exact .folder (h.inside hp hp')

theorem SameEntries.isSome_at? (h : l.SameEntries l') (names : List Text) :
    (l.at? names).isSome = (l'.at? names).isSome := by
  have := congrArg Option.isSome (h names)
  rwa [Option.isSome_map, Option.isSome_map] at this

theorem SameEntries.collects_iff {f : List Text → Text → Node → Bool} {g : List Text → Text → Bool}
    {here : List Text} (h : l.SameEntries l')
    (hf : ∀ here n node node', node.Alike node' → f here n node = f here n node') :
    l.Collects f g here p ↔ l'.Collects f g here p := by
  rcases List.eq_nil_or_concat' p with rfl | ⟨q, n, rfl⟩
  · rfl
  rw [collects_concat, collects_concat]
  refine and_congr_left' ?_
  rcases h.at?_cases (q ++ [n]) with ⟨hn, hn'⟩ | ⟨node, node', hn, hn', halike⟩
  · rw [hn, hn']
  · simp only [hn, hn', Option.some.injEq, exists_eq_left', hf _ _ _ _ halike]

theorem SameEntries.chase_eq (h : l.SameEntries l') (fuel : Nat) (n : Text) :
    l.chase fuel n = l'.chase fuel n := by
  induction fuel generalizing n with
  | zero =>
    unfold chase
    rcases h.at?_cases [n] with ⟨hn, hn'⟩ | ⟨node, node', hn, hn', halike⟩
    · rw [← at?_singleton l, ← at?_singleton l', hn, hn']
    · rw [← at?_singleton l, ← at?_singleton l', hn, hn']
      cases halike <;> rfl
  | succ fuel ih =>
    unfold chase
    rcases h.at?_cases [n] with ⟨hn, hn'⟩ | ⟨node, node', hn, hn', halike⟩
    · rw [← at?_singleton l, ← at?_singleton l', hn, hn']
    · rw [← at?_singleton l, ← at?_singleton l', hn, hn']
      cases halike with
      | link target => simp only [ih]
      | file content => rfl
      | folder h => rfl

theorem SameEntries.walk_eq (h : root.SameEntries root') (here names : List Text) :
    Disk.walk root here names = Disk.walk root' here names := by
  induction names generalizing here with
  | nil => rw [Disk.walk, Disk.walk, h.isSome_at?]
  | cons n names ih =>
    rw [Disk.walk, Disk.walk]
    rcases h.at?_cases here with ⟨hh, hh'⟩ | ⟨node, node', hh, hh', halike⟩
    · rw [hh, hh']
    · rw [hh, hh']
      cases halike with
      | file content => rfl
      | link target => rfl
      | folder hin => simp only [follow, hin.chase_eq, ih]

end Listing

namespace Disk

variable {d : Disk} {p : Path} {l l' root' : Listing}

theorem locate_cases (h : d.root.SameEntries root') (p : Path) :
    (∃ cause, d.locate p = .error cause ∧ (d.withRoot root').locate p = .error cause) ∨
      ∃ node node', d.locate p = .ok node ∧ (d.withRoot root').locate p = .ok node' ∧
        node.Alike node' := by
  unfold locate
  split
  · exact Or.inl ⟨.missing, rfl, rfl⟩
  split
  · exact Or.inl ⟨.tooLong, rfl, rfl⟩
  rw [show (d.withRoot root').root = root' from rfl, ← h.walk_eq]
  cases walk d.root [] (p.namesFrom []) with
  | error cause => exact Or.inl ⟨cause, rfl, rfl⟩
  | ok names =>
    rcases h.at?_cases names with ⟨hn, hn'⟩ | ⟨node, node', hn, hn', halike⟩
    · exact Or.inl ⟨.missing, by simp [hn], by simp [hn']⟩
    · exact Or.inr ⟨node, node', by simp [hn], by simp [hn'], halike⟩

theorem bytes_eq (h : d.root.SameEntries root') (p : Path) :
    d.bytes p = (d.withRoot root').bytes p := by
  rw [bytes, bytes]
  rcases locate_cases h p with ⟨cause, hp, hp'⟩ | ⟨node, node', hp, hp', halike⟩
  · rw [hp, hp']
  · rw [hp, hp']
    cases halike <;> rfl

theorem read_eq (h : d.root.SameEntries root') (p : Path) :
    d.read p = (d.withRoot root').read p := by
  rw [read, read, bytes_eq h]

/-! ## The same disk with its entries in another order -/

theorem ask_cases (h : d.root.SameEntries root') (p : Path) :
    (∃ cause, d.ask p = .error cause ∧ (d.withRoot root').ask p = .error cause) ∨
      ∃ node node', d.ask p = .ok node ∧ (d.withRoot root').ask p = .ok node' ∧
        node.Alike node' := by
  unfold ask
  rw [show (d.withRoot root').denied = d.denied from rfl]
  split
  · exact Or.inl ⟨.denied, rfl, rfl⟩
  · exact locate_cases h p

theorem refusal?_eq (h : d.root.SameEntries root') (p : Path) :
    (d.withRoot root').refusal? p = d.refusal? p := by
  rw [refusal?, refusal?]
  rcases ask_cases h p with ⟨cause, hp, hp'⟩ | ⟨node, node', hp, hp', -⟩
  · rw [hp, hp']
  · rw [hp, hp']

theorem sameEntries_of_ask (h : d.root.SameEntries root') (hp : d.ask p = .ok (.folder l))
    (hp' : (d.withRoot root').ask p = .ok (.folder l')) : l.SameEntries l' := by
  rcases ask_cases h p with ⟨cause, he, -⟩ | ⟨node, node', hn, hn', halike⟩
  · simp [hp] at he
  · obtain rfl := Except.ok.inj (hp.symm.trans hn)
    obtain rfl := Except.ok.inj (hp'.symm.trans hn')
    cases halike with
    | folder hin => exact hin

theorem ignoreFileIn_eq (h : d.root.SameEntries root') :
    (d.withRoot root').ignoreFileIn = d.ignoreFileIn := by
  funext p folder
  rw [ignoreFileIn, ignoreFileIn]
  rcases ask_cases h (p.below (folder ++ [ignoreFileName])) with
    ⟨cause, hp, hp'⟩ | ⟨node, node', hp, hp', -⟩
  · rw [hp, hp']
    rfl
  · rw [hp, hp']
    rfl

theorem scan_perm (d : Disk) (p : Path) (h : l.SameEntries l') (hl : l.distinct = true)
    (hl' : l'.distinct = true) : (d.scan p [] l).Perm (d.scan p [] l') := by
  rw [scan_eq_collect, scan_eq_collect, List.perm_ext_iff_of_nodup (Listing.nodup_collect hl)
    (Listing.nodup_collect hl')]
  intro names
  rw [Listing.mem_collect hl, Listing.mem_collect hl']
  refine exists_congr fun q => and_congr_right' (h.collects_iff ?_)
  intro here n node node' halike
  cases halike <;> rfl

theorem scanned_perm (d : Disk) (p : Path) (h : l.SameEntries l') (hl : l.distinct = true)
    (hl' : l'.distinct = true) : (d.scanned p l).Perm (d.scanned p l') := by
  refine .cons _ ?_
  split
  · exact .refl _
  · exact scan_perm d p h hl hl'

theorem scanned_withRoot (d : Disk) (root' : Listing) :
    (d.withRoot root').scanned = d.scanned := by
  funext p l
  rw [scanned, scanned, scan_eq_collect, scan_eq_collect]
  rfl

theorem ignoreFiles_reordered {files : List (List Text)} (h : d.root.SameEntries root')
    (hp : d.ask p = .ok (.folder l)) (hp' : (d.withRoot root').ask p = .ok (.folder l'))
    (hl : l.distinct = true) (hl' : l'.distinct = true) (hfiles : d.ignoreFiles p = .ok files) :
    (d.withRoot root').ignoreFiles p = .ok files := by
  rw [ignoreFiles, hp] at hfiles
  cases hfound : (d.scanned p l).mapM (d.ignoreFileIn p) with
  | error fault => simp [hfound, Except.map] at hfiles
  | ok found =>
    obtain ⟨found', hfound', hperm⟩ :=
      exists_mapM_of_perm (scanned_perm d p (sameEntries_of_ask h hp hp') hl hl') hfound
    simp only [hfound, Except.map] at hfiles
    rw [ignoreFiles, hp', ignoreFileIn_eq h, scanned_withRoot]
    simp only [hfound', Except.map]
    rw [← Except.ok.inj hfiles, sortNames_eq_of_perm hperm.flatten]

theorem patterns_reordered {result : Except Ignore.Fault (List Ignore.Pattern)}
    (h : d.root.SameEntries root') (hp : d.ask p = .ok (.folder l))
    (hp' : (d.withRoot root').ask p = .ok (.folder l')) (hl : l.distinct = true)
    (hl' : l'.distinct = true) (hpatterns : d.patterns p = .ok result) :
    (d.withRoot root').patterns p = .ok result := by
  have hlines : (d.withRoot root').ignoreFileLines p = d.ignoreFileLines p := by
    funext names
    rw [ignoreFileLines, ignoreFileLines, ← read_eq h]
  rw [patterns, ignoreLines] at hpatterns ⊢
  cases hfiles : d.ignoreFiles p with
  | error fault => simp [hfiles, Except.map] at hpatterns
  | ok files =>
    rw [hfiles] at hpatterns
    rw [ignoreFiles_reordered h hp hp' hl hl' hfiles, hlines]
    exact hpatterns

end Disk

end CircuitDocs

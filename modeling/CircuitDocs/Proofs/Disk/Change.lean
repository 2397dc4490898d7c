import CircuitDocs.Disk.Change
import CircuitDocs.Proofs.Disk.Put

/-! # What a write leaves as it was

Writing a file makes the directories on the way to it that are missing, and fills the file. All
else stays. What was made is kept when the write fails in the end.
-/

namespace CircuitDocs.Disk

variable {d d' d'' : Disk} {here names : List Text} {p : Path} {content : List UInt8}

/-! ## Changes at one place -/

/-- Whether what stands at some names is the same, apart from what is below it. -/
def Kept (d d' : Disk) (names : List Text) : Prop :=
  (d'.root.at? names).map Node.bare = (d.root.at? names).map Node.bare

theorem Kept.outline_eq (h : d.Kept d' names) :
    (d'.root.at? names).map Node.outline = (d.root.at? names).map Node.outline := by
  have hbare := congrArg (Option.map Node.outline) h
  simpa only [Option.map_map, Function.comp_def, Node.outline_bare] using hbare

theorem Kept.at?_eq_none_iff (h : d.Kept d' names) :
    d'.root.at? names = none ↔ d.root.at? names = none := by
  rw [← Option.map_eq_none_iff (f := Node.bare), h, Option.map_eq_none_iff]

/-- Whether a disk comes from another one by letting names stand for a node. -/
structure Sets (d d' : Disk) (names : List Text) (node : Node) : Prop where
  rest : d'.withRoot d.root = d
  there : d'.root.at? names = some node
  elsewhere : ∀ q, q ≠ names → d.Kept d' q

theorem Sets.keeps {node : Node} (h : d.Sets d' names node) (hnew : ∀ target, node ≠ .link target)
    (hold : ∀ old, d.root.at? names = some old → old.outline = node.outline) :
    d.root.Keeps d'.root := by
  intro q
  by_cases hq : q = names
  · subst hq
    cases ho : d.root.at? q with
    | none => exact Or.inr ⟨rfl, by simp [h.there, hnew]⟩
    | some old => exact Or.inl (by simp [h.there, hold old ho])
  · exact Or.inl (h.elsewhere q hq).outline_eq

theorem place_eq_ok {place : Place} (h : d.place here p = .ok place) :
    p.isLong = false ∧ walk d.root [] (p.parent.namesFrom here) = .ok place.folder ∧
      d.root.at? place.folder = some (.folder place.entries) ∧ isLongName p.name = false ∧
      place.name = p.names.getLastD dotDot := by
  unfold Disk.place at h
  split at h
  · simp at h
  · rename_i hlong
    split at h
    · simp at h
    · rename_i folder hw
      split at h
      · rename_i entries hf
        split at h
        · simp at h
        · rename_i hname
          obtain rfl := Except.ok.inj h
          exact ⟨by simpa using hlong, hw, hf, by simpa using hname, rfl⟩
      · simp at h

theorem namesFrom_of_getLastD (here : List Text) {n : Text} (h : n = p.names.getLastD dotDot)
    (hn : n ≠ dotDot) :
    p.namesFrom here = p.parent.namesFrom here ++ [n] ∧ p.name = n := by
  obtain ⟨anchor, names⟩ := p
  rcases List.eq_nil_or_concat' names with rfl | ⟨init, k, rfl⟩
  · exact absurd h hn
  · simp only [List.getLastD_concat] at h
    subst h
    simp only [Path.namesFrom, Path.parent, Path.name, List.dropLast_concat, List.getLastD_concat]
    split <;> simp

theorem sets_of_place {place : Place} {m : Text} {node : Node} (h : d.place here p = .ok place)
    (hname : place.name ≠ dotDot) (hm : place.entries.follow place.name = .ok m)
    (hnode : node.inside = .empty) (hnew : ∀ target, node ≠ .link target)
    (hold : ∀ old, place.entries.find? m = some old →
      old.isFolder = false ∧ old.outline = node.outline)
    (hd' : d' = { d with root := d.root.putAt node (place.folder ++ [m]) }) :
    d.Sets d' (place.folder ++ [m]) node ∧ d.root.Keeps d'.root ∧
      d.root.at? (place.folder ++ [m]) = place.entries.find? m ∧
      walk d'.root [] (p.namesFrom here) = .ok (place.folder ++ [m]) := by
  obtain ⟨-, hw, hf, -, hlast⟩ := place_eq_ok h
  obtain ⟨hnames, -⟩ := namesFrom_of_getLastD here hlast hname
  have hat : d.root.at? (place.folder ++ [m]) = place.entries.find? m :=
    Listing.at?_append hf (by simp)
  have hfolder : ∀ inner, place.entries.find? m ≠ some (.folder inner) := by
    intro inner hin
    exact absurd (hold _ hin).1 (by simp [Node.isFolder])
  have hsets : d.Sets d' (place.folder ++ [m]) node := by
    subst hd'
    exact ⟨rfl, Listing.at?_putAt_self hf,
      fun q hq => Listing.bare_at?_putAt hf hfolder hnode hq⟩
  have hkeeps := hsets.keeps hnew fun old ho => (hold old (hat ▸ ho)).2
  refine ⟨hsets, hkeeps, hat, ?_⟩
  obtain ⟨entries, hf'⟩ := hkeeps.exists_folder hf
  rw [hnames]
  refine walk_concat (hkeeps.walk_eq_ok hw) hf' hname ?_ (by simp [hsets.there])
  rw [hkeeps.follow_eq hf hf', hm]

/-! ## Directories on the way -/

/-- Whether a directory is new, and a path read in the directory `here` leads to it or through
it. -/
structure Makes (d d' : Disk) (here : List Text) (p : Path) (names : List Text) : Prop where
  fresh : d.root.at? names = none
  folder : (d'.root.at? names).map Node.bare = some (.folder .empty)
  onWay : ∃ above, above <+: p.names ∧
    walk d'.root [] (Path.namesFrom ⟨p.anchor, above⟩ here) = .ok names

/-- Whether nothing changes but that directories on the way to a path are made. -/
structure MakesOnly (d d' : Disk) (here : List Text) (p : Path) : Prop where
  rest : d'.withRoot d.root = d
  entries : ∀ names, d.Kept d' names ∨ d.Makes d' here p names

theorem MakesOnly.refl (d : Disk) (here : List Text) (p : Path) : d.MakesOnly d here p :=
  ⟨rfl, fun _ => Or.inl rfl⟩

theorem MakesOnly.keeps (h : d.MakesOnly d' here p) : d.root.Keeps d'.root := by
  intro names
  rcases h.entries names with hkept | hmakes
  · exact Or.inl hkept.outline_eq
  · refine Or.inr ⟨hmakes.fresh, fun target ht => ?_⟩
    have hfolder := hmakes.folder
    rw [ht] at hfolder
    simp [Node.bare] at hfolder

theorem Makes.trans {above : List Text} (h : d.Makes d' here ⟨p.anchor, above⟩ names)
    (habove : above <+: p.names) (hkept : d'.Kept d'' names) (hkeeps : d'.root.Keeps d''.root) :
    d.Makes d'' here p names := by
  obtain ⟨q, hq, hw⟩ := h.onWay
  exact ⟨h.fresh, hkept.trans h.folder, q, hq.trans habove, hkeeps.walk_eq_ok hw⟩

theorem MakesOnly.trans {above : List Text} (h : d.MakesOnly d' here ⟨p.anchor, above⟩)
    (habove : above <+: p.names) (h' : d'.MakesOnly d'' here p) : d.MakesOnly d'' here p := by
  refine ⟨withRoot_trans h.rest h'.rest, fun names => ?_⟩
  rcases h.entries names with hk | hm <;> rcases h'.entries names with hk' | hm'
  · exact Or.inl (hk'.trans hk)
  · exact Or.inr ⟨hk.at?_eq_none_iff.mp hm'.fresh, hm'.folder, hm'.onWay⟩
  · exact Or.inr (hm.trans habove hk' h'.keeps)
  · have hfolder := hm.folder
    rw [hm'.fresh] at hfolder
    contradiction

theorem add_makesOnly (h : d.add here p (.folder .empty) = .ok d') : d.MakesOnly d' here p := by
  unfold add at h
  split at h
  · simp at h
  · rename_i place hplace
    split at h
    · simp at h
    · rename_i hfree
      simp only [Bool.or_eq_true, decide_eq_true_eq, not_or, Bool.not_eq_true,
        Option.isSome_eq_false_iff, Option.isNone_iff_eq_none, Place.node?] at hfree
      obtain ⟨hname, hnone⟩ := hfree
      obtain ⟨-, -, -, hlong, hlast⟩ := place_eq_ok hplace
      have hlong' : isLongName place.name = false := by
        rwa [(namesFrom_of_getLastD here hlast hname).2] at hlong
      have hfollow : place.entries.follow place.name = .ok place.name := by
        rw [Listing.follow, Listing.chase_of_ne_link (by simp [hnone]), hlong']
        rfl
      obtain ⟨hsets, -, hat, hw⟩ := sets_of_place hplace hname hfollow rfl (by simp)
        (by simp [hnone]) (Except.ok.inj h).symm
      refine ⟨hsets.rest, fun names => ?_⟩
      by_cases hn : names = place.folder ++ [place.name]
      · subst hn
        exact Or.inr ⟨hat.trans hnone, by rw [hsets.there]; rfl, p.names, List.prefix_rfl, hw⟩
      · exact Or.inl (hsets.elsewhere names hn)

theorem ensureFolder_makesOnly (d : Disk) (here : List Text) (p : Path) :
    d.MakesOnly (d.ensureFolder here p).1 here p := by
  unfold ensureFolder
  split
  · rename_i d' h
    exact add_makesOnly h
  · exact .refl d here p

theorem makeUpwards_makesOnly (d : Disk) (here : List Text) (anchor : Anchor)
    (names : List Text) :
    d.MakesOnly (d.makeUpwards here anchor names).1 here ⟨anchor, names.reverse⟩ := by
  induction names with
  | nil => exact .refl d here _
  | cons n above ih =>
    have habove : above.reverse <+: (n :: above).reverse := by simp
    unfold makeUpwards
    simp only
    split
    · generalize d.makeUpwards here anchor above = x at ih
      obtain ⟨d', fault | _⟩ := x
      · exact ih.trans (p := ⟨anchor, (n :: above).reverse⟩) habove (.refl d' here _)
      · exact ih.trans (p := ⟨anchor, (n :: above).reverse⟩) habove
          (d'.ensureFolder_makesOnly here _)
    · exact d.ensureFolder_makesOnly here _

theorem makeFolders_makesOnly (d : Disk) (here : List Text) (p : Path) :
    d.MakesOnly (d.makeFolders here p).1 here p := by
  unfold makeFolders
  split
  · exact .refl d here p
  · have h := d.makeUpwards_makesOnly here p.anchor p.names.reverse
    rwa [List.reverse_reverse] at h

/-! ## The file -/

/-- Whether a file that a path leads to is new or has new bytes. -/
structure Fills (d d' : Disk) (here : List Text) (p : Path) (content : List UInt8)
    (names : List Text) : Prop where
  file : ∀ old, d.root.at? names = some old → ∃ bytes, old = .file bytes
  filled : d'.root.at? names = some (.file content)
  way : walk d'.root [] (p.namesFrom here) = .ok names

/-- Whether nothing changes but that the directories above a path are made and the file there is
filled. -/
structure WritesOnly (d d' : Disk) (here : List Text) (p : Path) (content : List UInt8) :
    Prop where
  rest : d'.withRoot d.root = d
  entries : ∀ names, d.Kept d' names ∨ d.Makes d' here p.parent names ∨
    d.Fills d' here p content names

theorem MakesOnly.writesOnly (h : d.MakesOnly d' here p.parent) (content : List UInt8) :
    d.WritesOnly d' here p content :=
  ⟨h.rest, fun names => (h.entries names).imp_right Or.inl⟩

theorem put_fills (h : d.put here p content = .ok d') :
    p.isLong = false ∧ ∃ names, d.Sets d' names (.file content) ∧ d.root.Keeps d'.root ∧
      d.Fills d' here p content names := by
  unfold put at h
  split at h
  · simp at h
  · rename_i place hplace
    split at h
    · simp at h
    · rename_i hname
      split at h
      · simp at h
      · rename_i m hm
        split at h
        · simp at h
        · rename_i hfolder
          have hfile : ∀ old, place.entries.find? m = some old → ∃ bytes, old = .file bytes := by
            intro old ho
            cases old with
            | file bytes => exact ⟨bytes, rfl⟩
            | link target => exact absurd ho (Listing.ne_link_of_chase hm target)
            | folder inner => exact absurd ho (hfolder inner)
          have hold : ∀ old, place.entries.find? m = some old →
              old.isFolder = false ∧ old.outline = (Node.file content).outline := by
            intro old ho
            obtain ⟨bytes, rfl⟩ := hfile old ho
            exact ⟨rfl, rfl⟩
          obtain ⟨hsets, hkeeps, hat, hw⟩ :=
            sets_of_place hplace hname hm rfl (by simp) hold (Except.ok.inj h).symm
          exact ⟨(place_eq_ok hplace).1, _, hsets, hkeeps, fun old ho => hfile old (hat ▸ ho),
            hsets.there, hw⟩

theorem MakesOnly.writesOnly_of_put (h : d.MakesOnly d' here p.parent)
    (hput : d'.put here p content = .ok d'') : d.WritesOnly d'' here p content := by
  obtain ⟨-, file, hsets, hkeeps, hfills⟩ := put_fills hput
  refine ⟨withRoot_trans h.rest hsets.rest, fun names => ?_⟩
  by_cases hn : names = file
  · subst hn
    refine Or.inr (Or.inr ⟨fun old ho => ?_, hfills.filled, hfills.way⟩)
    rcases h.entries names with hkept | hmakes
    · obtain ⟨node, hnode, hbare⟩ := Option.map_eq_some_iff.mp (hkept.trans (congrArg _ ho))
      obtain ⟨bytes, rfl⟩ := hfills.file node hnode
      cases old <;> simp only [Node.bare, reduceCtorEq] at hbare
      exact ⟨_, rfl⟩
    · rw [hmakes.fresh] at ho
      contradiction
  · have hkept := hsets.elsewhere names hn
    rcases h.entries names with hk | hm
    · exact Or.inl (hkept.trans hk)
    · exact Or.inr (Or.inl (hm.trans (p := p.parent) List.prefix_rfl hkept hkeeps))

/-- Writing a file changes nothing but the file and the directories above it that are missing. -/
theorem write_writesOnly (d : Disk) (here : List Text) (p : Path) (content : List UInt8) :
    d.WritesOnly (d.write here p content).1 here p content := by
  have h := d.makeFolders_makesOnly here p.parent
  unfold write
  generalize d.makeFolders here p.parent = x at h
  obtain ⟨d', fault | _⟩ := x
  · exact h.writesOnly content
  · simp only
    split
    · exact h.writesOnly content
    · split
      · rename_i hput
        exact h.writesOnly_of_put hput
      · exact h.writesOnly content

theorem locate_write (h : (d.write here p content).2 = .ok ()) :
    (d.write here p content).1.locate p here = .ok (.file content) := by
  unfold write at h ⊢
  generalize d.makeFolders here p.parent = x at h
  obtain ⟨d', fault | _⟩ := x
  · simp at h
  · simp only at h ⊢
    split at h
    · simp at h
    · rename_i hnull
      split at h
      · rename_i d'' hput
        obtain ⟨hlong, names, -, -, hfills⟩ := put_fills hput
        simp [locate, hnull, hlong, hfills.way, hfills.filled]
      · simp at h

end CircuitDocs.Disk

import CircuitDocs.Disk.Discovery
import CircuitDocs.Proofs.Ignore.Line

/-! # Ignore files below the root

What the only ignore file of a tree means when it lies in a directory `b` below the root. A line
says of `b/p` what the line with a slash before its end says of `p` at the root, and says nothing
of paths outside `b`. Both need that the names of `b` stand for themselves and that the line is not
one of those that are kept as they are or ask for nothing.
-/

namespace CircuitDocs

open Text

namespace Ignore

variable {line : Text} {b p q : List Text} {ps : List Pattern}

/-! ## Lines that ignore nothing -/

/-- Whether a line is empty, a remark or negated. -/
def Harmless (line : Text) : Prop :=
  line.head? = none ∨ line.head? = some '#' ∨ line.head? = some '!'

instance (line : Text) : Decidable (Harmless line) :=
  inferInstanceAs (Decidable (_ ∨ _ ∨ _))

theorem exists_trimmed_cons {c : Char} (hc : isBlank c = false) (t : Text) :
    ∃ u, trimmed (c :: t) = c :: u := by
  have h := head?_trimmed (r := c :: t) (by simp [hc])
  obtain ⟨u, hu⟩ := List.head?_eq_some_iff.mp h
  exact ⟨u, hu⟩

theorem ignores_of_ofBody {ignores : Bool} {body : Text} {pattern : Pattern}
    (h : Pattern.ofBody line ignores body = .ok (some pattern)) : pattern.ignores = ignores := by
  by_cases hs : normal (body.splitOn '/') = []
  · simp [Pattern.ofBody, hs] at h
  · rw [ofBody_eq rfl hs] at h
    obtain ⟨shape, -, rfl⟩ := exists_shape_of_settled h
    rfl

theorem ignores_of_bang {t : Text} {pattern : Pattern}
    (h : Pattern.ofLine ('!' :: t) = .ok (some pattern)) : pattern.ignores = false := by
  obtain ⟨u, hu⟩ := exists_trimmed_cons (show isBlank '!' = false by decide) t
  simp only [Pattern.ofLine, hu] at h
  exact ignores_of_ofBody h

theorem Harmless.ignores_eq_false (hl : Harmless line) (base : Text) {pattern : Pattern}
    (h : Pattern.ofLine (rebase base line) = .ok (some pattern)) : pattern.ignores = false := by
  have hhash : isBlank '#' = false := by decide
  rcases hl with hl | hl | hl
  · obtain rfl := List.head?_eq_none_iff.mp hl
    have hr : rebase base [] = [] := by simp [rebase, isFixed]
    have hnone : Pattern.ofLine [] = .ok none := by decide
    rw [hr, hnone] at h
    simp at h
  · obtain ⟨t, rfl⟩ := List.head?_eq_some_iff.mp hl
    have hr : rebase base ('#' :: t) = '#' :: t := by
      simp [rebase, isFixed, trimLeft_cons hhash]
    obtain ⟨u, hu⟩ := exists_trimmed_cons hhash t
    rw [hr, Pattern.ofLine, hu] at h
    simp [isRemark] at h
  · obtain ⟨t, rfl⟩ := List.head?_eq_some_iff.mp hl
    have hr : ∃ u, rebase base ('!' :: t) = '!' :: u := by
      unfold rebase
      split
      · exact ⟨t, rfl⟩
      · exact ⟨below base t, rfl⟩
    obtain ⟨u, hu⟩ := hr
    rw [hu] at h
    exact ignores_of_bang h

theorem decides_eq_false (h : ∀ p ∈ ps, p.ignores = false) (t : Text) : decides ps t = false := by
  cases hd : decides ps t with
  | false => rfl
  | true =>
    obtain ⟨p, hp, hi, -⟩ := exists_of_decides hd
    rw [h p hp] at hi
    exact absurd hi (by decide)

theorem ignored_eq_false (h : ∀ p ∈ ps, p.ignores = false) (t : Text) (directory : Bool) :
    ignored ps t directory = false := by
  simp [ignored, decides_eq_false h]

theorem exists_line_of_mem_ofLines {ls : List Text} (h : Pattern.ofLines ls = .ok ps)
    {pattern : Pattern} (hp : pattern ∈ ps) : ∃ l ∈ ls, Pattern.ofLine l = .ok (some pattern) := by
  induction ls generalizing ps with
  | nil =>
    obtain rfl := Except.ok.inj h
    simp at hp
  | cons l ls ih =>
    have later : ∀ {ps'}, Pattern.ofLines ls = .ok ps' → pattern ∈ ps' →
        ∃ l' ∈ l :: ls, Pattern.ofLine l' = .ok (some pattern) := by
      intro ps' h' hp'
      obtain ⟨l', hl', hpl⟩ := ih h' hp'
      exact ⟨l', List.mem_cons_of_mem _ hl', hpl⟩
    rw [Pattern.ofLines] at h
    split at h
    · simp at h
    · exact later h hp
    · rename_i pattern' hl
      obtain ⟨ps', hps', rfl⟩ := exists_of_map_eq_ok h
      rcases List.mem_cons.mp hp with rfl | hp
      · exact ⟨l, by simp, hl⟩
      · exact later hps' hp

theorem ofLines_singleton {l : Text} (h : Pattern.ofLines [l] = .ok ps) :
    ∃ o, Pattern.ofLine l = .ok o ∧ ps = o.toList := by
  rw [Pattern.ofLines] at h
  split at h
  · simp at h
  · rename_i hl
    exact ⟨none, hl, (Except.ok.inj h).symm⟩
  · rename_i pattern hl
    exact ⟨some pattern, hl, (Except.ok.inj h).symm⟩

/-! ## Confinement -/

/-- A line that asks for something below its directory. -/
def Asking (line : Text) : Prop := isFixed line = false ∧ ∃ s ∈ segments line, Asks s

theorem Asking.core_ne_nil (h : Asking line) : core line ≠ [] := by
  intro hc
  obtain ⟨s, hs, ha⟩ := h.2
  rw [segments, hc, List.splitOn_nil, List.mem_singleton] at hs
  exact ha.ne_nil hs

theorem Asking.exists_steps (hl : Asking line) (hb : IsBase b) (hn : line.head? ≠ some '!')
    {pattern : Pattern}
    (h : Pattern.ofLine (rebase (Path.joined b) line) = .ok (some pattern)) :
    ∃ above ss e, pattern.shape = .steps ((Path.joined b).map Step.literal ++ under above ss) e ∧
      ∃ x ∈ ss, ¬ x.Idle := by
  obtain ⟨hf, s', hs', ha⟩ := id hl
  have hmem := mem_spread ha.ne_nil ha.ne_deep hs'
  obtain ⟨above, s, rest, hs, hseg⟩ := (spread_cases (segments_ne_nil line)).resolve_left fun h =>
    ha.ne_deep (List.mem_singleton.mp (h ▸ hmem))
  rw [ofLine_rebase hb hf hn hl.core_ne_nil hseg hs] at h
  obtain ⟨shape, hshape, rfl⟩ := exists_shape_of_settled h
  obtain ⟨⟨ss, e⟩, hss, rfl⟩ := exists_of_map_eq_ok hshape
  refine ⟨above, ss, e, rfl, exists_not_idle ha ?_ hss⟩
  rw [hseg] at hmem
  exact mem_of_mem_deepened ha.ne_deep hmem

theorem exists_of_strength?_under {above : Bool} {ss : List Step} {e : Ending} {x : Strength}
    {w t : Text} (hidle : ∃ s ∈ ss, ¬ s.Idle)
    (h : (Shape.steps (w.map Step.literal ++ under above ss) e).strength? t = some x) :
    ∃ u ≠ [], t = w ++ '/' :: u := by
  rw [Shape.strength?, strengthFrom?_literal_under] at h
  obtain ⟨u, hu, hx⟩ := Option.bind_eq_some_iff.mp h
  refine ⟨u, ?_, by simpa using after?_eq_some_iff.mp hu⟩
  rintro rfl
  obtain ⟨s, hs, hns⟩ := hidle
  refine hns (idle_of_strengthFrom?_nil hx s ?_)
  cases above <;> simp [front, hs]

/-! ## The same line at the root -/

/-- The text of a line with a slash before its end; one is put in front unless it is there. -/
def pin (t : Text) : Text := if '/' ∈ (trimmed t).dropLast then t else '/' :: t

/-- A line whose pattern is pinned to the directory of the line. -/
def pinned : Text → Text
  | [] => []
  | '#' :: t => '#' :: t
  | '!' :: t => '!' :: pin t
  | t => pin t

theorem Harmless.pinned (h : Harmless line) : Harmless (pinned line) := by
  rcases h with h | h | h
  · obtain rfl := List.head?_eq_none_iff.mp h
    exact Or.inl rfl
  · obtain ⟨t, rfl⟩ := List.head?_eq_some_iff.mp h
    exact Or.inr (Or.inl rfl)
  · obtain ⟨t, rfl⟩ := List.head?_eq_some_iff.mp h
    exact Or.inr (Or.inr rfl)

theorem pinned_eq_pin (h : ¬ Harmless line) : pinned line = pin line := by
  unfold pinned
  split <;> simp_all [Harmless]

theorem pin_eq (hf : isFixed line = false) (hn : line.head? ≠ some '!') (hc : core line ≠ []) :
    isFixed (pin line) = false ∧ (pin line).head? ≠ some '!' ∧ core (pin line) = core line ∧
      '/' ∈ (trimmed (pin line)).dropLast := by
  unfold pin
  split
  · exact ⟨hf, hn, rfl, ‹_›⟩
  · rename_i ha
    have hb := not_blank_of_core hc
    have hline : line = unanchored line := by
      rcases eq_unanchored line with h | h
      · refine absurd ?_ ha
        have ht := trimmed_append hb ['/']
        rw [List.singleton_append, ← h] at ht
        rw [ht, List.dropLast_append_of_ne_nil (trimmed_ne_nil hb)]
        simp
      · exact h.1
    rw [← hline] at hb
    have ht := trimmed_append hb ['/']
    refine ⟨?_, by simp, ?_, ?_⟩
    · have hslash : isBlank '/' = false := by decide
      simp [isFixed, trimLeft_cons hslash, List.isPrefixOf]
    · rw [core, core, ← hline]
      rfl
    · rw [← List.singleton_append, ht, List.dropLast_append_of_ne_nil (trimmed_ne_nil hb)]
      simp

/-! ## Steps that ask for a name -/

theorem isSome_take_someName {next : Text → Option Strength} {n t : Text} (hn : IsEntryName n)
    (ht : ∀ c ∈ t.head?, c = '/') (h : (next t).isSome) :
    (Step.take next .someName (n ++ t)).isSome := by
  have hmost : ∀ m : Text, '/' ∉ m → (takeMost next (· ≠ '/') (m ++ t)).isSome := by
    intro m hm
    induction m with
    | nil =>
      cases t with
      | nil => exact h
      | cons c t =>
        obtain rfl := ht c rfl
        exact h
    | cons c m ih =>
      rw [List.mem_cons, not_or] at hm
      rw [List.cons_append, takeMost, if_pos (by simpa using Ne.symm hm.1), Option.isSome_or,
        ih hm.2, Bool.true_or]
  obtain ⟨c, m, rfl⟩ := List.exists_cons_of_ne_nil hn.ne_nil
  have hc := hn.slash_not_mem
  rw [List.mem_cons, not_or] at hc
  rw [List.cons_append, Step.take, takeOne, if_pos (by simpa using Ne.symm hc.1)]
  exact hmost m hc.2

theorem exists_joined_append {tail : Text} (hne : p ≠ []) (ht : tail = [] ∨ tail = ['/']) :
    ∃ n ∈ p, ∃ rest : Text, Path.joined p ++ tail = n ++ rest ∧ ∀ c ∈ rest.head?, c = '/' := by
  obtain ⟨n, q, rfl⟩ := List.exists_cons_of_ne_nil hne
  refine ⟨n, by simp, ?_⟩
  cases q with
  | nil =>
    refine ⟨tail, by simp, ?_⟩
    rcases ht with rfl | rfl <;> simp
  | cons m q => exact ⟨'/' :: (Path.joined (m :: q) ++ tail), by simp [Path.joined_cons], by simp⟩

theorem isSome_strength?_someName {tail : Text} (hne : p ≠ []) (hp : ∀ n ∈ p, IsEntryName n)
    (ht : tail = [] ∨ tail = ['/']) :
    (strengthFrom? .directoryOrEnd (front true [.someName]) (Path.joined p ++ tail)).isSome := by
  obtain ⟨n, hn, rest, heq, hrest⟩ := exists_joined_append hne ht
  rw [heq]
  refine isSome_takeAbove (isSome_take_someName (hp n hn) hrest ?_)
  cases rest with
  | nil => rfl
  | cons c rest =>
    obtain rfl := hrest c rfl
    rfl

theorem isSome_strength?_folder {tail : Text} (directory : Bool) (hne : p ≠ [])
    (hp : ∀ n ∈ p, IsEntryName n) (ht : tail = [] ∨ tail = ['/']) :
    (strengthFrom? (deepEnding directory) (front true [.someName])
        (Path.joined p ++ tail)).isSome ↔ '/' ∈ Path.joined p ++ tail := by
  constructor
  · exact (((slashed_deepEnding directory).takeMost _).takeOne _).takeAbove _
  · intro hslash
    obtain ⟨n, hn, rest, heq, hrest⟩ := exists_joined_append hne ht
    rw [heq] at hslash ⊢
    refine isSome_takeAbove (isSome_take_someName (hp n hn) hrest ?_)
    cases rest with
    | nil => exact absurd (by simpa using hslash) (hp n hn).slash_not_mem
    | cons c rest =>
      obtain rfl := hrest c rfl
      cases directory <;> rfl

/-! ## Below a directory and at the root -/

/-- A line that asks for something below its directory. One that asks for everything means more than
directories, and the path is more than line feeds. -/
structure Steady (line : Text) (p : List Text) : Prop where
  not_fixed : isFixed line = false
  core_ne_nil : core line ≠ []
  everything : spread (segments line) = [deep] ∨ spread (segments line) = [deep, ['*']] →
    directoryOnly line = false ∧ ∃ c ∈ Path.joined p, c ≠ '\n'

theorem decides_under (above : Bool) (ss : List Step) (e : Ending) {tail : Text} (hb : IsBase b)
    (hne : p ≠ []) (hp : ∀ n ∈ p, IsEntryName n) (ht : tail = [] ∨ tail = ['/']) :
    decides [⟨true, .steps ((Path.joined b).map Step.literal ++ under above ss) e⟩]
        (Path.joined (b ++ p) ++ tail) =
      (strengthFrom? e (front above ss) (Path.joined p ++ tail)).isSome := by
  have hafter : after? (Path.joined b ++ ['/']) (Path.joined (b ++ p) ++ tail) =
      some (Path.joined p ++ tail) := by
    rw [after?_eq_some_iff, Path.joined_append hb.ne_nil hne]
    simp
  rw [decides_singleton, unrooted_joined_append (by simp [hne]) (hb.entry_append hp) ht]
  simp only [Shape.strength?, strengthFrom?_literal_under, hafter, Option.bind_some, Bool.true_and]

theorem decides_under_deep (directory : Bool) {tail : Text} (hb : IsBase b)
    (hne : p ≠ []) (hp : ∀ n ∈ p, IsEntryName n) (ht : tail = [] ∨ tail = ['/']) :
    decides [⟨true, .steps ((Path.joined b).map Step.literal) (deepEnding directory)⟩]
      (Path.joined (b ++ p) ++ tail) = true := by
  have hafter : after? (Path.joined b) (Path.joined (b ++ p) ++ tail) =
      some ('/' :: (Path.joined p ++ tail)) := by
    rw [after?_eq_some_iff, Path.joined_append hb.ne_nil hne]
    simp
  rw [decides_singleton, unrooted_joined_append (by simp [hne]) (hb.entry_append hp) ht,
    Shape.strength?, ← List.append_nil ((Path.joined b).map Step.literal),
    strengthFrom?_literal_append, hafter]
  cases directory <;> rfl

theorem decides_anything {tail : Text} (hne : p ≠ []) (hp : ∀ n ∈ p, IsEntryName n)
    (ht : tail = [] ∨ tail = ['/']) (hfeed : ∃ c ∈ Path.joined p, c ≠ '\n') :
    decides [⟨true, .anything⟩] (Path.joined p ++ tail) = true := by
  obtain ⟨c, hc, hfeed⟩ := hfeed
  have hany : (Path.joined p ++ tail).any (· ≠ '\n') = true :=
    List.any_eq_true.mpr ⟨c, List.mem_append_left _ hc, by simpa using hfeed⟩
  rw [decides_singleton, unrooted_joined_append hne hp ht, Shape.strength?, if_pos hany]
  rfl

theorem decides_anySlash {directory : Bool} {tail : Text} (hne : p ≠ [])
    (hp : ∀ n ∈ p, IsEntryName n) (ht : tail = [] ∨ tail = ['/']) :
    decides [⟨true, .anySlash directory⟩] (Path.joined p ++ tail) =
      decide ('/' ∈ Path.joined p ++ tail) := by
  rw [decides_singleton, unrooted_joined_append hne hp ht, Shape.strength?, Bool.true_and]
  split <;> simp_all

theorem Steady.ofLine_pinned (hl : Steady line p) (hn : ¬ Harmless line) :
    Pattern.ofLine (pinned line) =
      settled (pinned line) true (shapeOf (directoryOnly line) (spread (segments line))) := by
  have hbang : line.head? ≠ some '!' := fun h => hn (Or.inr (Or.inr h))
  obtain ⟨hf, hbang', hcore, ha⟩ := pin_eq hl.not_fixed hbang hl.core_ne_nil
  have hsegments : segments (pin line) = segments line := by rw [segments, segments, hcore]
  have hdirectory : directoryOnly (pin line) = directoryOnly line := by
    rw [directoryOnly, directoryOnly, hsegments]
  rw [pinned_eq_pin hn, ofLine_anchored hf hbang' (hcore ▸ hl.core_ne_nil) ha, hsegments,
    hdirectory]

theorem decides_steps_eq {line' tail : Text} {above : Bool} {o o' : Option Pattern}
    {x : Except Glob.Fault (List Step × Ending)} (hb : IsBase b) (hne : p ≠ [])
    (hp : ∀ n ∈ p, IsEntryName n) (ht : tail = [] ∨ tail = ['/'])
    (ho : settled line true (x.map fun y =>
      .steps ((Path.joined b).map Step.literal ++ under above y.1) y.2) = .ok o)
    (ho' : settled line' true (x.map fun y => .steps (front above y.1) y.2) = .ok o') :
    decides o.toList (Path.joined (b ++ p) ++ tail) =
      decides o'.toList (Path.joined p ++ tail) := by
  cases x with
  | error fault =>
    cases fault with
    | danglingEscape => simp [Except.map, settled] at ho
    | openBracket =>
      obtain rfl := Except.ok.inj ho
      obtain rfl := Except.ok.inj ho'
      rfl
  | ok x =>
    obtain rfl := eq_some_of_settled_ok ho
    obtain rfl := eq_some_of_settled_ok ho'
    rw [Option.toList_some, Option.toList_some, decides_under _ _ _ hb hne hp ht,
      decides_singleton, unrooted_joined_append hne hp ht, Bool.true_and, Shape.strength?]

theorem Steady.decides_eq {ps' : List Pattern} {tail : Text} (hl : Steady line p) (hb : IsBase b)
    (hn : ¬ Harmless line) (h : Pattern.ofLines [rebase (Path.joined b) line] = .ok ps)
    (h' : Pattern.ofLines [pinned line] = .ok ps') (hne : p ≠ []) (hp : ∀ n ∈ p, IsEntryName n)
    (ht : tail = [] ∨ tail = ['/']) :
    decides ps (Path.joined (b ++ p) ++ tail) = decides ps' (Path.joined p ++ tail) := by
  have hbang : line.head? ≠ some '!' := fun h => hn (Or.inr (Or.inr h))
  obtain ⟨o, ho, rfl⟩ := ofLines_singleton h
  obtain ⟨o', ho', rfl⟩ := ofLines_singleton h'
  rw [hl.ofLine_pinned hn] at ho'
  rcases spread_cases (segments_ne_nil line) with hseg | ⟨above, s, rest, hs, hseg⟩
  · obtain ⟨hdir, hfeed⟩ := hl.everything (Or.inl hseg)
    rw [ofLine_rebase_deep hb hl.not_fixed hbang hl.core_ne_nil hseg] at ho
    rw [hseg, hdir, shapeOf, if_pos rfl, if_neg (by decide)] at ho'
    obtain rfl := eq_some_of_settled_ok ho
    obtain rfl := eq_some_of_settled_ok ho'
    rw [Option.toList_some, Option.toList_some, decides_under_deep _ hb hne hp ht,
      decides_anything hne hp ht hfeed]
  rw [ofLine_rebase hb hl.not_fixed hbang hl.core_ne_nil hseg hs] at ho
  rw [hseg] at ho'
  by_cases hname : deepened above (s :: rest) = [deep, ['*']]
  · obtain ⟨-, hfeed⟩ := hl.everything (Or.inr (hseg.trans hname))
    obtain ⟨rfl, hrest⟩ := eq_of_deepened hs hname
    obtain ⟨rfl, rfl⟩ := List.cons.inj hrest
    rw [hname, shapeOf_name] at ho'
    rw [stepsFrom_name] at ho
    obtain rfl := eq_some_of_settled_ok ho
    obtain rfl := eq_some_of_settled_ok ho'
    rw [Option.toList_some, Option.toList_some, decides_under _ _ _ hb hne hp ht,
      decides_anything hne hp ht hfeed, isSome_strength?_someName hne hp ht]
  by_cases hfolder : deepened above (s :: rest) = [deep, ['*'], deep]
  · obtain ⟨rfl, hrest⟩ := eq_of_deepened hs hfolder
    obtain ⟨rfl, rfl⟩ := List.cons.inj hrest
    rw [hfolder, shapeOf_folder] at ho'
    rw [stepsFrom_folder] at ho
    obtain rfl := eq_some_of_settled_ok ho
    obtain rfl := eq_some_of_settled_ok ho'
    rw [Option.toList_some, Option.toList_some, decides_under _ _ _ hb hne hp ht,
      decides_anySlash hne hp ht, Bool.eq_iff_iff, isSome_strength?_folder _ hne hp ht,
      decide_eq_true_iff]
  rw [shapeOf_deepened hs _ _ _ hname hfolder] at ho'
  exact decides_steps_eq hb hne hp ht ho ho'

end Ignore

namespace Disk

open Ignore

variable {d d' : Disk} {target target' : Path} {b p q : List Text} {t t' line : Text}
  {ps ps' : List Pattern} {directory : Bool}

/-- The only ignore file below a directory has the given names and text. -/
structure SoleIgnoreFile (d : Disk) (target : Path) (names : List Text) (t : Text) : Prop where
  files : d.ignoreFiles target = .ok [names]
  text : d.read ⟨target.anchor, target.names ++ names⟩ = .ok t

def holding (names : List Text) (text : String) : Disk :=
  { root := Listing.empty.putAt (.file (Utf8.encode text.toList)) names }

theorem SoleIgnoreFile.patterns_eq {names : List Text} (h : SoleIgnoreFile d target names t) :
    d.patterns target =
      .ok (Pattern.ofLines ((LineEnd.split t).map (rebase (Path.joined names.dropLast)))) := by
  have hlines : d.ignoreFileLines target names =
      .ok ((LineEnd.split t).map (rebase (Path.joined names.dropLast))) := by
    rw [ignoreFileLines, Path.below, h.text]
    rfl
  have hall : [names].mapM (d.ignoreFileLines target) =
      .ok [(LineEnd.split t).map (rebase (Path.joined names.dropLast))] := by
    rw [List.mapM_cons, hlines]
    rfl
  rw [patterns, ignoreLines, h.files]
  simp only [hall, Except.map, List.flatten_cons, List.flatten_nil, List.append_nil]

/-- The only ignore file of a tree, when it lies in a directory, says nothing of what is not
strictly below that directory. -/
theorem ignored_eq_false_of_not_below (hb : IsBase b)
    (hd : d.SoleIgnoreFile target (b ++ [ignoreFileName]) t)
    (hps : d.patterns target = .ok (.ok ps))
    (hl : ∀ line ∈ LineEnd.split t, Harmless line ∨ Asking line)
    (hq : ∀ n ∈ q, IsEntryName n) (hout : ¬ (b <+: q ∧ b ≠ q)) :
    ignored ps (Path.joined q) directory = false := by
  rcases eq_or_ne q [] with rfl | hne
  · rfl
  rw [hd.patterns_eq, List.dropLast_concat] at hps
  have hlines := Except.ok.inj hps
  have hdecides : ∀ tail, tail = [] ∨ tail = ['/'] →
      decides ps (Path.joined q ++ tail) = false := by
    intro tail htail
    by_contra hmatch
    obtain ⟨pattern, hp, hi, x, hx⟩ := exists_of_decides (by simpa using hmatch)
    obtain ⟨_, hmem, hpattern⟩ := exists_line_of_mem_ofLines hlines hp
    obtain ⟨line, hline, rfl⟩ := List.mem_map.mp hmem
    by_cases hharm : Harmless line
    · rw [hharm.ignores_eq_false _ hpattern] at hi
      exact absurd hi (by decide)
    · have hask := (hl line hline).resolve_left hharm
      obtain ⟨above, ss, e, hshape, hidle⟩ :=
        hask.exists_steps hb (fun h => hharm (Or.inr (Or.inr h))) hpattern
      rw [unrooted_joined_append hne hq htail, hshape] at hx
      obtain ⟨u, hu, he⟩ := exists_of_strength?_under hidle hx
      exact hout (Path.lt_of_joined_eq hne (fun n hn => (hq n hn).slash_not_mem) hb.ne_nil
        (fun n hn => (hb.entry n hn).slash_not_mem) htail hu he)
  have hplain := hdecides [] (Or.inl rfl)
  rw [List.append_nil] at hplain
  rw [ignored_joined hne hq, hplain, hdecides ['/'] (Or.inr rfl)]
  simp

theorem ignored_eq_false_of_not_below_self :
    (holding [['b'], ignoreFileName] "# all\n*\n!keep/\n/out/x\n").SoleIgnoreFile (.absolute [])
        ([['b']] ++ [ignoreFileName]) "# all\n*\n!keep/\n/out/x\n".toList ∧
      ignored [⟨true, .steps ("b/".toList.map Step.literal ++ [.someName]) .directoryOrEnd⟩,
          ⟨false, .steps ("b/keep".toList.map Step.literal) .directory⟩,
          ⟨true, .steps ("b/out/x".toList.map Step.literal) .directoryOrEnd⟩]
        (Path.joined [['b']]) true = false := by
  have hd : (holding [['b'], ignoreFileName] "# all\n*\n!keep/\n/out/x\n").SoleIgnoreFile
      (.absolute []) ([['b']] ++ [ignoreFileName]) "# all\n*\n!keep/\n/out/x\n".toList :=
    ⟨by decide +kernel, by decide +kernel⟩
  refine ⟨hd, ignored_eq_false_of_not_below (b := [['b']]) ⟨by decide, by decide, by decide⟩ hd
    (by decide +kernel) ?_ (by decide) (by decide)⟩
  have hsplit : LineEnd.split "# all\n*\n!keep/\n/out/x\n".toList =
      ["# all".toList, ['*'], "!keep/".toList, "/out/x".toList] := by decide
  rw [hsplit]
  simp only [List.mem_cons, List.not_mem_nil, or_false]
  rintro line (rfl | rfl | rfl | rfl)
  · exact Or.inl (by decide)
  · exact Or.inr ⟨by decide, ['*'], by decide, Or.inl rfl⟩
  · exact Or.inl (by decide)
  · exact Or.inr ⟨by decide, ['x'], by decide, Or.inr ⟨'x', by decide, by decide⟩⟩

/-- A line that begins with an escaped mark reaches outside its directory, and a line of blanks
ignores the directory itself. -/
theorem ignored_outside :
    (holding [['b'], ignoreFileName] "\\!x\n").SoleIgnoreFile (.absolute [])
        ([['b']] ++ [ignoreFileName]) "\\!x\n".toList ∧
      ((holding [['b'], ignoreFileName] "\\!x\n").patterns (.absolute [])).map
        (·.map (ignored · (Path.joined ["!x".toList]) false)) = .ok (.ok true) ∧
      (holding [['b'], ignoreFileName] "  \n").SoleIgnoreFile (.absolute [])
        ([['b']] ++ [ignoreFileName]) "  \n".toList ∧
      ((holding [['b'], ignoreFileName] "  \n").patterns (.absolute [])).map
        (·.map (ignored · (Path.joined [['b']]) true)) = .ok (.ok true) :=
  ⟨⟨by decide +kernel, by decide +kernel⟩, by decide +kernel,
    ⟨by decide +kernel, by decide +kernel⟩, by decide +kernel⟩

/-- A line in a directory says of what is below the directory what the pinned line says at the
root. -/
theorem ignored_nested_eq (hb : IsBase b)
    (hd : d.SoleIgnoreFile target (b ++ [ignoreFileName]) t) (ht : LineEnd.split t = [line])
    (hd' : d'.SoleIgnoreFile target' [ignoreFileName] t') (ht' : LineEnd.split t' = [pinned line])
    (hps : d.patterns target = .ok (.ok ps)) (hps' : d'.patterns target' = .ok (.ok ps'))
    (hl : Harmless line ∨ Steady line p) (hne : p ≠ []) (hp : ∀ n ∈ p, IsEntryName n) :
    ignored ps (Path.joined (b ++ p)) directory = ignored ps' (Path.joined p) directory := by
  rw [hd.patterns_eq, ht, List.dropLast_concat] at hps
  rw [hd'.patterns_eq, ht'] at hps'
  have hroot : ∀ l, rebase (Path.joined ([ignoreFileName].dropLast)) l = l := fun _ => rfl
  simp only [List.map_cons, List.map_nil, hroot] at hps'
  have hlines := Except.ok.inj hps
  have hlines' := Except.ok.inj hps'
  by_cases hharm : Harmless line
  · have hnone : ∀ pattern ∈ ps, pattern.ignores = false := by
      intro pattern hp
      obtain ⟨_, hmem, hpattern⟩ := exists_line_of_mem_ofLines hlines hp
      rw [List.map_cons, List.map_nil, List.mem_singleton] at hmem
      subst hmem
      exact hharm.ignores_eq_false _ hpattern
    have hnone' : ∀ pattern ∈ ps', pattern.ignores = false := by
      intro pattern hp
      obtain ⟨_, hmem, hpattern⟩ := exists_line_of_mem_ofLines hlines' hp
      rw [List.mem_singleton] at hmem
      subst hmem
      exact hharm.pinned.ignores_eq_false [] hpattern
    rw [ignored_eq_false hnone, ignored_eq_false hnone']
  · have hdecides : ∀ tail, tail = [] ∨ tail = ['/'] →
        decides ps (Path.joined (b ++ p) ++ tail) = decides ps' (Path.joined p ++ tail) :=
      fun _ => (hl.resolve_left hharm).decides_eq hb hharm hlines hlines' hne hp
    have hplain := hdecides [] (Or.inl rfl)
    rw [List.append_nil, List.append_nil] at hplain
    rw [ignored_joined (by simp [hne]) (hb.entry_append hp), ignored_joined hne hp, hplain,
      hdecides ['/'] (Or.inr rfl)]

theorem ignored_nested_eq_slash :
    pinned "gen/*.o ".toList = "gen/*.o ".toList ∧
      ignored [⟨true, .steps ("b/c d/gen/".toList.map Step.literal ++
            [.token .anyRun, .token (.exact '.'), .token (.exact 'o')]) .directoryOrEnd⟩]
          (Path.joined (["b".toList, "c d".toList] ++ ["gen".toList, "x.o".toList])) false =
        ignored [⟨true, .steps ("gen/".toList.map Step.literal ++
            [.token .anyRun, .token (.exact '.'), .token (.exact 'o')]) .directoryOrEnd⟩]
          (Path.joined ["gen".toList, "x.o".toList]) false := by
  have hd : (holding ["b".toList, "c d".toList, ignoreFileName] "gen/*.o \n").SoleIgnoreFile
      (.absolute []) (["b".toList, "c d".toList] ++ [ignoreFileName]) "gen/*.o \n".toList :=
    ⟨by decide +kernel, by decide +kernel⟩
  have hd' : (holding [ignoreFileName] "gen/*.o \n").SoleIgnoreFile (.absolute [])
      [ignoreFileName] "gen/*.o \n".toList := ⟨by decide +kernel, by decide +kernel⟩
  have hsplit : LineEnd.split "gen/*.o \n".toList = ["gen/*.o ".toList] := by decide
  exact ⟨by decide, ignored_nested_eq ⟨by decide, by decide, by decide⟩ hd hsplit hd' (by decide)
    (by decide +kernel) (by decide +kernel) (Or.inr ⟨by decide, by decide, by decide⟩)
    (by decide) (by decide)⟩

/-- A line without a slash before its end reaches all depths at the root, but only its own directory
when it lies below the root. -/
theorem ignored_nested_ne :
    (holding [['b'], ignoreFileName] "x\n").SoleIgnoreFile (.absolute [])
        ([['b']] ++ [ignoreFileName]) "x\n".toList ∧
      ((holding [['b'], ignoreFileName] "x\n").patterns (.absolute [])).map
        (·.map (ignored · (Path.joined ([['b']] ++ [['s'], ['x']])) false)) = .ok (.ok false) ∧
      (holding [ignoreFileName] "x\n").SoleIgnoreFile (.absolute []) [ignoreFileName]
        "x\n".toList ∧
      ((holding [ignoreFileName] "x\n").patterns (.absolute [])).map
        (·.map (ignored · (Path.joined [['s'], ['x']]) false)) = .ok (.ok true) :=
  ⟨⟨by decide +kernel, by decide +kernel⟩, by decide +kernel,
    ⟨by decide +kernel, by decide +kernel⟩, by decide +kernel⟩

end Disk

end CircuitDocs

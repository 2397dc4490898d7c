import CircuitDocs.Report.Table
import Mathlib.Data.List.Basic

/-! # What consoles show

A console that shows each of several things shows them in order. It ends early only at a heading
that it refuses. The console without an edge shows every line, every table, and every heading
without markup.
-/

namespace CircuitDocs

variable {α : Type} {t u u' : Text} {ts ts' : List Text}

/-! ## Texts in order -/

/-- Whether texts stand in a text, one after another. -/
def Carries : List Text → Text → Prop
  | [], _ => True
  | t :: ts, u => ∃ before after, u = before ++ (t ++ after) ∧ Carries ts after

theorem Carries.append_left (h : Carries ts u) (before : Text) : Carries ts (before ++ u) := by
  cases ts with
  | nil => trivial
  | cons t ts =>
    obtain ⟨before', after, rfl, hrest⟩ := h
    exact ⟨before ++ before', after, by simp, hrest⟩

theorem Carries.append (h : Carries ts u) (h' : Carries ts' u') :
    Carries (ts ++ ts') (u ++ u') := by
  induction ts generalizing u with
  | nil => exact h'.append_left u
  | cons t ts ih =>
    obtain ⟨before, after, rfl, hrest⟩ := h
    exact ⟨before, after ++ u', by simp, ih hrest⟩

theorem Carries.append_right (h : Carries ts u) (after : Text) : Carries ts (u ++ after) := by
  have hnil : Carries [] after := trivial
  have happend := h.append hnil
  rwa [List.append_nil] at happend

theorem carries_singleton (before t after : Text) : Carries [t] (before ++ (t ++ after)) :=
  ⟨before, after, rfl, trivial⟩

theorem carries_flatMap {l : List α} {f : α → List Text} {g : α → Text}
    (h : ∀ a ∈ l, Carries (f a) (g a)) : Carries (l.flatMap f) (l.flatMap g) := by
  induction l with
  | nil => trivial
  | cons a l ih =>
    rw [List.forall_mem_cons] at h
    rw [List.flatMap_cons, List.flatMap_cons]
    exact h.1.append (ih h.2)

/-! ## Consoles -/

def Print.texts : Print → List Text
  | rule title => [title]
  | table titles rows => titles ++ rows.flatten
  | line t => [t]

namespace Console

variable {console : Console} {prints prints' : List Print} {p : Print}

/-- Whether the texts of what is put on a console can be read there. -/
def Shows (console : Console) (p : Print) : Prop :=
  ∃ out, console.put p = .ok out ∧ Carries p.texts out

theorem putAll_lines (console : Console) (ts : List Text) :
    console.putAll (ts.map .line) = .ok (ts.flatMap console.line) := by
  induction ts with
  | nil => rfl
  | cons t ts ih => simp [putAll, put, ih, Except.map]

/-- What is shown one by one is shown in order. -/
theorem exists_putAll_of_shows (h : ∀ p ∈ prints, console.Shows p) :
    ∃ out, console.putAll prints = .ok out ∧ Carries (prints.flatMap Print.texts) out := by
  induction prints with
  | nil => exact ⟨[], rfl, trivial⟩
  | cons p prints ih =>
    rw [List.forall_mem_cons] at h
    obtain ⟨out, hout, hcarries⟩ := h.1
    obtain ⟨rest, hrest, hcarries'⟩ := ih h.2
    refine ⟨out ++ rest, by rw [putAll, hout, hrest]; rfl, ?_⟩
    rw [List.flatMap_cons]
    exact hcarries.append hcarries'

/-- Only headings are refused. -/
theorem exists_rule_of_putAll {message : Text} (h : console.putAll prints = .error message) :
    ∃ title, .rule title ∈ prints ∧ console.rule title = .error message := by
  induction prints with
  | nil => simp [putAll] at h
  | cons p prints ih =>
    rw [putAll] at h
    cases hp : console.put p with
    | error message' =>
      rw [hp] at h
      obtain rfl := Except.error.inj h
      cases p with
      | rule title => exact ⟨title, .head _, hp⟩
      | table titles rows | line t => simp [put] at hp
    | ok t =>
      cases hrest : console.putAll prints with
      | error message' =>
        rw [hp, hrest] at h
        obtain ⟨title, hmem, hrule⟩ := ih (hrest.trans h)
        exact ⟨title, .tail _ hmem, hrule⟩
      | ok u => simp [hp, hrest, Except.map] at h

theorem exists_putAll_of_rule {title message : Text} (hmem : .rule title ∈ prints)
    (h : console.rule title = .error message) :
    ∃ message', console.putAll prints = .error message' := by
  induction prints with
  | nil => simp at hmem
  | cons p prints ih =>
    rw [putAll]
    cases hp : console.put p with
    | error message' => exact ⟨message', rfl⟩
    | ok t =>
      have hmem' : .rule title ∈ prints := by
        refine (List.mem_cons.mp hmem).resolve_left ?_
        rintro rfl
        rw [put, h] at hp
        contradiction
      obtain ⟨message', hrest⟩ := ih hmem'
      exact ⟨message', by rw [hrest]; rfl⟩

end Console

/-! ## The console without an edge -/

theorem Markup.tag?_of_not_mem (h : '[' ∉ t) : tag? t = none := by
  unfold tag?
  split
  · simp at h
  · rfl

theorem Markup.plain_of_not_mem (h : '[' ∉ t) : plain t = .ok t := by
  have hplain : ∀ position, plainOf [] (pieces position t) = .ok t := by
    intro position
    fun_induction pieces position t with
    | case1 => rfl
    | case2 position c t escapes body rest htag =>
      rw [tag?_of_not_mem fun hmem => h (List.mem_of_mem_drop hmem)] at htag
      contradiction
    | case3 position c t escapes htag hescaped =>
      obtain ⟨-, hhead⟩ := Bool.and_eq_true_iff.mp hescaped
      exact absurd (List.mem_cons_of_mem _ (List.mem_of_head? (of_decide_eq_true hhead))) h
    | case4 position c t escapes htag hescaped ih =>
      rw [plainOf, ih fun hmem => h (.tail _ hmem)]
      rfl
  exact hplain 0

namespace Wide

/-- Whether a character of a title stands for itself. -/
def isPlain (c : Char) : Bool :=
  c ≠ '[' && c ≠ '\n' && c ≠ '\t' && !inRanges [(0x07, 0x08), (0x0B, 0x0D)] c.toNat

theorem carries_filled (width column : Nat) (cell : Text) :
    Carries [cell] (filled width column cell) := by
  unfold filled
  dsimp only
  split
  · have := carries_singleton (List.replicate (width - cell.length) ' ') cell []
    rwa [List.append_nil] at this
  · exact carries_singleton [] cell _

theorem carries_cellLine (bar : Char) {widths : List Nat} {cells : List Text}
    (h : cells.length = widths.length) : Carries cells (cellLine bar widths cells) := by
  have hcells : ∀ column, Carries cells (List.zipWith
      (fun column cell => ' ' :: filled column.1 column.2 cell ++ [' ', bar])
      (widths.zipIdx column) cells).flatten := by
    induction cells generalizing widths with
    | nil => exact fun _ => trivial
    | cons cell cells ih =>
      obtain ⟨w, widths, rfl⟩ := List.exists_cons_of_length_eq_add_one h.symm
      intro column
      rw [List.zipIdx_cons, List.zipWith_cons_cons, List.flatten_cons]
      have hcell := ((carries_filled w column cell).append_left [' ']).append_right [' ', bar]
      exact hcell.append (ih (Nat.succ.inj h) (column + 1))
  exact (hcells 0).append_left [bar]

theorem length_widths {titles : List Text} {rows : List (List Text)}
    (h : ∀ row ∈ rows, row.length = titles.length) :
    (widths titles rows).length = titles.length := by
  have hfold : ∀ ws : List Nat, ws.length = titles.length →
      (rows.foldl (fun ws row => List.zipWith (fun w cell => max w cell.length) ws row) ws).length =
        titles.length := by
    induction rows with
    | nil => exact fun _ hws => hws
    | cons row rows ih =>
      rw [List.forall_mem_cons] at h
      intro ws hws
      refine ih h.2 _ ?_
      rw [List.length_zipWith, hws, h.1, Nat.min_self]
  exact hfold _ (List.length_map _)

end Wide

namespace Console

open Wide

theorem wide_shows_line (t : Text) : wide.Shows (.line t) := ⟨_, rfl, carries_singleton [] t _⟩

theorem wide_shows_table {titles : List Text} {rows : List (List Text)}
    (hrows : ∀ row ∈ rows, row.length = titles.length)
    (hcells : ∀ row ∈ rows, ∀ cell ∈ row, visible cell = cell) :
    wide.Shows (.table titles rows) := by
  have hvisible : rows.map (·.map visible) = rows := by
    refine (List.map_congr_left fun row hrow => ?_).trans (List.map_id rows)
    exact (List.map_congr_left (hcells row hrow)).trans (List.map_id row)
  have hlength := length_widths hrows
  have htitles := (carries_cellLine '┃' hlength.symm).append_right ['\n']
  have hcells : Carries rows.flatten
      ((rows.map (cellLine '│' (widths titles rows))).flatMap (· ++ ['\n'])) := by
    rw [List.flatMap_map, ← List.flatMap_id]
    refine carries_flatMap fun row hrow => ?_
    exact (carries_cellLine '│' ((hrows row hrow).trans hlength.symm)).append_right _
  have hput : wide.put (.table titles rows) = .ok
      (border '┏' '━' '┳' '┓' (widths titles rows) ++ ['\n'] ++
        (cellLine '┃' (widths titles rows) titles ++ ['\n'] ++
          (border '┡' '━' '╇' '┩' (widths titles rows) ++ ['\n'] ++
            ((rows.map (cellLine '│' (widths titles rows))).flatMap (· ++ ['\n']) ++
              (border '└' '─' '┴' '┘' (widths titles rows) ++ ['\n']))))) := by
    simp only [put, wide, hvisible, tableLines, List.flatMap_append, List.flatMap_cons,
      List.flatMap_nil, List.append_nil, List.append_assoc]
  refine ⟨_, hput, (htitles.append ?_).append_left _⟩
  exact (hcells.append_right _).append_left _

theorem wide_shows_rule (h : t.all isPlain = true) : wide.Shows (.rule t) := by
  rw [List.all_eq_true] at h
  have hbracket : '[' ∉ t := fun hmem => absurd (h _ hmem) (by decide)
  have hvisible : visible t = t := by
    refine List.filter_eq_self.mpr fun c hc => ?_
    have := h c hc
    simp only [isPlain, Bool.and_eq_true] at this
    exact this.2
  have hunbroken : unbroken t = t := by
    refine (List.map_congr_left fun c hc => if_neg ?_).trans (List.map_id t)
    have := h c hc
    simp only [isPlain, Bool.and_eq_true, decide_eq_true_eq] at this
    simp [this.1.1.2, this.1.2]
  have hput : wide.put (.rule t) = .ok ("---- ".toList ++ (t ++ " ----\n".toList)) := by
    simp only [put, wide, Markup.plain_of_not_mem hbracket, Except.map, hvisible, hunbroken,
      List.append_assoc]
  exact ⟨_, hput, carries_singleton _ t _⟩

end Console

end CircuitDocs

import CircuitDocs.Proofs.Command.Switch
import Mathlib.Data.List.Induction

/-! # Parts of a command line in any order

A command line may be put together from switches, settings with their values and a target, in any
order and with any repetition. What it asks for depends on which switches occur among its words, on
the last value of each setting, and on the target.
-/

namespace CircuitDocs.Command

/-- A text that cannot be taken for an option. -/
structure Operand where
  text : Text
  head?_ne : text.head? ≠ some '-'

/-- A part of a command line: a switch in one of its spellings, a setting with its value, or the
target. A format may be joined to its option. -/
inductive Item where
  | switch (s : Switch) (w : Text) (h : (w, .switch s) ∈ Choice.spellings)
  | format (f : Format) (joined : Bool)
  | output (p : Operand)
  | target (t : Operand)

variable {items : List Item} {a : Arguments} {argv : List Text} {s : Switch}

namespace Item

def words : Item → List Text
  | switch _ w _ => [w]
  | format f false => ["--format".toList, f.name]
  | format f true => ["--format=".toList ++ f.name]
  | output p => ["--output".toList, p.text]
  | target t => [t.text]

def classified : Item → List Word
  | switch s w _ => [.ofSpelling w (.switch s) none]
  | format f false => [.long (.setting .format) none, .operand f.name]
  | format f true => [.long (.setting .format) (some f.name)]
  | output p => [.long (.setting .output) none, .operand p.text]
  | target t => [.operand t.text]

def switch? : Item → Option Switch
  | switch s _ _ => some s
  | _ => none

def format? : Item → Option Format
  | format f _ => some f
  | _ => none

def output? : Item → Option Text
  | output p => some p.text
  | _ => none

def target? : Item → Option Text
  | target t => some t.text
  | _ => none

end Item

def Writes (items : List Item) (w : String) : Prop := w.toList ∈ items.flatMap Item.words

instance (items : List Item) (w : String) : Decidable (Writes items w) :=
  inferInstanceAs (Decidable (w.toList ∈ items.flatMap Item.words))

/-! ## Words -/

theorem classifyAll_operand {t : Text} (ht : t.head? ≠ some '-') (argv : List Text) :
    Word.classifyAll (t :: argv) = (Word.classifyAll argv).map (.operand t :: ·) := by
  have hsep : t ≠ Word.separatorText := by
    rintro rfl
    exact ht rfl
  have hclass : Word.classify t = .ok (.operand t) := by
    unfold Word.classify
    split
    · exact absurd rfl ht
    · rfl
  rw [Word.classifyAll, if_neg hsep, hclass]

theorem Format.head?_name (f : Format) : f.name.head? ≠ some '-' := by
  cases f <;> decide

theorem Format.ofName?_name (f : Format) : ofName? f.name = some f := by
  cases f <;> decide

theorem Format.name_ne_separator (f : Format) : f.name ≠ Word.separatorText := by
  cases f <;> decide

theorem classifyAll_words (item : Item) (argv : List Text) :
    Word.classifyAll (item.words ++ argv) =
      (Word.classifyAll argv).map (item.classified ++ ·) := by
  have htwo : ∀ (w t : Text) (choice : Choice), (w, choice) ∈ Choice.spellings →
      t.head? ≠ some '-' → Word.classifyAll (w :: t :: argv) =
        (Word.classifyAll argv).map ([Word.ofSpelling w choice none, .operand t] ++ ·) := by
    intro w t choice hw ht
    rw [Arguments.classifyAll_cons hw, classifyAll_operand ht]
    cases Word.classifyAll argv <;> rfl
  cases item with
  | switch s w h => exact Arguments.classifyAll_cons h argv
  | format f joined =>
    cases joined with
    | false => exact htwo _ _ (.setting .format) (by decide) f.head?_name
    | true => cases f <;> rfl
  | output p => exact htwo _ _ (.setting .output) (by decide) p.head?_ne
  | target t => exact classifyAll_operand t.head?_ne argv

theorem classifyAll_items (items : List Item) :
    Word.classifyAll (items.flatMap Item.words) = .ok (items.flatMap Item.classified) := by
  induction items with
  | nil => rfl
  | cons item items ih =>
    rw [List.flatMap_cons, classifyAll_words, ih]
    rfl

theorem separator_not_mem_classified (items : List Item) :
    Word.separator ∉ items.flatMap Item.classified := by
  intro h
  obtain ⟨item, -, hitem⟩ := List.mem_flatMap.mp h
  unfold Item.classified Word.ofSpelling at hitem
  split at hitem <;> simp at hitem
  split at hitem <;> simp at hitem

/-! ## Arguments -/

def Arguments.add (a : Arguments) : Item → Arguments
  | .switch s _ _ => a.flip s
  | .format f _ => { a with format := .given f }
  | .output p => { a with output := .given p.text }
  | .target t => { a with target := some t.text }

namespace Arguments

theorem consume_item {item : Item} {words : List Word} (hwords : Word.separator ∉ words)
    (hitem : a.target = none ∨ item.target? = none) :
    consume a [] (item.classified ++ words) = consume (a.add item) [] words := by
  cases item with
  | switch s w h =>
    simp only [Item.classified, Word.ofSpelling]
    split
    · rw [List.cons_append, consume]
      · rfl
      all_goals simp
    · rfl
  | format f joined =>
    have hset : a.set .format f.name = .ok (a.add (.format f joined)) := by
      simp only [set, if_neg f.name_ne_separator, f.ofName?_name, add]
    cases joined <;> simp only [Item.classified, List.cons_append, List.nil_append, consume, hset]
  | output p =>
    have hset : a.set .output p.text = .ok (a.add (.output p)) := by
      have hne : p.text ≠ Word.separatorText := by
        intro h
        exact p.head?_ne (by rw [h]; rfl)
      simp only [set, if_neg hne, add]
    simp only [Item.classified, List.cons_append, List.nil_append, consume, hset]
  | target t =>
    have htarget : a.target.isNone = true := by
      rcases hitem with h | h
      · rw [h]
        rfl
      · exact absurd h (by simp [Item.target?])
    rw [Item.classified, List.cons_append, List.nil_append, consume, if_pos htarget]
    · rfl
    · rintro rest rfl
      simp at hwords

theorem consume_items
    (h : a.target.toList.length + (items.filterMap Item.target?).length ≤ 1) :
    consume a [] (items.flatMap Item.classified) = .ok (items.foldl add a, []) := by
  induction items generalizing a with
  | nil => rfl
  | cons item items ih =>
    have hitem : a.target = none ∨ item.target? = none := by
      cases ha : a.target with
      | none => exact Or.inl rfl
      | some t =>
        cases hi : item.target? with
        | none => exact Or.inr rfl
        | some t' =>
          simp only [ha, List.filterMap_cons, hi, List.length_cons, Option.toList_some] at h
          omega
    have hrest : (a.add item).target.toList.length + (items.filterMap Item.target?).length ≤ 1 := by
      cases item with
      | target t =>
        rw [List.filterMap_cons_some (show (Item.target t).target? = some t.text from rfl),
          List.length_cons] at h
        rw [add, Option.toList_some, List.length_singleton]
        omega
      | switch | format | output => exact h
    rw [List.flatMap_cons, consume_item (separator_not_mem_classified items) hitem, ih hrest]
    rfl

/-! ## What the parts add up to -/

theorem switches_foldl (items : List Item) (a : Arguments) :
    (items.foldl add a).switches = a.switches ++ items.filterMap Item.switch? := by
  induction items generalizing a with
  | nil => simp
  | cons item items ih =>
    rw [List.foldl_cons, ih]
    cases item <;> simp [add, flip, Item.switch?, List.filterMap_cons]

/-- What every part either leaves as it is or gives a value has the last value that it is given. -/
theorem foldl_last {β γ : Type} (π : Arguments → β) (value? : Item → Option γ) (put : γ → β)
    (hadd : ∀ a item, π (a.add item) = ((value? item).map put).getD (π a)) (items : List Item)
    (a : Arguments) :
    π (items.foldl add a) = (((items.filterMap value?).getLast?).map put).getD (π a) := by
  induction items using List.reverseRecOn with
  | nil => rfl
  | append_singleton items item ih =>
    rw [List.foldl_append, List.foldl_cons, List.foldl_nil, hadd, ih, List.filterMap_append]
    cases hv : value? item <;> simp [hv]

/-- What a list of parts asks for, said of the words that they are written in, of the last format
and output file among them, and of their target. -/
structure Sums (items : List Item) (a : Arguments) : Prop where
  exportedOnly : a.config.exportedOnly = true ↔ ¬ Writes items "-a" ∧ ¬ Writes items "--all"
  requireTitle : a.config.requireTitle = true ↔
    Writes items "--strict" ∨ Writes items "--require-title"
  requireRemarks : a.config.requireRemarks = true ↔
    Writes items "--strict" ∨ Writes items "--require-remarks"
  requireThrows : a.config.requireThrows = true ↔
    Writes items "--strict" ∨ Writes items "--require-throws"
  requireDescription : a.config.requireDescription = true ↔
    ¬ Writes items "--no-require-description"
  requireCircuitInfo : a.config.requireCircuitInfo = true ↔
    ¬ Writes items "--no-require-circuit-info"
  requireParams : a.config.requireParams = true ↔ ¬ Writes items "--no-require-params"
  requireReturns : a.config.requireReturns = true ↔ ¬ Writes items "--no-require-returns"
  gitignore : a.gitignore = true ↔ ¬ Writes items "--no-gitignore"
  format : a.format? = some ((items.filterMap Item.format?).getLast?.getD .table)
  output : a.output = ((items.filterMap Item.output?).getLast?.map .given).getD .absent
  target : a.targetText = (items.filterMap Item.target?).getLast?.getD ['.']

theorem spelling_unique {w : Text} {c d : Choice} (h : (w, c) ∈ Choice.spellings)
    (h' : (w, d) ∈ Choice.spellings) : c = d := by
  have hall : ∀ p ∈ Choice.spellings, ∀ q ∈ Choice.spellings, p.1 = q.1 → p.2 = q.2 := by decide
  exact hall _ h _ h' rfl

theorem head?_of_spelling {w : Text} {c : Choice} (h : (w, c) ∈ Choice.spellings) :
    w.head? = some '-' := by
  have hall : ∀ p ∈ Choice.spellings, p.1.head? = some '-' := by decide
  exact hall _ h

theorem switch?_eq_some_iff {item : Item} :
    item.switch? = some s ↔ ∃ w ∈ item.words, (w, .switch s) ∈ Choice.spellings := by
  constructor
  · intro h
    cases item with
    | switch s' w hw =>
      obtain rfl : s' = s := Option.some.inj h
      exact ⟨w, .head _, hw⟩
    | format | output | target => contradiction
  · rintro ⟨w, hmem, hw⟩
    have hdash := head?_of_spelling hw
    cases item with
    | switch s' w' hw' =>
      obtain rfl : w = w' := List.mem_singleton.mp hmem
      rw [Item.switch?, Choice.switch.inj (spelling_unique hw' hw)]
    | format f joined =>
      cases joined with
      | false =>
        simp only [Item.words, List.mem_cons, List.not_mem_nil, or_false] at hmem
        rcases hmem with rfl | rfl
        · exact absurd (spelling_unique hw (d := .setting .format) (by decide)) (by simp)
        · exact absurd hdash f.head?_name
      | true =>
        obtain rfl := List.mem_singleton.mp hmem
        revert hw
        cases f <;> cases s <;> decide
    | output p =>
      simp only [Item.words, List.mem_cons, List.not_mem_nil, or_false] at hmem
      rcases hmem with rfl | rfl
      · exact absurd (spelling_unique hw (d := .setting .output) (by decide)) (by simp)
      · exact absurd hdash p.head?_ne
    | target t =>
      obtain rfl := List.mem_singleton.mp hmem
      exact absurd hdash t.head?_ne

theorem gives_foldl :
    (items.foldl add {}).gives s = true ↔
      ∃ w ∈ items.flatMap Item.words, (w, .switch s) ∈ Choice.spellings := by
  rw [gives, decide_eq_true_eq, switches_foldl, List.nil_append, List.mem_filterMap]
  simp only [switch?_eq_some_iff, List.mem_flatMap]
  constructor
  · rintro ⟨item, hitem, w, hmem, hw⟩
    exact ⟨w, ⟨item, hitem, hmem⟩, hw⟩
  · rintro ⟨w, ⟨item, hitem, hmem⟩, hw⟩
    exact ⟨item, hitem, w, hmem, hw⟩

theorem sums_foldl (items : List Item) : Sums items (items.foldl add {}) := by
  have hnot : ∀ s, (!(items.foldl add {}).gives s) = true ↔
      ¬ ∃ w ∈ items.flatMap Item.words, (w, .switch s) ∈ Choice.spellings := by
    intro s
    rw [Bool.not_eq_true', ← Bool.not_eq_true, gives_foldl]
  constructor
  case requireTitle | requireRemarks | requireThrows =>
    simp [config, gives_foldl, Choice.spellings, Writes]
  case format =>
    have hlast := foldl_last (·.format) Item.format? .given (fun _ item => by cases item <;> rfl)
      items {}
    rw [format?, hlast]
    cases (items.filterMap Item.format?).getLast? <;> rfl
  case output =>
    exact foldl_last (·.output) Item.output? .given (fun _ item => by cases item <;> rfl) items {}
  case target =>
    have hlast := foldl_last (·.target) Item.target? some (fun _ item => by cases item <;> rfl)
      items {}
    rw [targetText, hlast]
    cases (items.filterMap Item.target?).getLast? <;> rfl
  all_goals
    simp only [config, gitignore, hnot]
    simp [Choice.spellings, Writes, and_or_left, exists_or]

/-- A command line that is put together from parts, at most one of them a target, is accepted. What
it asks for is a sum of what its words say, the last word on a format or an output file counting,
and no other part of it bears on this. -/
theorem parse_items (h : (items.filterMap Item.target?).length ≤ 1) :
    ∃ a, parse (items.flatMap Item.words) = .ok a ∧ Sums items a := by
  refine ⟨items.foldl add {}, ?_, sums_foldl items⟩
  rw [parse, classifyAll_items]
  simp only [consume_items (a := {}) (by simpa using h)]

def medley : List Item :=
  [.switch .strict "--strict".toList (by decide), .format .table true,
    .switch .all "-a".toList (by decide), .target ⟨"src".toList, by decide⟩,
    .switch .noRequireParams "--no-require-params".toList (by decide),
    .output ⟨"a.json".toList, by decide⟩, .switch .strict "--strict".toList (by decide),
    .output ⟨"b.json".toList, by decide⟩, .format .json false]

/-- The last format and the last file count, and what is not required stays so under strict
rules. -/
theorem parse_items_medley :
    let argv := ["--strict", "--format=table", "-a", "src", "--no-require-params", "--output",
      "a.json", "--strict", "--output", "b.json", "--format", "json"].map String.toList
    medley.flatMap Item.words = argv ∧ (medley.filterMap Item.target?).length ≤ 1 ∧
      ∃ a, parse argv = .ok a ∧ a.config.exportedOnly = false ∧ a.config.requireTitle = true ∧
        a.config.requireParams = false ∧ a.config.requireReturns = true ∧
        a.format? = some .json ∧ a.output = .given "b.json".toList ∧
        a.targetText = "src".toList := by
  intro argv
  have hargv : medley.flatMap Item.words = argv := by decide
  have hone : (medley.filterMap Item.target?).length ≤ 1 := by decide
  obtain ⟨a, hparse, hsums⟩ := parse_items hone
  rw [hargv] at hparse
  refine ⟨hargv, hone, a, hparse, ?_, hsums.requireTitle.mpr (by decide), ?_,
    hsums.requireReturns.mpr (by decide), hsums.format, hsums.output, hsums.target⟩
  · rw [← Bool.not_eq_true, hsums.exportedOnly]
    decide
  · rw [← Bool.not_eq_true, hsums.requireParams]
    decide

end Arguments

end CircuitDocs.Command

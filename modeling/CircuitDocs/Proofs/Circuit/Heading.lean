import CircuitDocs.Proofs.Text.Blank
import CircuitDocs.Circuit.Basic

/-! # Declaration lines

Which lines declare a circuit and which cannot: a line that begins with another character than the
keywords do, a blank line, and a name followed by a colon. Before its parenthesis a declaration
line has the words of its heading and blanks, and it can be taken apart into these in one way only.
-/

namespace CircuitDocs

open Text

variable {line w n t r : Text} {c d : Char}

structure IsName (n : Text) : Prop where
  ne_nil : n ≠ []
  all : ∀ c ∈ n, isWord c = true

instance (n : Text) : Decidable (IsName n) :=
  decidable_of_iff (n ≠ [] ∧ n.all isWord = true)
    ⟨fun h => ⟨h.1, List.all_eq_true.mp h.2⟩, fun h => ⟨h.1, List.all_eq_true.mpr h.2⟩⟩

theorem IsName.takeWhile_append (hn : IsName n) (hd : isWord d = false) :
    (n ++ d :: t).takeWhile isWord = n := by
  rw [List.takeWhile_append_of_pos hn.all, List.takeWhile_cons_of_neg (by simp [hd]),
    List.append_nil]

theorem IsName.dropWhile_append (hn : IsName n) (hd : isWord d = false) :
    (n ++ d :: t).dropWhile isWord = d :: t := by
  rw [List.dropWhile_append_of_pos hn.all, List.dropWhile_cons_of_neg (by simp [hd])]

theorem IsName.trimLeft_append (hn : IsName n) : trimLeft (n ++ t) = n ++ t := by
  obtain ⟨c, n, rfl⟩ := List.exists_cons_of_ne_nil hn.ne_nil
  exact trimLeft_cons (isBlank_of_isWord (hn.all c (by simp)))

/-! ## Keywords -/

theorem eq_append_of_afterKeyword? {w t r : Text} (h : afterKeyword? w t = some r) :
    ∃ c u, t = w ++ c :: u ∧ isBlank c = true ∧ r = trimLeft u := by
  unfold afterKeyword? at h
  split at h
  · rename_i c u ha
    split at h
    · rename_i hc
      exact ⟨c, u, after?_eq_some_iff.mp ha, hc, (Option.some.inj h).symm⟩
    · simp at h
  · simp at h

theorem afterKeyword?_eq_none_of_ne {c d : Char} {w t : Text} (h : c ≠ d) :
    afterKeyword? (c :: w) (d :: t) = none := by simp [afterKeyword?, after?, h]

theorem IsName.afterKeyword?_colon (hn : IsName n) (hw : IsName w) :
    afterKeyword? w (n ++ ':' :: t) = none := by
  cases h : afterKeyword? w (n ++ ':' :: t) with
  | none => rfl
  | some r =>
    obtain ⟨c, u, he, hc, -⟩ := eq_append_of_afterKeyword? h
    have hnw : n = w := by
      rw [← hn.takeWhile_append (t := t) (d := ':') (by decide), he,
        hw.takeWhile_append (not_isWord_of_isBlank hc)]
    subst hnw
    obtain ⟨rfl, -⟩ := List.cons.inj (List.append_cancel_left he)
    exact absurd hc (by decide)

/-! ## Lines that do not -/

theorem head_of_declares (h : declares line = true) :
    ∃ c t, trimLeft line = c :: t ∧ (c = 'e' ∨ c = 'p' ∨ c = 'c') := by
  cases ht : trimLeft line with
  | nil => simp [declares, Heading.ofLine?, ht, skipKeyword, afterKeyword?, after?] at h
  | cons c t =>
    refine ⟨c, t, rfl, ?_⟩
    by_contra hc
    simp only [not_or] at hc
    have he : afterKeyword? "export".toList (c :: t) = none :=
      afterKeyword?_eq_none_of_ne (Ne.symm hc.1)
    have hp : afterKeyword? "pure".toList (c :: t) = none :=
      afterKeyword?_eq_none_of_ne (Ne.symm hc.2.1)
    have hk : afterKeyword? "circuit".toList (c :: t) = none :=
      afterKeyword?_eq_none_of_ne (Ne.symm hc.2.2)
    simp only [declares, Heading.ofLine?, ht, skipKeyword, he, hp, hk, Option.getD_none,
      Option.isSome_none, Bool.false_eq_true] at h

theorem not_declares_of_head (ht : trimLeft line = c :: t) (hc : c ≠ 'e' ∧ c ≠ 'p' ∧ c ≠ 'c') :
    declares line = false := by
  cases hd : declares line with
  | false => rfl
  | true =>
    obtain ⟨c', t', ht', hc'⟩ := head_of_declares hd
    obtain ⟨rfl, -⟩ := List.cons.inj (ht.symm.trans ht')
    simp [hc] at hc'

theorem not_declares_of_blank (h : blank line = true) : declares line = false := by
  cases hd : declares line with
  | false => rfl
  | true =>
    obtain ⟨c, t, ht, -⟩ := head_of_declares hd
    rw [trimLeft_eq_nil_iff.mpr h] at ht
    exact absurd ht (by simp)

theorem not_declares_of_colon {indent : Text} (hi : blank indent = true) (hn : IsName n)
    (t : Text) : declares (indent ++ (n ++ ':' :: t)) = false := by
  have he := hn.afterKeyword?_colon (t := t) (w := "export".toList) (by decide)
  have hp := hn.afterKeyword?_colon (t := t) (w := "pure".toList) (by decide)
  have hk := hn.afterKeyword?_colon (t := t) (w := "circuit".toList) (by decide)
  simp only [declares, Heading.ofLine?, trimLeft_append_blank hi, hn.trimLeft_append, skipKeyword,
    he, hp, hk, Option.getD_none, Option.isSome_none]

/-! ## The text before the parenthesis -/

/-- A keyword and the blanks behind it, or nothing when the keyword is left out. -/
inductive Keyword (w : Text) : Bool → Text → Prop
  | absent : Keyword w false []
  | present {b : Text} (hb : blank b = true) (hne : b ≠ []) : Keyword w true (w ++ b)

theorem Keyword.mem {present : Bool} (h : Keyword w present t) (hc : c ∈ t) :
    c ∈ w ∨ isBlank c = true := by
  cases h with
  | absent => simp at hc
  | present hb _ => exact (List.mem_append.mp hc).imp_right (blank_iff.mp hb c)

theorem keyword_of_afterKeyword? (h : afterKeyword? w t = some r) :
    ∃ u, Keyword w true u ∧ t = u ++ r := by
  obtain ⟨c, u, rfl, hc, rfl⟩ := eq_append_of_afterKeyword? h
  obtain ⟨b, hb, hu⟩ := exists_blank_append_trimLeft u
  refine ⟨w ++ c :: b, .present (by simp [hc, hb]) (by simp), ?_⟩
  rw [List.append_assoc, List.cons_append, ← hu]

theorem keyword_skipKeyword (w t : Text) :
    ∃ u, Keyword w (afterKeyword? w t).isSome u ∧ t = u ++ skipKeyword w t := by
  rw [skipKeyword]
  cases h : afterKeyword? w t with
  | none => exact ⟨[], .absent, rfl⟩
  | some r => exact keyword_of_afterKeyword? h

theorem Keyword.head?_append {present : Bool} (h : Keyword (c :: w) present t) (r : Text) :
    (t ++ r).head? = if present then some c else r.head? := by
  cases h with
  | absent => rfl
  | present _ _ => rfl

theorem Keyword.afterKeyword?_append {present : Bool} (h : Keyword (c :: w) present t)
    (hr : trimLeft r = r) (hc : present = false → r.head? ≠ some c) :
    afterKeyword? (c :: w) (t ++ r) = if present then some r else none := by
  cases h with
  | absent =>
    cases ha : afterKeyword? (c :: w) r with
    | none => rw [List.nil_append, ha, if_neg (by decide)]
    | some r' =>
      obtain ⟨d, u, rfl, -, -⟩ := eq_append_of_afterKeyword? ha
      exact absurd rfl (hc rfl)
  | present hb hne =>
    obtain ⟨d, b, rfl⟩ := List.exists_cons_of_ne_nil hne
    simp only [blank_cons, Bool.and_eq_true] at hb
    rw [List.append_assoc, afterKeyword?, after?_eq_some_iff.mpr rfl]
    simp only [List.cons_append, hb.1, if_true, trimLeft_append_blank hb.2, hr]

theorem Keyword.skipKeyword_append {present : Bool} (h : Keyword (c :: w) present t)
    (hr : trimLeft r = r) (hc : present = false → r.head? ≠ some c) :
    skipKeyword (c :: w) (t ++ r) = r := by
  rw [skipKeyword, h.afterKeyword?_append hr hc]
  cases h with
  | absent => rfl
  | present _ _ => rfl

theorem Keyword.append_inj {p q : Bool} {u s : Text} (hu : Keyword (c :: w) p u)
    (ht : Keyword (c :: w) q t) (hs : trimLeft s = s) (hr : trimLeft r = r)
    (hcs : p = false → s.head? ≠ some c) (hcr : q = false → r.head? ≠ some c)
    (h : u ++ s = t ++ r) : p = q ∧ u = t ∧ s = r := by
  have hread := hu.afterKeyword?_append hs hcs
  have hrest := hu.skipKeyword_append hs hcs
  rw [h, ht.afterKeyword?_append hr hcr] at hread
  rw [h, ht.skipKeyword_append hr hcr] at hrest
  subst hrest
  refine ⟨?_, List.append_cancel_right h, rfl⟩
  cases p <;> cases q <;> simp_all

namespace Heading

variable {heading : Heading} {head : Text}

/-- The text before the parenthesis of a declaration line: the words of its heading, with blanks
in front, behind each keyword and possibly behind the name. -/
inductive Written : Heading → Text → Prop
  | mk {indent e p k name gap : Text} {exported pure : Bool} (hindent : blank indent = true)
      (he : Keyword "export".toList exported e) (hp : Keyword "pure".toList pure p)
      (hk : Keyword "circuit".toList true k) (hname : IsName name) (hgap : blank gap = true) :
      Written ⟨name, exported⟩ (indent ++ (e ++ (p ++ (k ++ (name ++ gap)))))

theorem exists_of_name? {name : Text} (h : name? t = some name) :
    ∃ gap tail, IsName name ∧ blank gap = true ∧ t = name ++ (gap ++ '(' :: tail) := by
  unfold name? at h
  split at h
  · rename_i c n tail hn hr
    obtain rfl := Option.some.inj h
    obtain ⟨gap, hgap, hrest⟩ := exists_blank_append_trimLeft (t.dropWhile isWord)
    refine ⟨gap, tail, ⟨by simp, fun d hd => ?_⟩, hgap, ?_⟩
    · rw [← hn] at hd
      exact List.mem_takeWhile_imp hd
    · rw [← hr, ← hrest, ← hn, List.takeWhile_append_dropWhile]
  · simp at h

theorem exists_written (h : ofLine? line = some heading) :
    ∃ head tail, heading.Written head ∧ line = head ++ '(' :: tail := by
  simp only [ofLine?] at h
  obtain ⟨indent, hindent, hline⟩ := exists_blank_append_trimLeft line
  generalize trimLeft line = t at h hline
  split at h
  · rename_i r hr
    obtain ⟨name, hn, rfl⟩ := Option.map_eq_some_iff.mp h
    obtain ⟨e, he, ht⟩ := keyword_skipKeyword "export".toList t
    generalize skipKeyword "export".toList t = t' at hr ht
    obtain ⟨p, hp, ht'⟩ := keyword_skipKeyword "pure".toList t'
    obtain ⟨k, hk, hr'⟩ := keyword_of_afterKeyword? hr
    obtain ⟨gap, tail, hname, hgap, rfl⟩ := exists_of_name? hn
    refine ⟨_, tail, .mk hindent he hp hk hname hgap, ?_⟩
    rw [hline, ht, ht', hr']
    simp
  · simp at h

theorem name?_of_isName {name gap : Text} (hn : IsName name) (hgap : blank gap = true) (t : Text) :
    name? (name ++ (gap ++ '(' :: t)) = some name := by
  obtain ⟨d, r, hr, hd⟩ : ∃ d r, gap ++ '(' :: t = d :: r ∧ isWord d = false := by
    cases gap with
    | nil => exact ⟨'(', t, rfl, by decide⟩
    | cons d gap =>
      simp only [blank_cons, Bool.and_eq_true] at hgap
      exact ⟨d, gap ++ '(' :: t, rfl, not_isWord_of_isBlank hgap.1⟩
  rw [name?, hr, hn.takeWhile_append hd, hn.dropWhile_append hd, ← hr, trimLeft_append_blank hgap,
    trimLeft_cons (by decide)]
  obtain ⟨c, name, rfl⟩ := List.exists_cons_of_ne_nil hn.ne_nil
  rfl

theorem Written.not_mem (h : heading.Written head) (hb : isBlank c = false)
    (hw : isWord c = false) : c ∉ head := by
  have name : ∀ {n : Text}, IsName n → c ∉ n := by
    intro n hn hc
    simp [hn.all c hc] at hw
  have keyword : ∀ {w t : Text} {present : Bool}, IsName w → Keyword w present t → c ∉ t := by
    intro w t present hn hk hc
    rcases hk.mem hc with hc | hc
    · exact name hn hc
    · simp [hb] at hc
  obtain ⟨hindent, he, hp, hk, hname, hgap⟩ := h
  simp only [List.mem_append, not_or]
  exact ⟨not_mem_of_blank hindent hb, keyword (by decide) he, keyword (by decide) hp,
    keyword (by decide) hk, name hname, not_mem_of_blank hgap hb⟩

end Heading

/-! ## The parts of a declaration line -/

namespace Heading

/-- A declaration line in its parts; each keyword comes with the blanks behind it. -/
@[ext] structure Form where
  indent : Text
  exported : Bool
  exportPart : Text
  pure : Bool
  purePart : Text
  circuitPart : Text
  name : Text
  gap : Text
  rest : Text
  blank_indent : blank indent = true
  exportKeyword : Keyword "export".toList exported exportPart
  pureKeyword : Keyword "pure".toList pure purePart
  circuitKeyword : Keyword "circuit".toList true circuitPart
  isName : IsName name
  blank_gap : blank gap = true

namespace Form

variable (f : Form)

def heading : Heading := ⟨f.name, f.exported⟩

def head : Text :=
  f.indent ++ (f.exportPart ++ (f.purePart ++ (f.circuitPart ++ (f.name ++ f.gap))))

def text : Text := f.head ++ '(' :: f.rest

/-! The line from one of its parts on. -/

def fromName : Text := f.name ++ (f.gap ++ '(' :: f.rest)

def fromCircuit : Text := f.circuitPart ++ f.fromName

def fromPure : Text := f.purePart ++ f.fromCircuit

def fromExport : Text := f.exportPart ++ f.fromPure

theorem text_eq : f.text = f.indent ++ f.fromExport := by
  simp [text, head, fromExport, fromPure, fromCircuit, fromName]

theorem name?_fromName : name? f.fromName = some f.name :=
  name?_of_isName f.isName f.blank_gap f.rest

theorem head?_fromCircuit : f.fromCircuit.head? = some 'c' :=
  f.circuitKeyword.head?_append f.fromName

theorem head?_fromPure : f.fromPure.head? = some (if f.pure then 'p' else 'c') := by
  rw [fromPure, f.pureKeyword.head?_append, head?_fromCircuit]
  split <;> rfl

theorem head?_fromExport :
    f.fromExport.head? = some (if f.exported then 'e' else if f.pure then 'p' else 'c') := by
  rw [fromExport, f.exportKeyword.head?_append, head?_fromPure]
  split <;> rfl

theorem trimLeft_fromName : trimLeft f.fromName = f.fromName := f.isName.trimLeft_append

theorem trimLeft_fromCircuit : trimLeft f.fromCircuit = f.fromCircuit :=
  trimLeft_of_head? f.head?_fromCircuit (by decide)

theorem trimLeft_fromPure : trimLeft f.fromPure = f.fromPure := by
  apply trimLeft_of_head? f.head?_fromPure
  cases f.pure <;> decide

theorem trimLeft_fromExport : trimLeft f.fromExport = f.fromExport := by
  apply trimLeft_of_head? f.head?_fromExport
  cases f.exported <;> cases f.pure <;> decide

theorem head?_fromCircuit_ne : f.fromCircuit.head? ≠ some 'p' := by
  rw [head?_fromCircuit]
  decide

theorem head?_fromPure_ne : f.fromPure.head? ≠ some 'e' := by
  rw [head?_fromPure]
  cases f.pure <;> decide

theorem ofLine?_text : ofLine? f.text = some f.heading := by
  have hexport : afterKeyword? "export".toList f.fromExport = _ :=
    f.exportKeyword.afterKeyword?_append f.trimLeft_fromPure fun _ => f.head?_fromPure_ne
  have hskip : skipKeyword "export".toList f.fromExport = f.fromPure :=
    f.exportKeyword.skipKeyword_append f.trimLeft_fromPure fun _ => f.head?_fromPure_ne
  have hpure : skipKeyword "pure".toList f.fromPure = f.fromCircuit :=
    f.pureKeyword.skipKeyword_append f.trimLeft_fromCircuit fun _ => f.head?_fromCircuit_ne
  have hcircuit : afterKeyword? "circuit".toList f.fromCircuit = some f.fromName :=
    f.circuitKeyword.afterKeyword?_append f.trimLeft_fromName (by simp)
  simp only [ofLine?, text_eq, trimLeft_append_blank f.blank_indent, f.trimLeft_fromExport, hskip,
    hpure, hcircuit, f.name?_fromName, Option.map_some, hexport, heading]
  cases f.exported <;> rfl

/-- A line can be taken apart in one way only. -/
theorem text_injective : Function.Injective text := by
  intro f g h
  rw [text_eq, text_eq] at h
  obtain ⟨hindent, h⟩ := append_inj_of_blank f.blank_indent g.blank_indent f.trimLeft_fromExport
    g.trimLeft_fromExport h
  obtain ⟨hexported, hexport, h⟩ := f.exportKeyword.append_inj g.exportKeyword
    f.trimLeft_fromPure g.trimLeft_fromPure (fun _ => f.head?_fromPure_ne)
    (fun _ => g.head?_fromPure_ne) h
  obtain ⟨hispure, hpure, h⟩ := f.pureKeyword.append_inj g.pureKeyword
    f.trimLeft_fromCircuit g.trimLeft_fromCircuit (fun _ => f.head?_fromCircuit_ne)
    (fun _ => g.head?_fromCircuit_ne) h
  obtain ⟨-, hcircuit, h⟩ := f.circuitKeyword.append_inj g.circuitKeyword
    f.trimLeft_fromName g.trimLeft_fromName (by simp) (by simp) h
  have hname : f.name = g.name := by
    have hread := f.name?_fromName
    rw [h, g.name?_fromName] at hread
    exact (Option.some.inj hread).symm
  rw [fromName, fromName, hname] at h
  obtain ⟨hgap, h⟩ := append_inj_of_blank f.blank_gap g.blank_gap (trimLeft_cons (by decide))
    (trimLeft_cons (by decide)) (List.append_cancel_left h)
  exact Form.ext hindent hexported hexport hispure hpure hcircuit hname hgap (List.cons.inj h).2

theorem written : f.heading.Written f.head :=
  .mk f.blank_indent f.exportKeyword f.pureKeyword f.circuitKeyword f.isName f.blank_gap

end Form

/-- A heading is read from exactly the lines that have its parts. -/
theorem ofLine?_eq_some_iff {line : Text} {heading : Heading} :
    ofLine? line = some heading ↔ ∃ f : Form, f.text = line ∧ f.heading = heading := by
  constructor
  · intro h
    obtain ⟨head, tail, ⟨hindent, he, hp, hk, hname, hgap⟩, rfl⟩ := exists_written h
    exact ⟨⟨_, _, _, _, _, _, _, _, tail, hindent, he, hp, hk, hname, hgap⟩, rfl, rfl⟩
  · rintro ⟨f, rfl, rfl⟩
    exact f.ofLine?_text

end Heading

/-! ## Lines with single spaces -/

def keyword (present : Bool) (w : Text) : Text := if present then w ++ [' '] else []

def Heading.words (exported pure : Bool) (name : Text) : Text :=
  keyword exported "export".toList ++ keyword pure "pure".toList ++ "circuit ".toList ++ name

theorem keyword_keyword (present : Bool) (w : Text) : Keyword w present (keyword present w) := by
  cases present with
  | false => exact .absent
  | true => exact .present (by decide) (by simp)

theorem Heading.ofLine?_words (exported pure : Bool) {name : Text} (hn : IsName name) (t : Text) :
    Heading.ofLine? (Heading.words exported pure name ++ '(' :: t) = some ⟨name, exported⟩ := by
  let f : Form := ⟨[], exported, _, pure, _, _, name, [], t, rfl, keyword_keyword exported _,
    keyword_keyword pure _, keyword_keyword true _, hn, rfl⟩
  have hcircuit : keyword true "circuit".toList = "circuit ".toList := by decide
  have hf : f.text = Heading.words exported pure name ++ '(' :: t := by
    simp only [f, Form.text, Form.head, Heading.words, hcircuit, List.nil_append, List.append_nil,
      List.append_assoc]
  rw [← hf]
  exact f.ofLine?_text

end CircuitDocs

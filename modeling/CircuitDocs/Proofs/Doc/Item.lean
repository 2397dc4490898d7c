import CircuitDocs.Proofs.Doc.Plain
import CircuitDocs.Proofs.Doc.Section
import CircuitDocs.Proofs.Doc.Tagged

/-! # Written entries

An entry as an author writes it: a mark, the rest of the line, further lines, and blank lines
before the next entry. The plain text of a block of entries is `chain`: each entry without blanks
at the ends of its lines, and the line breaks in between.
-/

namespace CircuitDocs

open Text

namespace Doc

/-- An entry as it is written: its mark, the rest of that line, further lines, and the number of
blank lines after it. -/
structure Item where
  mark : Mark
  tail : Text
  more : List Text
  gap : Nat
deriving DecidableEq, Repr

namespace Item

variable {e : Item} {es : List Item}

def lines (e : Item) : List Text :=
  (e.mark.text ++ e.tail) :: (e.more ++ List.replicate e.gap [])

def words (e : Item) : List Text := Text.words e.tail ++ e.more.flatMap Text.words

def tagged (e : Item) : Tagged := ⟨e.mark, e.words, e.gap ≠ 0⟩

/-- The text of an entry can be told from the marks and gaps around it. -/
structure WellFormed (e : Item) : Prop where
  mark : e.mark.WellFormed
  tail : '\n' ∉ e.tail ∧ '@' ∉ e.tail
  tail_head : ∀ c t, e.tail = c :: t → isBlank c = true
  more : ∀ l ∈ e.more, '\n' ∉ l ∧ '@' ∉ l ∧ blank l = false

def body (e : Item) : Text := unlines (trimRight e.tail :: e.more.map trimRight)

def text (e : Item) : Text := e.mark.text ++ e.body

def after (gap : Nat) : List Item → Text
  | [] => []
  | e :: es => List.replicate (gap + 1) '\n' ++ (e.text ++ after e.gap es)

def chain : List Item → Text
  | [] => []
  | e :: es => e.text ++ after e.gap es

theorem trimRight_mark_append (m : Mark) (t : Text) :
    trimRight (m.text ++ t) = m.text ++ trimRight t := by
  obtain ⟨u, c, hu, hc⟩ := m.exists_text_eq_concat
  cases hb : blank t with
  | true =>
    rw [trimRight_append_blank hb, trimRight_blank hb, hu, trimRight_concat hc, List.append_nil]
  | false => rw [trimRight_append hb]

theorem trimRight_text (he : e.WellFormed) : trimRight e.text = e.text := by
  rcases List.eq_nil_or_concat' e.more with hm | ⟨ms, m, hm⟩
  · simp only [text, body, hm, List.map_nil, unlines_singleton]
    rw [trimRight_mark_append, trimRight_trimRight]
  · have hb : blank m = false := (he.more m (by simp [hm])).2.2
    simp only [text, body, hm, List.map_append, List.map_cons, List.map_nil, unlines_cons_concat]
    rw [trimRight_append (by simp [hb]), trimRight_append (by simp [hb]),
      trimRight_append (by simp [hb]), ← List.singleton_append,
      trimRight_append (by simpa using hb), trimRight_trimRight]

theorem not_blank_text (e : Item) : blank e.text = false :=
  not_blank_of_mem (c := '@') (by simp [text, Mark.text]) (by decide)

theorem flatMap_replicate_nil (n : Nat) :
    (List.replicate n ([] : Text)).flatMap (fun l => trimRight l ++ ['\n']) =
      List.replicate n '\n' := by
  induction n with
  | zero => rfl
  | succ n ih =>
    rw [List.replicate_succ, List.flatMap_cons, ih]
    rfl

theorem flatMap_lines (e : Item) :
    e.lines.flatMap (fun l => trimRight l ++ ['\n']) =
      e.text ++ List.replicate (e.gap + 1) '\n' := by
  have htext : ((e.mark.text ++ e.tail) :: e.more).flatMap (fun l => trimRight l ++ ['\n']) =
      e.text ++ ['\n'] := by
    rw [← List.flatMap_map (f := trimRight) (g := (· ++ ['\n'])), List.map_cons,
      flatMap_concat_newline (by simp), trimRight_mark_append, unlines_append_cons, text, body]
  rw [lines, ← List.cons_append, List.flatMap_append, htext, flatMap_replicate_nil]
  simp [List.replicate_succ]

theorem trimRight_flatMap_lines (he : ∀ e ∈ es, e.WellFormed) :
    trimRight (es.flatMap fun e => e.text ++ List.replicate (e.gap + 1) '\n') = chain es := by
  induction es with
  | nil => rfl
  | cons e es ih =>
    have ih := ih fun e h => he e (by simp [h])
    rw [List.flatMap_cons]
    cases es with
    | nil =>
      rw [List.flatMap_nil, List.append_nil, trimRight_append_blank (blank_replicate_newline _),
        trimRight_text (he e (by simp)), chain, after, List.append_nil]
    | cons e' es =>
      have hb : blank ((e' :: es).flatMap fun e => e.text ++ List.replicate (e.gap + 1) '\n') =
          false := by
        rw [List.flatMap_cons, List.append_assoc, blank_append, not_blank_text, Bool.false_and]
      rw [trimRight_append hb, ih, chain, chain, after, List.append_assoc]

theorem tidy_eq (ls : List Text) :
    Comment.tidy ls = trim (ls.flatMap fun l => trimRight l ++ ['\n']) := by
  cases ls with
  | nil => rfl
  | cons l ls =>
    rw [← List.flatMap_map (f := trimRight) (g := (· ++ ['\n'])),
      flatMap_concat_newline (by simp), trim_append_blank (by decide), Comment.tidy]

theorem tidy_lines (lead : Nat) (he : ∀ e ∈ es, e.WellFormed) :
    Comment.tidy (List.replicate lead [] ++ es.flatMap lines) = chain es := by
  have hfront : trimLeft (es.flatMap fun e => e.text ++ List.replicate (e.gap + 1) '\n') =
      es.flatMap fun e => e.text ++ List.replicate (e.gap + 1) '\n' := by
    cases es with
    | nil => rfl
    | cons e es => exact trimLeft_cons (by decide)
  rw [tidy_eq, List.flatMap_append, flatMap_replicate_nil,
    trim_blank_append (blank_replicate_newline _), List.flatMap_assoc]
  simp only [flatMap_lines]
  rw [trim, hfront, trimRight_flatMap_lines he]

end Item

end Doc

end CircuitDocs

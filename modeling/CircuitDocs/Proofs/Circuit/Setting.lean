import CircuitDocs.Proofs.Circuit.Parameter

/-! # Settings of a declaration

A declaration is set on one line, or with one parameter to a line. Either way its lines end where
the signature is complete, and the parameters are read back as they were written.
-/

namespace CircuitDocs

open Text

/-- How the parameters of a declaration are set: side by side, or one to a line, then with or
without a comma after the last one. -/
inductive Setting where
  | row
  | column (indent : Text) (comma : Bool)
deriving DecidableEq, Repr

namespace Setting

variable {s : Setting} {ps : List Parameter} {head tail indent : Text} {comma : Bool}

def rowText (ps : List Parameter) : Text := ", ".toList.intercalate (ps.map (·.text))

def columnLines (indent : Text) (comma : Bool) : List Parameter → List Text
  | [] => []
  | [p] => [indent ++ (p.text ++ if comma then [','] else [])]
  | p :: q :: ps => (indent ++ (p.text ++ [','])) :: columnLines indent comma (q :: ps)

def lines (s : Setting) (ps : List Parameter) (head tail : Text) : List Text :=
  match s with
  | row => [head ++ '(' :: (rowText ps ++ ')' :: tail)]
  | column indent comma => (head ++ ['(']) :: (columnLines indent comma ps ++ [')' :: tail])

def inside (s : Setting) (ps : List Parameter) : Text :=
  match s with
  | row => rowText ps
  | column indent comma => (columnLines indent comma ps).flatMap ('\n' :: ·) ++ ['\n']

def WellFormed : Setting → Prop
  | row => True
  | column indent _ => blank indent = true ∧ '\n' ∉ indent

theorem unlines_lines (s : Setting) (ps : List Parameter) (head tail : Text) :
    unlines (s.lines ps head tail) = head ++ '(' :: (s.inside ps ++ ')' :: tail) := by
  cases s with
  | row => exact unlines_singleton _
  | column indent comma => simp [lines, inside, unlines_cons_concat]

theorem exists_lines_eq_cons (s : Setting) (ps : List Parameter) (head tail : Text) :
    ∃ t rest, s.lines ps head tail = (head ++ '(' :: t) :: rest := by
  cases s with
  | row => exact ⟨_, [], rfl⟩
  | column indent comma => exact ⟨[], _, rfl⟩

theorem exists_lines_eq_concat (s : Setting) (ps : List Parameter) (head tail : Text) :
    ∃ rest u, s.lines ps head tail = rest ++ [u ++ ')' :: tail] := by
  cases s with
  | row => exact ⟨[], head ++ '(' :: rowText ps, by simp [lines]⟩
  | column indent comma =>
    exact ⟨(head ++ ['(']) :: columnLines indent comma ps, [], by simp [lines]⟩

theorem mem_columnLines {l : Text} (h : l ∈ columnLines indent comma ps) :
    ∃ p ∈ ps, ∃ v, (v = [] ∨ v = [',']) ∧ l = indent ++ (p.text ++ v) := by
  fun_induction columnLines indent comma ps with
  | case1 => simp at h
  | case2 p =>
    refine ⟨p, by simp, _, ?_, List.mem_singleton.mp h⟩
    cases comma <;> simp
  | case3 p q ps ih =>
    rcases List.mem_cons.mp h with rfl | h
    · exact ⟨p, by simp, [','], by simp, rfl⟩
    · obtain ⟨p', hp', hl⟩ := ih h
      exact ⟨p', by simp [hp'], hl⟩

/-! ## Parameters are read back from either setting -/

theorem ofList_rowText (hps : ∀ p ∈ ps, p.WellFormed) {u : Text} (hu : blank u = true) :
    Parameter.ofList (u ++ rowText ps) = ps := by
  induction ps generalizing u with
  | nil => simpa [rowText] using Parameter.ofList_blank hu
  | cons p ps ih =>
    have hp := hps p (by simp)
    cases ps with
    | nil => simpa [rowText] using hp.ofList_text (v := []) hu rfl
    | cons q ps =>
      have he : rowText (p :: q :: ps) = p.text ++ ',' :: ([' '] ++ rowText (q :: ps)) := by
        simp [rowText]
      rw [he, hp.ofList_text_comma hu, ih (fun p hp => hps p (by simp [hp])) (by decide)]

theorem ofList_column (hps : ∀ p ∈ ps, p.WellFormed) (hi : blank indent = true) (comma : Bool) :
    Parameter.ofList (inside (column indent comma) ps) = ps := by
  have hn : blank ('\n' :: indent) = true := by simpa [hi] using (by decide)
  have hend : blank ['\n'] = true := by decide
  induction ps with
  | nil => exact Parameter.ofList_blank hend
  | cons p ps ih =>
    have hp := hps p (by simp)
    cases ps with
    | nil =>
      cases comma with
      | false => simpa [inside, columnLines] using hp.ofList_text hn hend
      | true =>
        have h := hp.ofList_text_comma hn ['\n']
        rw [Parameter.ofList_blank hend] at h
        simpa [inside, columnLines] using h
    | cons q ps =>
      have he : inside (column indent comma) (p :: q :: ps) =
          '\n' :: indent ++ (p.text ++ ',' :: inside (column indent comma) (q :: ps)) := by
        simp [inside, columnLines]
      rw [he, hp.ofList_text_comma hn, ih fun p hp => hps p (by simp [hp])]

theorem ofList_inside (hs : s.WellFormed) (hps : ∀ p ∈ ps, p.WellFormed) :
    Parameter.ofList (s.inside ps) = ps := by
  cases s with
  | row => simpa [inside] using ofList_rowText hps (u := []) rfl
  | column indent comma => exact ofList_column hps hs.1 comma

/-! ## A declaration ends with its last line -/

theorem balanced_of_blank {u : Text} (hu : blank u = true) : Paren.Balanced u := by
  rw [blank_iff] at hu
  exact .of_not_mem (fun h => absurd (hu _ h) (by decide)) (fun h => absurd (hu _ h) (by decide))

theorem balanced_rowText (hps : ∀ p ∈ ps, p.WellFormed) : Paren.Balanced (rowText ps) := by
  induction ps with
  | nil => exact .nil
  | cons p ps ih =>
    have hp := (hps p (by simp)).balanced_text
    cases ps with
    | nil => simpa [rowText] using hp
    | cons q ps =>
      have he : rowText (p :: q :: ps) = p.text ++ (", ".toList ++ rowText (q :: ps)) := by
        simp [rowText]
      rw [he]
      exact hp.append ((Paren.Balanced.of_not_mem (by decide) (by decide)).append
        (ih fun p hp => hps p (by simp [hp])))

theorem balanced_of_mem_columnLines (hps : ∀ p ∈ ps, p.WellFormed) (hi : blank indent = true)
    {l : Text} (h : l ∈ columnLines indent comma ps) : Paren.Balanced l := by
  obtain ⟨p, hp, v, hv, rfl⟩ := mem_columnLines h
  refine (balanced_of_blank hi).append ((hps p hp).balanced_text.append ?_)
  rcases hv with rfl | rfl <;> exact .of_not_mem (by decide) (by decide)

theorem balanced_inside (hs : s.WellFormed) (hps : ∀ p ∈ ps, p.WellFormed) :
    Paren.Balanced (s.inside ps) := by
  cases s with
  | row => exact balanced_rowText hps
  | column indent comma =>
    have h : ∀ ls : List Text, (∀ l ∈ ls, Paren.Balanced l) →
        Paren.Balanced (ls.flatMap ('\n' :: ·)) := by
      intro ls hls
      induction ls with
      | nil => exact .nil
      | cons l ls ih =>
        exact .cons (by decide) (by decide) ((hls l (by simp)).append
          (ih fun l hl => hls l (by simp [hl])))
    exact (h _ fun l hl => balanced_of_mem_columnLines hps hs.1 hl).append
      (.of_not_mem (by decide) (by decide))

theorem span_lines (hs : s.WellFormed) (hps : ∀ p ∈ ps, p.WellFormed) (ho : '(' ∉ head)
    (hc : ')' ∉ head) (ht : ':' ∈ tail) (rest : List Text) :
    Signature.span .start (s.lines ps head tail ++ rest) = s.lines ps head tail := by
  have hend : ∀ (u : Text) (p : Signature.Progress), p.read u = .inside →
      (p.read (u ++ ')' :: tail)).endsAt (u ++ ')' :: tail) = true := by
    intro u p hp
    rw [Signature.Progress.read_append, hp, Signature.Progress.endsAt,
      Signature.Progress.closed_read_close]
    simp [ht]
  cases s with
  | row =>
    have hr : Signature.Progress.start.read ((head ++ ['(']) ++ rowText ps) = .inside := by
      rw [Signature.Progress.read_append, Signature.Progress.read_head ho hc,
        Signature.Progress.read_balanced (balanced_rowText hps) (by decide)]
    have h := hend _ _ hr
    rw [show head ++ ['('] ++ rowText ps ++ ')' :: tail = head ++ '(' :: (rowText ps ++ ')' :: tail)
      by simp] at h
    exact Signature.span_of_endsAt h
  | column indent comma =>
    have hlast := hend [] .inside rfl
    have hbalanced : ∀ l ∈ columnLines indent comma ps, Paren.Balanced l :=
      fun l hl => balanced_of_mem_columnLines hps hs.1 hl
    rw [lines, List.cons_append, List.append_assoc, List.singleton_append, Signature.span,
      Signature.Progress.read_head ho hc, Signature.span_inside hbalanced]
    rw [List.nil_append] at hlast
    rw [Signature.span_of_endsAt hlast]
    rfl

theorem newline_not_mem_rowText (hps : ∀ p ∈ ps, '\n' ∉ p.text) : '\n' ∉ rowText ps := by
  induction ps with
  | nil => simp [rowText]
  | cons p ps ih =>
    cases ps with
    | nil => simpa [rowText] using hps p (by simp)
    | cons q ps =>
      have he : rowText (p :: q :: ps) = p.text ++ (", ".toList ++ rowText (q :: ps)) := by
        simp [rowText]
      simpa [he, hps p (by simp)] using ih fun p hp => hps p (by simp [hp])

theorem newline_not_mem_lines (hs : s.WellFormed) (hps : ∀ p ∈ ps, p.WellFormed)
    (hh : '\n' ∉ head) (ht : '\n' ∉ tail) {l : Text} (hl : l ∈ s.lines ps head tail) :
    '\n' ∉ l := by
  have hp : ∀ p ∈ ps, '\n' ∉ p.text := fun p hp => (hps p hp).newline_not_mem_text
  cases s with
  | row =>
    rw [List.mem_singleton.mp hl]
    simp [hh, ht, newline_not_mem_rowText hp]
  | column indent comma =>
    simp only [lines, List.mem_cons, List.mem_append, List.not_mem_nil, or_false] at hl
    rcases hl with rfl | hl | rfl
    · simp [hh]
    · obtain ⟨p, hp', v, hv, rfl⟩ := mem_columnLines hl
      rcases hv with rfl | rfl <;> simp [hs.2, hp p hp']
    · simp [ht]

theorem not_declares_of_mem_tail (hs : s.WellFormed) (hps : ∀ p ∈ ps, p.WellFormed) {l : Text}
    (hl : l ∈ (s.lines ps head tail).tail) : declares l = false := by
  cases s with
  | row => simp [lines] at hl
  | column indent comma =>
    simp only [lines, List.tail_cons, List.mem_append, List.mem_singleton] at hl
    rcases hl with hl | rfl
    · obtain ⟨p, hp, v, -, rfl⟩ := mem_columnLines hl
      have h := not_declares_of_colon hs.1 (hps p hp).name (' ' :: (p.type ++ v))
      simpa [Parameter.text] using h
    · exact not_declares_of_head (trimLeft_cons (by decide)) (by decide)

end Setting

end CircuitDocs

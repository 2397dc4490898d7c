import CircuitDocs.Proofs.Json.Scalar

/-! # What the decoder accepts

The readers of lists and values are exact, given that the readers within them are, so the decoder
accepts exactly the documents of the grammar. A text stands for at most one value.
-/

namespace CircuitDocs.Json

open Text

variable {t u r l : Text} {c : Char} {n m : Nat} {q : ℚ} {v : Value}

/-! ## White space -/

theorem skip_append (hl : IsSpace l) (t : Text) : skip (l ++ t) = skip t :=
  List.dropWhile_append_of_pos hl

theorem skip_cons (hc : isSpace c = false) (t : Text) : skip (c :: t) = c :: t := by
  simp [skip, hc]

theorem exists_space_append_skip (t : Text) : ∃ l, IsSpace l ∧ t = l ++ skip t :=
  ⟨t.takeWhile isSpace, fun _ hc => List.mem_takeWhile_imp hc,
    List.takeWhile_append_dropWhile.symm⟩

theorem ends_append (hl : IsSpace l) (hr : Ends r) : Ends (l ++ r) := by
  cases l with
  | nil => exact hr
  | cons c l =>
    intro d hd
    obtain rfl : c = d := Option.some.inj hd
    have hspace : ∀ c, isSpace c = true → numeric c = false := by
      intro c hc
      simp only [isSpace, Bool.or_eq_true, decide_eq_true_eq] at hc
      rcases hc with ((rfl | rfl) | rfl) | rfl <;> decide
    exact hspace c (hl c (.head _))

/-! ## Lists -/

section Lists

variable {α : Type} {P : α → Text → Prop} {read : Text → Option (α × Text)} {close : Char}
  {as : List α}

def brackets : List Char := [']', '\x7d']

/-- What a list needs of the texts in it and of their reader, for texts up to a length. The texts
begin with something else than white space and a bracket; the reader takes one of them from the
front if no number goes on behind it, and white space before it makes no difference. -/
structure Complete (P : α → Text → Prop) (read : Text → Option (α × Text)) (m : Nat) : Prop where
  opens : ∀ {a u}, P a u → ∃ c v, u = c :: v ∧ isSpace c = false ∧ c ∉ brackets
  reads : ∀ {a u r}, P a u → u.length ≤ m → Ends r → read (u ++ r) = some (a, r)
  skips : ∀ {l t}, IsSpace l → read (l ++ t) = read t

/-- A reader that takes nothing else from the front of a text than white space and one of the
given texts. -/
def Sound (P : α → Text → Prop) (read : Text → Option (α × Text)) : Prop :=
  ∀ {t a r}, read t = some (a, r) → ∃ l u, IsSpace l ∧ t = l ++ (u ++ r) ∧ P a u

theorem brackets_spec : ∀ c ∈ brackets, isSpace c = false ∧ c ≠ ',' ∧ numeric c = false := by
  simp [brackets, isSpace, numeric]

theorem items?_append (hread : Complete P read m) (hclose : close ∈ brackets)
    (h : Listed P as t) (hne : as ≠ []) (hm : t.length ≤ m) (hn : t.length ≤ n) (r : Text) :
    items? read close n (t ++ close :: r) = some (as, r) := by
  obtain ⟨hspace, hcomma, hnumeric⟩ := brackets_spec close hclose
  have hitem : ∀ {a l u w c k} (rest : Text), IsSpace l → P a u → IsSpace w → u.length ≤ m →
      numeric c = false → isSpace c = false →
      items? read close (k + 1) (l ++ (u ++ (w ++ c :: rest))) =
        if c = close then some ([a], rest)
        else if c = ',' then (items? read close k rest).map (Prod.map (a :: ·) id)
        else none := by
    intro a l u w c k rest hl hu hw hlength hc hc'
    have hends : Ends (w ++ c :: rest) := ends_append hw fun d hd => by
      obtain rfl : c = d := Option.some.inj hd
      exact hc
    rw [items?, hread.skips hl, hread.reads hu hlength hends]
    simp only [Option.bind_eq_bind, Option.bind_some, skip_append hw, skip_cons hc']
    rfl
  induction h generalizing n with
  | nil => exact absurd rfl hne
  | @last a l u w hl hu hw =>
    obtain ⟨c, v, rfl, -, -⟩ := hread.opens hu
    simp only [List.length_append, List.length_cons] at hm hn
    obtain ⟨k, rfl⟩ : ∃ k, n = k + 1 := ⟨n - 1, by omega⟩
    rw [List.append_assoc, List.append_assoc, hitem r hl hu hw (by simp; omega) hnumeric hspace,
      if_pos rfl]
  | @cons a b as l u w t hl hu hw ht ih =>
    simp only [List.length_append, List.length_cons] at hm hn
    obtain ⟨k, rfl⟩ : ∃ k, n = k + 1 := ⟨n - 1, by omega⟩
    rw [List.append_assoc, List.append_assoc, List.append_assoc, List.cons_append,
      hitem _ hl hu hw (by omega) (by decide) (by decide), if_neg hcomma.symm, if_pos rfl,
      ih (by simp) (by omega) (by omega)]
    rfl

theorem listed_of_items? (hread : Sound P read) (h : items? read close n t = some (as, r)) :
    ∃ u, t = u ++ close :: r ∧ as ≠ [] ∧ Listed P as u := by
  induction n generalizing t as with
  | zero => contradiction
  | succ n ih =>
    simp only [items?, Option.bind_eq_bind, Option.bind_eq_some_iff, Prod.exists] at h
    obtain ⟨a, t', ha, h⟩ := h
    obtain ⟨l, u, hl, rfl, hu⟩ := hread ha
    obtain ⟨w, hw, hw'⟩ := exists_space_append_skip t'
    split at h
    · rename_i c rest hskip
      rw [hskip] at hw'
      subst hw'
      split at h
      · rename_i hc
        obtain ⟨rfl, rfl⟩ := Prod.mk.inj (Option.some.inj h)
        exact ⟨l ++ (u ++ w), by simp [hc], by simp, .last hl hu hw⟩
      · split at h
        · rename_i hc
          subst hc
          obtain ⟨⟨bs, r'⟩, hrest, he⟩ := Option.map_eq_some_iff.mp h
          obtain ⟨rfl, rfl⟩ := Prod.mk.inj he
          obtain ⟨v, rfl, hbs, hv⟩ := ih hrest
          obtain ⟨b, bs', rfl⟩ := List.exists_cons_of_ne_nil hbs
          exact ⟨l ++ (u ++ (w ++ ',' :: v)), by simp, by simp, .cons hl hu hw hv⟩
        · contradiction
    · contradiction

theorem listed?_append (hread : Complete P read m) (hclose : close ∈ brackets)
    (h : Listed P as t) (hm : t.length ≤ m) (hn : t.length ≤ n) (r : Text) :
    listed? read close n (t ++ close :: r) = some (as, r) := by
  have hspace := (brackets_spec close hclose).1
  have hitems : ∀ {a l u} (rest : Text), IsSpace l → P a u →
      listed? read close n (l ++ (u ++ rest)) = items? read close n (l ++ (u ++ rest)) := by
    intro a l u rest hl hu
    obtain ⟨c, v, rfl, hc, hbracket⟩ := hread.opens hu
    rw [listed?, skip_append hl, List.cons_append, skip_cons hc]
    simp only
    rw [if_neg]
    rintro rfl
    exact hbracket hclose
  cases h with
  | nil hw =>
    rw [listed?, skip_append hw, skip_cons hspace]
    simp only [if_true]
  | last hl hu hw =>
    rw [← items?_append hread hclose (.last hl hu hw) (by simp) hm hn, List.append_assoc,
      List.append_assoc]
    exact hitems _ hl hu
  | cons hl hu hw ht =>
    rw [← items?_append hread hclose (.cons hl hu hw ht) (by simp) hm hn, List.append_assoc,
      List.append_assoc]
    exact hitems _ hl hu

theorem listed_of_listed? (hread : Sound P read) (h : listed? read close n t = some (as, r)) :
    ∃ u, t = u ++ close :: r ∧ Listed P as u := by
  unfold listed? at h
  split at h
  · rename_i c rest hskip
    split at h
    · rename_i hc
      obtain ⟨rfl, rfl⟩ := Prod.mk.inj (Option.some.inj h)
      obtain ⟨l, hl, ht⟩ := exists_space_append_skip t
      rw [hskip, hc] at ht
      exact ⟨l, ht, .nil hl⟩
    · obtain ⟨u, ht, -, hu⟩ := listed_of_items? hread h
      exact ⟨u, ht, hu⟩
  · contradiction

end Lists

/-! ## Values -/

theorem Number.head_not_mem (h : Number q t) :
    ∃ c u, t = c :: u ∧ isSpace c = false ∧ c ∉ brackets ∧
      c ∉ ['\x22', '[', '\x7b', 'n', 't', 'f'] := by
  obtain ⟨c, u, rfl, hc⟩ := h.head
  have hother : ∀ {d : Char}, d ≠ '-' → d.isDigit = false → c ≠ d := by
    rintro d hminus hdigit rfl
    rcases hc with rfl | hc
    · exact hminus rfl
    · exact absurd hc (by simp [hdigit])
  exact ⟨c, u, rfl, by simp [isSpace, hother], by simp [brackets, hother], by simp [hother]⟩

theorem Written.opens (h : Written v t) :
    ∃ c u, t = c :: u ∧ isSpace c = false ∧ c ∉ brackets := by
  cases h with
  | literal h =>
    simp only [literals, List.mem_cons, Prod.mk.injEq, List.not_mem_nil, or_false] at h
    rcases h with ⟨rfl, -⟩ | ⟨rfl, -⟩ | ⟨rfl, -⟩
    all_goals exact ⟨_, _, rfl, by decide, by decide⟩
  | number h =>
    obtain ⟨c, u, rfl, hspace, hbracket, -⟩ := h.head_not_mem
    exact ⟨c, u, rfl, hspace, hbracket⟩
  | str | arr | obj => exact ⟨_, _, rfl, by decide, by decide⟩

theorem scalar?_literal (h : (t, v) ∈ literals) (r : Text) : scalar? (t ++ r) = some (v, r) := by
  simp only [literals, List.mem_cons, Prod.mk.injEq, List.not_mem_nil, or_false] at h
  rcases h with ⟨rfl, rfl⟩ | ⟨rfl, rfl⟩ | ⟨rfl, rfl⟩
  all_goals rfl

theorem scalar?_number (h : Number q t) (hr : Ends r) :
    scalar? (t ++ r) = some (.number q, r) := by
  obtain ⟨c, u, rfl, -, -, hc⟩ := h.head_not_mem
  simp only [List.mem_cons, List.not_mem_nil, or_false, not_or] at hc
  have hnone : (literals.findSome? fun entry =>
      (after? entry.1 (c :: u ++ r)).map (entry.2, ·)) = none := by
    simp [literals, after?, Ne.symm hc.2.2.2.1, Ne.symm hc.2.2.2.2.1, Ne.symm hc.2.2.2.2.2]
  rw [scalar?, hnone, number?_append h hr]
  rfl

theorem written_of_scalar? (h : scalar? t = some (v, r)) : ∃ u, t = u ++ r ∧ Written v u := by
  rcases Option.or_eq_some_iff.mp h with h | ⟨-, h⟩
  · obtain ⟨⟨w, v'⟩, hmem, hw⟩ := List.exists_of_findSome?_eq_some h
    obtain ⟨r', hafter, he⟩ := Option.map_eq_some_iff.mp hw
    obtain ⟨rfl, rfl⟩ := Prod.mk.inj he
    exact ⟨w, after?_eq_some_iff.mp hafter, .literal hmem⟩
  · obtain ⟨⟨q, r'⟩, hnumber, he⟩ := Option.map_eq_some_iff.mp h
    obtain ⟨rfl, rfl⟩ := Prod.mk.inj he
    obtain ⟨u, rfl, hu⟩ := number_of_number? hnumber
    exact ⟨u, rfl, .number hu⟩

theorem complete_keyed? {read : Text → Option (Value × Text)} {P : Value → Text → Prop}
    (hread : Complete P read m) : Complete (Keyed P) (keyed? m read) m where
  opens h := by
    cases h with
    | mk => exact ⟨'\x22', _, rfl, by decide, by decide⟩
  reads := by
    intro a u r h hm hr
    cases h with
    | @mk key k l w u v hk hl hw hu =>
      simp only [List.length_append, List.length_cons] at hm
      have hassoc : '\x22' :: (k ++ '\x22' :: (l ++ ':' :: (w ++ u))) ++ r =
          '\x22' :: (k ++ '\x22' :: (l ++ ':' :: (w ++ (u ++ r)))) := by simp
      have hcolon : skip (l ++ ':' :: (w ++ (u ++ r))) = ':' :: (w ++ (u ++ r)) := by
        rw [skip_append hl, skip_cons (by decide)]
      rw [hassoc, keyed?, skip_cons (by decide)]
      simp [after?, string?_append hk (by omega : k.length ≤ m), hcolon, hread.skips hw,
        hread.reads hu (by omega) hr]
  skips := by
    intro l t hl
    rw [keyed?, keyed?, skip_append hl]

theorem sound_keyed? {read : Text → Option (Value × Text)} {P : Value → Text → Prop}
    (hread : Sound P read) : Sound (Keyed P) (keyed? n read) := by
  intro t a r h
  simp only [keyed?, Option.bind_eq_bind, Option.bind_eq_some_iff, Prod.exists, Option.pure_def,
    Option.some.injEq, Prod.mk.injEq, after?_eq_some_iff] at h
  obtain ⟨t₁, hquote, key, t₂, hkey, t₃, hcolon, v, r', hv, rfl, rfl⟩ := h
  obtain ⟨l, hl, ht⟩ := exists_space_append_skip t
  obtain ⟨k, rfl, hk⟩ := spells_of_string? hkey
  obtain ⟨l', hl', ht'⟩ := exists_space_append_skip t₂
  obtain ⟨w, u, hw, rfl, hu⟩ := hread hv
  refine ⟨l, _, hl, ?_, .mk hk hl' hw hu⟩
  rw [ht, hquote, ht', hcolon]
  simp

theorem value?_skip (n : Nat) (hl : IsSpace l) (t : Text) : value? n (l ++ t) = value? n t := by
  cases n with
  | zero => rfl
  | succ n => rw [value?, value?, skip_append hl]

theorem value?_scalar (hc : isSpace c = false) (hmem : c ∉ ['\x22', '[', '\x7b']) (t : Text) :
    value? (n + 1) (c :: t) = scalar? (c :: t) := by
  rw [value?, skip_cons hc]
  simp only [List.mem_cons, List.not_mem_nil, or_false, not_or] at hmem
  split
  · exact absurd (List.cons.inj ‹_›).1 hmem.1
  · exact absurd (List.cons.inj ‹_›).1 hmem.2.1
  · exact absurd (List.cons.inj ‹_›).1 hmem.2.2
  · rfl

theorem value?_append (h : Written v t) (hn : t.length ≤ n) (hr : Ends r) :
    value? n (t ++ r) = some (v, r) := by
  induction n generalizing v t r with
  | zero =>
    obtain ⟨c, u, rfl, -, -⟩ := h.opens
    simp at hn
  | succ n ih =>
    -- What stands between brackets is shorter by two, so the bound that is left suffices for it.
    have hread : Complete Written (value? n) n := ⟨Written.opens, ih, fun hl => value?_skip n hl _⟩
    cases h with
    | literal h =>
      rw [← scalar?_literal h r]
      simp only [literals, List.mem_cons, Prod.mk.injEq, List.not_mem_nil, or_false] at h
      rcases h with ⟨rfl, -⟩ | ⟨rfl, -⟩ | ⟨rfl, -⟩
      all_goals exact value?_scalar (by decide) (by decide) _
    | number h =>
      rw [← scalar?_number h hr]
      obtain ⟨c, u, rfl, hspace, -, hc⟩ := h.head_not_mem
      refine value?_scalar hspace (fun hmem => hc ?_) _
      simp only [List.mem_cons] at hmem ⊢
      tauto
    | @str s t h =>
      rw [List.length_cons, List.length_append, List.length_singleton] at hn
      rw [value?, List.cons_append, skip_cons (by decide), List.append_assoc]
      simp [string?_append h (by omega : t.length ≤ n)]
    | @arr vs t h =>
      rw [List.length_cons, List.length_append, List.length_singleton] at hn
      rw [value?, List.cons_append, skip_cons (by decide), List.append_assoc]
      simp [listed?_append hread (show ']' ∈ brackets by decide) h (by omega : t.length ≤ n)
        (by omega : t.length ≤ n)]
    | @obj fs t h =>
      rw [List.length_cons, List.length_append, List.length_singleton] at hn
      rw [value?, List.cons_append, skip_cons (by decide), List.append_assoc]
      simp [listed?_append (complete_keyed? hread) (show '\x7d' ∈ brackets by decide) h
        (by omega : t.length ≤ n) (by omega : t.length ≤ n)]

theorem sound_value? (n : Nat) : Sound Written (value? n) := by
  induction n with
  | zero =>
    intro t v r h
    contradiction
  | succ n ih =>
    intro t v r h
    obtain ⟨l, hl, ht⟩ := exists_space_append_skip t
    suffices ∃ u, skip t = u ++ r ∧ Written v u by
      obtain ⟨u, hu, hw⟩ := this
      exact ⟨l, u, hl, hu ▸ ht, hw⟩
    rw [value?] at h
    split at h
    · rename_i t' hskip
      obtain ⟨⟨s, r'⟩, hs, he⟩ := Option.map_eq_some_iff.mp h
      obtain ⟨rfl, rfl⟩ := Prod.mk.inj he
      obtain ⟨u, rfl, hu⟩ := spells_of_string? hs
      exact ⟨_, by rw [hskip]; simp, .str hu⟩
    · rename_i t' hskip
      obtain ⟨⟨vs, r'⟩, hs, he⟩ := Option.map_eq_some_iff.mp h
      obtain ⟨rfl, rfl⟩ := Prod.mk.inj he
      obtain ⟨u, rfl, hu⟩ := listed_of_listed? ih hs
      exact ⟨_, by rw [hskip]; simp, .arr hu⟩
    · rename_i t' hskip
      obtain ⟨⟨fs, r'⟩, hs, he⟩ := Option.map_eq_some_iff.mp h
      obtain ⟨rfl, rfl⟩ := Prod.mk.inj he
      obtain ⟨u, rfl, hu⟩ := listed_of_listed? (sound_keyed? ih) hs
      exact ⟨_, by rw [hskip]; simp, .obj hu⟩
    · exact written_of_scalar? h

/-- The decoder answers exactly on documents, with the value that they stand for. -/
theorem decode_eq_some_iff : decode t = some v ↔ Document v t := by
  rw [decode, Option.bind_eq_some_iff]
  constructor
  · rintro ⟨⟨v', r⟩, hvalue, h⟩
    obtain ⟨l, u, hl, rfl, hu⟩ := sound_value? _ hvalue
    dsimp only at h
    split at h
    · rename_i hskip
      obtain rfl : v' = v := Option.some.inj h
      obtain ⟨w, hw, hr⟩ := exists_space_append_skip r
      rw [List.isEmpty_iff.mp hskip, List.append_nil] at hr
      exact .mk hl hu (hr ▸ hw)
    · contradiction
  · intro h
    cases h with
    | @mk l u r hl hu hr =>
      have hlength : u.length ≤ (l ++ (u ++ r)).length := by
        rw [List.length_append, List.length_append]
        omega
      have hend : Ends r ∧ skip r = [] := by
        have happend := ends_append hr (r := []) (by simp [Ends])
        have hskip := skip_append hr []
        rw [List.append_nil] at happend hskip
        exact ⟨happend, hskip⟩
      refine ⟨(v, r), ?_, by simp [hend.2]⟩
      rw [value?_skip _ hl, value?_append hu hlength hend.1]

theorem Document.unique {w : Value} (h : Document v t) (h' : Document w t) : v = w := by
  rw [← decode_eq_some_iff] at h h'
  exact Option.some.inj (h.symm.trans h')

end CircuitDocs.Json

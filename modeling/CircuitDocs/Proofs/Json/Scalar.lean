import CircuitDocs.Proofs.Json.Decode
import Mathlib.Data.List.TakeWhile

/-! # Reading numbers and strings

Each reader takes from the front of a text what the grammar allows there, and nothing else. A number
is taken whole only if what follows does not go on with it.
-/

namespace CircuitDocs.Json

open Text

variable {t u r s ds f x : Text} {c : Char} {e : ℤ} {q : ℚ} {n : Nat}

/-! ## Numbers -/

def numeric (c : Char) : Bool := c.isDigit || c ∈ ['.', 'e', 'E']

/-- Text that does not go on with a number in front of it. -/
def Ends (r : Text) : Prop := ∀ c ∈ r.head?, numeric c = false

theorem digits?_append (hd : Digits ds) (hr : ∀ c ∈ r.head?, c.isDigit = false) :
    digits? (ds ++ r) = some (ds, r) := by
  have hstop : r.takeWhile Char.isDigit = [] ∧ r.dropWhile Char.isDigit = r := by
    cases r with
    | nil => exact ⟨rfl, rfl⟩
    | cons c r => simp [hr c rfl]
  have htake : (ds ++ r).takeWhile Char.isDigit = ds := by
    rw [List.takeWhile_append_of_pos hd.all, hstop.1, List.append_nil]
  have hdrop : (ds ++ r).dropWhile Char.isDigit = r := by
    rw [List.dropWhile_append_of_pos hd.all, hstop.2]
  obtain ⟨d, ds', rfl⟩ := List.exists_cons_of_ne_nil hd.ne_nil
  rw [digits?, htake, hdrop]

theorem digits_of_digits? (h : digits? t = some (ds, r)) : Digits ds ∧ t = ds ++ r := by
  unfold digits? at h
  split at h
  · contradiction
  · rename_i hne
    obtain ⟨rfl, rfl⟩ := Prod.mk.inj (Option.some.inj h)
    exact ⟨⟨hne, fun c hc => List.mem_takeWhile_imp hc⟩, List.takeWhile_append_dropWhile.symm⟩

theorem whole?_append (hw : Whole ds) (hr : ∀ c ∈ r.head?, c.isDigit = false) :
    whole? (ds ++ r) = some (ds, r) := by
  rw [whole?, digits?_append hw.toDigits hr, Option.filter_some, if_pos]
  by_cases h0 : ds.head? = some '0'
  · simp [hw.unpadded h0]
  · simp [h0]

theorem whole_of_whole? (h : whole? t = some (ds, r)) : Whole ds ∧ t = ds ++ r := by
  obtain ⟨hdigits, hhead⟩ := Option.filter_eq_some_iff.mp h
  obtain ⟨hd, ht⟩ := digits_of_digits? hdigits
  refine ⟨⟨hd, fun h0 => ?_⟩, ht⟩
  simpa [h0] using hhead

theorem fraction?_append (h : Fraction ds f) (hr : ∀ c ∈ r.head?, c.isDigit = false ∧ c ≠ '.') :
    fraction? (f ++ r) = some (ds, r) := by
  cases h with
  | absent =>
    cases r with
    | nil => rfl
    | cons c r =>
      rw [List.nil_append, fraction?]
      rintro t he
      exact (hr c rfl).2 (List.cons.inj he).1
  | present hd => exact digits?_append hd fun c hc => (hr c hc).1

theorem fraction_of_fraction? (h : fraction? t = some (ds, r)) :
    ∃ f, t = f ++ r ∧ Fraction ds f := by
  unfold fraction? at h
  split at h
  · obtain ⟨hd, rfl⟩ := digits_of_digits? h
    exact ⟨'.' :: ds, rfl, .present hd⟩
  · obtain ⟨rfl, rfl⟩ := Prod.mk.inj (Option.some.inj h)
    exact ⟨[], rfl, .absent⟩

theorem signed?_append (h : Signed e x) (hr : ∀ c ∈ r.head?, c.isDigit = false) :
    signed? (x ++ r) = some (e, r) := by
  cases h with
  | bare hd =>
    obtain ⟨d, ds, rfl⟩ := List.exists_cons_of_ne_nil hd.ne_nil
    have hdigit := hd.all d (.head _)
    rw [signed?, digits?_append hd hr]
    · rfl
    all_goals
      rintro t he
      obtain ⟨rfl, -⟩ := List.cons.inj he
      exact absurd hdigit (by decide)
  | plus hd | minus hd =>
    rw [List.cons_append, signed?, digits?_append hd hr]
    rfl

theorem signed_of_signed? (h : signed? t = some (e, r)) : ∃ x, t = x ++ r ∧ Signed e x := by
  unfold signed? at h
  split at h
  all_goals
    obtain ⟨⟨ds, r'⟩, hd, he⟩ := Option.map_eq_some_iff.mp h
    obtain ⟨hds, rfl⟩ := digits_of_digits? hd
    obtain ⟨rfl, rfl⟩ := Prod.mk.inj he
  · exact ⟨'+' :: ds, rfl, .plus hds⟩
  · exact ⟨'-' :: ds, rfl, .minus hds⟩
  · exact ⟨ds, rfl, .bare hds⟩

theorem exponent?_append (h : Exponent e x) (hr : Ends r) : exponent? (x ++ r) = some (e, r) := by
  cases h with
  | absent =>
    cases r with
    | nil => rfl
    | cons c r =>
      have hn := hr c rfl
      rw [List.nil_append, exponent?, if_neg]
      intro hc
      simp [numeric, hc] at hn
  | present hc hs =>
    rw [List.cons_append, exponent?, if_pos hc]
    exact signed?_append hs fun c hc => (Bool.or_eq_false_iff.mp (hr c hc)).1

theorem exponent_of_exponent? (h : exponent? t = some (e, r)) :
    ∃ x, t = x ++ r ∧ Exponent e x := by
  unfold exponent? at h
  split at h
  · split at h
    · rename_i hc
      obtain ⟨x, rfl, hs⟩ := signed_of_signed? h
      exact ⟨_ :: x, rfl, .present hc hs⟩
    · obtain ⟨rfl, rfl⟩ := Prod.mk.inj (Option.some.inj h)
      exact ⟨[], rfl, .absent⟩
  · obtain ⟨rfl, rfl⟩ := Prod.mk.inj (Option.some.inj h)
    exact ⟨[], rfl, .absent⟩

theorem Exponent.head (h : Exponent e x) (hr : Ends r) :
    ∀ c ∈ (x ++ r).head?, c.isDigit = false ∧ c ≠ '.' := by
  intro c hc
  cases h with
  | absent =>
    have hn := hr c hc
    simp only [numeric, List.mem_cons, Bool.or_eq_false_iff, decide_eq_false_iff_not,
      not_or] at hn
    exact ⟨hn.1, hn.2.1⟩
  | @present d e t hd hs =>
    obtain rfl : d = c := Option.some.inj hc
    have hletters : ∀ d ∈ ['e', 'E'], d.isDigit = false ∧ d ≠ '.' := by simp
    exact hletters d hd

theorem Fraction.head (h : Fraction ds f) (hr : ∀ c ∈ r.head?, c.isDigit = false ∧ c ≠ '.') :
    ∀ c ∈ (f ++ r).head?, c.isDigit = false := by
  intro c hc
  cases h with
  | absent => exact (hr c hc).1
  | present hd =>
    obtain rfl : '.' = c := Option.some.inj hc
    decide

theorem magnitude?_append {whole fraction : Text} (hw : Whole whole) (hf : Fraction fraction f)
    (hx : Exponent e x) (hr : Ends r) :
    magnitude? (whole ++ (f ++ x) ++ r) = some (magnitude whole fraction e, r) := by
  have hxr := hx.head hr
  rw [List.append_assoc, List.append_assoc, magnitude?, whole?_append hw (hf.head hxr)]
  simp [fraction?_append hf hxr, exponent?_append hx hr]

theorem exists_of_magnitude? (h : magnitude? t = some (q, r)) :
    ∃ whole fraction f x e, t = whole ++ (f ++ x) ++ r ∧ Whole whole ∧ Fraction fraction f ∧
      Exponent e x ∧ q = magnitude whole fraction e := by
  unfold magnitude? at h
  simp only [Option.bind_eq_bind, Option.bind_eq_some_iff, Prod.exists, Option.pure_def,
    Option.some.injEq, Prod.mk.injEq] at h
  obtain ⟨whole, v, hwhole, fraction, w, hfraction, e, y, hexponent, rfl, rfl⟩ := h
  obtain ⟨hw, rfl⟩ := whole_of_whole? hwhole
  obtain ⟨f, rfl, hf⟩ := fraction_of_fraction? hfraction
  obtain ⟨x, rfl, hx⟩ := exponent_of_exponent? hexponent
  exact ⟨whole, fraction, f, x, e, by simp, hw, hf, hx, rfl⟩

theorem Number.head (h : Number q t) : ∃ c u, t = c :: u ∧ (c = '-' ∨ c.isDigit = true) := by
  cases h with
  | plus hw =>
    obtain ⟨d, ds, rfl⟩ := List.exists_cons_of_ne_nil hw.ne_nil
    exact ⟨d, _, rfl, Or.inr (hw.all d (.head _))⟩
  | minus => exact ⟨'-', _, rfl, Or.inl rfl⟩

theorem number?_append (h : Number q t) (hr : Ends r) : number? (t ++ r) = some (q, r) := by
  cases h with
  | @plus whole _ _ _ _ hw hf hx =>
    rw [number?, magnitude?_append hw hf hx hr]
    rintro u he
    obtain ⟨d, ds, rfl⟩ := List.exists_cons_of_ne_nil hw.ne_nil
    obtain ⟨rfl, -⟩ := List.cons.inj he
    exact absurd (hw.all '-' (.head _)) (by decide)
  | minus hw hf hx =>
    rw [List.cons_append, number?, magnitude?_append hw hf hx hr]
    rfl

theorem number_of_number? (h : number? t = some (q, r)) : ∃ u, t = u ++ r ∧ Number q u := by
  unfold number? at h
  split at h
  · obtain ⟨⟨q', r'⟩, hm, he⟩ := Option.map_eq_some_iff.mp h
    obtain ⟨rfl, rfl⟩ := Prod.mk.inj he
    obtain ⟨whole, fraction, f, x, e, rfl, hw, hf, hx, rfl⟩ := exists_of_magnitude? hm
    exact ⟨'-' :: (whole ++ (f ++ x)), by simp, .minus hw hf hx⟩
  · obtain ⟨whole, fraction, f, x, e, rfl, hw, hf, hx, rfl⟩ := exists_of_magnitude? h
    exact ⟨whole ++ (f ++ x), rfl, .plus hw hf hx⟩

/-! ## Strings -/

theorem unit?_append (h : Hex4 n t) (r : Text) : unit? (t ++ r) = some (n, r) := by
  cases h with
  | mk ha hb hc hd => simp [unit?, ha, hb, hc, hd]

theorem hex4_of_unit? (h : unit? t = some (n, r)) : ∃ u, t = u ++ r ∧ Hex4 n u := by
  unfold unit? at h
  split at h
  · rename_i a b c d t
    simp only [Option.bind_eq_bind, Option.bind_eq_some_iff, Option.pure_def, Option.some.injEq,
      Prod.mk.injEq] at h
    obtain ⟨i, ha, j, hb, k, hc, l, hd, rfl, rfl⟩ := h
    exact ⟨[a, b, c, d], rfl, .mk ha hb hc hd⟩
  · contradiction

theorem char?_append (h : Spelled c t) (r : Text) : char? (t ++ r) = some (c, r) := by
  cases h with
  | plain hc hquote hslash =>
    rw [List.singleton_append, char?, if_neg]
    · simp [hquote, hslash]
      omega
    · exact fun _ h _ => hslash h
    · exact fun _ _ h _ => hslash h
  | letter hl =>
    simp only [letters, List.mem_cons, Prod.mk.injEq, List.not_mem_nil, or_false] at hl
    rcases hl with h | h | h | h | h | h | h | h
    all_goals
      obtain ⟨rfl, rfl⟩ := h
      rfl
  | unit hn hhigh hlow =>
    rw [List.cons_append, List.cons_append, char?, unit?_append hn]
    simp [unitChar?, hhigh, hlow]
  | @pair high low t u hhex hhex' hhigh hlow =>
    have hrest : '\\' :: 'u' :: (t ++ '\\' :: 'u' :: u) ++ r =
        '\\' :: 'u' :: (t ++ ('\\' :: 'u' :: (u ++ r))) := by simp
    rw [hrest, char?, unit?_append hhex]
    simp [unitChar?, hhigh, hlow, after?, unit?_append hhex']

theorem spelled_of_unitChar? {v : Text} (hv : Hex4 n v) (h : unitChar? n t = some (c, r)) :
    ∃ u, t = u ++ r ∧ Spelled c ('\\' :: 'u' :: (v ++ u)) := by
  unfold unitChar? at h
  split at h
  · rename_i hhigh
    simp only [Option.bind_eq_bind, Option.bind_eq_some_iff, Prod.exists] at h
    obtain ⟨w, hw, low, w', hunit, h⟩ := h
    obtain rfl := after?_eq_some_iff.mp hw
    obtain ⟨u, rfl, hu⟩ := hex4_of_unit? hunit
    split at h
    · rename_i hlow
      obtain ⟨rfl, rfl⟩ := Prod.mk.inj (Option.some.inj h)
      exact ⟨'\\' :: 'u' :: u, rfl, .pair hv hu hhigh hlow⟩
    · contradiction
  · rename_i hhigh
    split at h
    · contradiction
    · rename_i hlow
      obtain ⟨rfl, rfl⟩ := Prod.mk.inj (Option.some.inj h)
      refine ⟨[], rfl, ?_⟩
      rw [List.append_nil]
      exact .unit hv (by simpa using hhigh) (by simpa using hlow)

theorem spelled_of_char? (h : char? t = some (c, r)) : ∃ u, t = u ++ r ∧ Spelled c u := by
  unfold char? at h
  split at h
  · obtain ⟨⟨n, w⟩, hunit, hchar⟩ := Option.bind_eq_some_iff.mp h
    obtain ⟨v, rfl, hv⟩ := hex4_of_unit? hunit
    obtain ⟨u, rfl, hu⟩ := spelled_of_unitChar? hv hchar
    exact ⟨_, by simp, hu⟩
  · rename_i l t _
    obtain ⟨d, hd, he⟩ := Option.map_eq_some_iff.mp h
    obtain ⟨rfl, rfl⟩ := Prod.mk.inj he
    obtain ⟨before, after, hsplit, -⟩ := List.lookup_eq_some_iff.mp hd
    exact ⟨['\\', l], rfl, .letter (by rw [hsplit]; simp)⟩
  · rename_i d t _ _
    split at h
    · contradiction
    · rename_i hd
      obtain ⟨rfl, rfl⟩ := Prod.mk.inj (Option.some.inj h)
      simp only [Bool.or_eq_true, decide_eq_true_eq, not_or, not_lt] at hd
      exact ⟨[d], rfl, .plain hd.1.1 hd.1.2 hd.2⟩
  · contradiction

theorem Spelled.head (h : Spelled c t) : ∃ d u, t = d :: u ∧ d ≠ '\x22' := by
  cases h with
  | plain _ hquote _ => exact ⟨c, [], rfl, hquote⟩
  | letter | unit | pair => exact ⟨'\\', _, rfl, by decide⟩

theorem string?_append (h : Spells s t) (hn : t.length ≤ n) (r : Text) :
    string? n (t ++ '\x22' :: r) = some (s, r) := by
  induction h generalizing n with
  | nil => cases n <;> rfl
  | @cons c s t u hc hs ih =>
    obtain ⟨d, w, rfl, hd⟩ := hc.head
    rw [List.length_append, List.length_cons] at hn
    obtain ⟨m, rfl⟩ : ∃ m, n = m + 1 := ⟨n - 1, by omega⟩
    rw [List.append_assoc, string?]
    · rw [char?_append hc]
      simp [ih (by omega : u.length ≤ m)]
    · rintro r he
      exact hd (List.cons.inj he).1

theorem spells_of_string? (h : string? n t = some (s, r)) :
    ∃ u, t = u ++ '\x22' :: r ∧ Spells s u := by
  fun_induction string? n t generalizing s with
  | case1 n r' =>
    obtain ⟨rfl, rfl⟩ := Prod.mk.inj (Option.some.inj h)
    exact ⟨[], rfl, .nil⟩
  | case2 n t hne ih =>
    simp only [Option.bind_eq_bind, Option.bind_eq_some_iff, Prod.exists, Option.pure_def,
      Option.some.injEq, Prod.mk.injEq] at h
    obtain ⟨c, w, hc, s', r', hs, rfl, rfl⟩ := h
    obtain ⟨u, rfl, hu⟩ := spelled_of_char? hc
    obtain ⟨v, rfl, hv⟩ := ih _ hs
    exact ⟨u ++ v, by simp, .cons hu hv⟩
  | case3 => contradiction

end CircuitDocs.Json

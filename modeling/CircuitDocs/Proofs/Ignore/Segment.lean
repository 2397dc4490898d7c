import CircuitDocs.Proofs.Disk.Path
import CircuitDocs.Proofs.Ignore.Match

/-! # Segments behind a directory

Names without special characters stay in front of the segments of a pattern as they are, through
every step from segments to what the pattern asks for.
-/

namespace CircuitDocs.Ignore

open Text

variable {n : Text} {b r rest : List Text}

/-- A name that stands for itself in a pattern. -/
structure Plain (n : Text) : Prop where
  entry : IsEntryName n
  plain : ∀ c ∈ n, c ∉ ['*', '?', '[', '\\']

instance (n : Text) : Decidable (Plain n) :=
  decidable_of_iff (IsEntryName n ∧ n.all (· ∉ ['*', '?', '[', '\\']) = true)
    ⟨fun h => ⟨h.1, by simpa using h.2⟩, fun h => ⟨h.entry, by simpa using h.plain⟩⟩

theorem Plain.star_not_mem (h : Plain n) : '*' ∉ n := fun hc => h.plain _ hc (by simp)

theorem Plain.ne_deep (h : Plain n) : n ≠ deep := by
  rintro rfl
  exact h.star_not_mem (by decide)

theorem tokens_of_plain (h : ∀ c ∈ n, c ∉ ['*', '?', '[', '\\']) :
    Glob.tokens n = .ok (n.map .exact) := by
  induction n with
  | nil => simp [Glob.tokens]
  | cons c n ih =>
    have hc := h c (by simp)
    simp only [List.mem_cons, List.not_mem_nil, or_false, not_or] at hc
    have ih' := ih fun c hc => h c (by simp [hc])
    rw [Glob.tokens]
    · rw [ih']
      rfl
    all_goals simp_all

theorem Plain.segmentSteps (h : Plain n) : segmentSteps n = .ok (n.map Step.literal) := by
  have hs : n ≠ ['*'] := by
    rintro rfl
    exact h.star_not_mem (by simp)
  rw [Ignore.segmentSteps, if_neg hs, tokens_of_plain h.plain]
  simp only [Except.map, List.map_map, Except.ok.injEq]
  refine List.map_congr_left fun c hc => ?_
  have hslash : c ≠ '/' := by
    rintro rfl
    exact h.entry.slash_not_mem hc
  simp [Step.literal, hslash]

/-! ## Steps -/

theorem stepsFrom_cons_plain (h : Plain n) (directory slash : Bool) (rest : List Text) :
    stepsFrom directory slash (n :: rest) = (stepsFrom directory true rest).map fun (ss, e) =>
      ((if slash then [.slash] else []) ++ n.map Step.literal ++ ss, e) := by
  rw [stepsFrom, if_neg h.ne_deep, h.segmentSteps]
  cases stepsFrom directory true rest <;> rfl

theorem stepsFrom_append (hne : b ≠ []) (hb : ∀ n ∈ b, Plain n) (directory slash : Bool)
    (rest : List Text) :
    stepsFrom directory slash (b ++ rest) = (stepsFrom directory true rest).map fun (ss, e) =>
      ((if slash then [.slash] else []) ++ (Path.joined b).map Step.literal ++ ss, e) := by
  induction b generalizing slash with
  | nil => exact absurd rfl hne
  | cons n b ih =>
    rw [List.cons_append, stepsFrom_cons_plain (hb n (by simp))]
    cases b with
    | nil => rw [List.nil_append, Path.joined_singleton]
    | cons m b =>
      rw [ih (by simp) (fun n hn => hb n (by simp [hn])), Path.joined_cons n (by simp)]
      cases stepsFrom directory true rest with
      | error fault => rfl
      | ok x => simp [Except.map, Step.literal]

theorem stepsFrom_true {s : Text} (hs : s ≠ deep) (directory : Bool) (rest : List Text) :
    stepsFrom directory true (s :: rest) =
      (stepsFrom directory false (s :: rest)).map fun (ss, e) => (.slash :: ss, e) := by
  rw [stepsFrom, stepsFrom, if_neg hs, if_neg hs]
  cases segmentSteps s with
  | error fault => rfl
  | ok own => cases stepsFrom directory true rest <;> rfl

/-! ## Normal forms -/

/-- Segments with everything below meant by a trailing slash, and without repetitions. -/
def spread (segments : List Text) : List Text :=
  merged (if segments.getLast? = some [] then segments.dropLast ++ [deep] else segments)

theorem normal_eq (segments : List Text) : normal segments = spread (anchored segments) := rfl

theorem merged_append (hb : ∀ n ∈ b, n ≠ deep) (r : List Text) :
    merged (b ++ r) = b ++ merged r := by
  induction b with
  | nil => rfl
  | cons n b ih =>
    have hn := hb n (by simp)
    have ih' := ih fun n hn => hb n (by simp [hn])
    rw [List.cons_append, List.cons_append, ← ih']
    cases b ++ r with
    | nil => rfl
    | cons m l => rw [merged]; simp [hn]

theorem spread_append (hb : ∀ n ∈ b, n ≠ deep) (hr : r ≠ []) : spread (b ++ r) = b ++ spread r := by
  rw [spread, spread, List.getLast?_append_of_ne_nil b hr, List.dropLast_append_of_ne_nil hr]
  split
  · rw [List.append_assoc, merged_append hb]
  · rw [merged_append hb]

/-- Segments behind `**`, if `above` says so. -/
def deepened (above : Bool) (segments : List Text) : List Text :=
  if above then deep :: segments else segments

theorem head?_merged (r : List Text) : (merged r).head? = r.head? := by
  fun_induction merged r with
  | case1 s t r h ih =>
    simp only [Bool.and_eq_true, decide_eq_true_eq] at h
    rw [ih, List.head?_cons, List.head?_cons, h.1, h.2]
  | case2 s t r h ih => rfl
  | case3 r h => rfl

theorem merged_ne_deep_deep (r rest : List Text) : merged r ≠ deep :: deep :: rest := by
  fun_induction merged r with
  | case1 s t r h ih => exact ih
  | case2 s t r h ih =>
    intro he
    obtain ⟨rfl, hrest⟩ := List.cons.inj he
    have hhead := head?_merged (t :: r)
    rw [hrest] at hhead
    obtain rfl := Option.some.inj hhead
    simp at h
  | case3 r h =>
    rintro rfl
    exact h _ _ _ rfl

theorem mem_merged {s : Text} (hs : s ≠ deep) (h : s ∈ r) : s ∈ merged r := by
  fun_induction merged r with
  | case1 s' t r h' ih =>
    simp only [Bool.and_eq_true, decide_eq_true_eq] at h'
    rcases List.mem_cons.mp h with rfl | h
    · exact absurd h'.1 hs
    · exact ih h
  | case2 s' t r h' ih =>
    rcases List.mem_cons.mp h with rfl | h
    · exact List.mem_cons_self
    · exact List.mem_cons_of_mem _ (ih h)
  | case3 r h' => exact h

theorem mem_spread {s : Text} (hne : s ≠ []) (hs : s ≠ deep) (h : s ∈ r) : s ∈ spread r := by
  refine mem_merged hs ?_
  split
  · rename_i hlast
    obtain ⟨init, hinit⟩ := List.getLast?_eq_some_iff.mp hlast
    subst hinit
    rcases List.mem_append.mp h with h | h
    · simp [h]
    · exact absurd (List.mem_singleton.mp h) hne
  · exact h

theorem spread_ne_nil (hr : r ≠ []) : spread r ≠ [] := by
  intro he
  have hhead := head?_merged (if r.getLast? = some [] then r.dropLast ++ [deep] else r)
  rw [show merged _ = [] from he, eq_comm, List.head?_nil, List.head?_eq_none_iff] at hhead
  split at hhead
  · simp at hhead
  · exact hr hhead

/-- Segments in normal form are `**` alone, or led by a segment that is not `**`, up to one `**` in
front of it. -/
theorem spread_cases (hr : r ≠ []) :
    spread r = [deep] ∨ ∃ (above : Bool) (s : Text) (rest : List Text), s ≠ deep ∧
      spread r = deepened above (s :: rest) := by
  obtain ⟨s, rest, he⟩ := List.exists_cons_of_ne_nil (spread_ne_nil hr)
  by_cases hs : s = deep
  · subst hs
    cases rest with
    | nil => exact Or.inl he
    | cons t rest =>
      refine Or.inr ⟨true, t, rest, ?_, he⟩
      rintro rfl
      exact merged_ne_deep_deep _ _ he
  · exact Or.inr ⟨false, s, rest, hs, he⟩

/-! ## Shapes -/

theorem mem_of_mem_deepened {s : Text} {above : Bool} (hs : s ≠ deep) (h : s ∈ deepened above r) :
    s ∈ r := by
  cases above with
  | false => exact h
  | true => exact (List.mem_cons.mp h).resolve_left hs

theorem stepsFrom_true_deepened {s : Text} (hs : s ≠ deep) (directory above : Bool)
    (rest : List Text) :
    stepsFrom directory true (deepened above (s :: rest)) =
      (stepsFrom directory false (s :: rest)).map fun (ss, e) => (under above ss, e) := by
  cases above with
  | false => exact stepsFrom_true hs directory rest
  | true =>
    rw [deepened, if_pos rfl, stepsFrom, if_pos rfl, stepsFrom_true hs]
    cases stepsFrom directory false (s :: rest) <;> rfl

theorem shapeOf_append {s : Text} (hne : b ≠ []) (hb : ∀ n ∈ b, Plain n) (hs : s ≠ deep)
    (directory above : Bool) (rest : List Text) :
    shapeOf directory (b ++ deepened above (s :: rest)) =
      (stepsFrom directory false (s :: rest)).map fun (ss, e) =>
        .steps ((Path.joined b).map Step.literal ++ under above ss) e := by
  have hsteps := stepsFrom_append hne hb directory false (deepened above (s :: rest))
  rw [stepsFrom_true_deepened hs] at hsteps
  obtain ⟨n, b, rfl⟩ := List.exists_cons_of_ne_nil hne
  have hn := (hb n (by simp)).ne_deep
  rw [List.cons_append] at hsteps ⊢
  simp only [shapeOf, List.cons.injEq, hn, false_and, if_false, hsteps]
  cases stepsFrom directory false (s :: rest) <;> rfl

theorem shapeOf_append_deep (hne : b ≠ []) (hb : ∀ n ∈ b, Plain n) (directory : Bool) :
    shapeOf directory (b ++ [deep]) =
      .ok (.steps ((Path.joined b).map Step.literal) (deepEnding directory)) := by
  have hsteps := stepsFrom_append hne hb directory false [deep]
  obtain ⟨n, b, rfl⟩ := List.exists_cons_of_ne_nil hne
  have hn := (hb n (by simp)).ne_deep
  rw [List.cons_append] at hsteps ⊢
  simp only [shapeOf, List.cons.injEq, hn, false_and, if_false, hsteps]
  simp [stepsFrom, Except.map]

theorem shapeOf_deepened {s : Text} (hs : s ≠ deep) (directory above : Bool) (rest : List Text)
    (hname : deepened above (s :: rest) ≠ [deep, ['*']])
    (hfolder : deepened above (s :: rest) ≠ [deep, ['*'], deep]) :
    shapeOf directory (deepened above (s :: rest)) =
      (stepsFrom directory false (s :: rest)).map fun (ss, e) => .steps (front above ss) e := by
  have hdeep : deepened above (s :: rest) ≠ [deep] := by
    cases above with
    | false => simp [deepened, hs]
    | true => simp [deepened]
  unfold shapeOf
  rw [if_neg hdeep, if_neg hname, if_neg hfolder]
  cases above with
  | false => simp [deepened, hs, front]
  | true => simp [deepened, front]

theorem eq_of_deepened {s : Text} {above : Bool} {l : List Text} (hs : s ≠ deep)
    (h : deepened above (s :: rest) = deep :: l) : above = true ∧ s :: rest = l := by
  cases above with
  | false => exact absurd (List.cons.inj h).1 hs
  | true => exact ⟨rfl, (List.cons.inj h).2⟩

theorem shapeOf_name (directory : Bool) : shapeOf directory [deep, ['*']] = .ok .anything := rfl

theorem shapeOf_folder (directory : Bool) :
    shapeOf directory [deep, ['*'], deep] = .ok (.anySlash directory) := rfl

theorem stepsFrom_name (directory : Bool) :
    stepsFrom directory false [['*']] = .ok ([.someName], .directoryOrEnd) := rfl

theorem stepsFrom_folder (directory : Bool) :
    stepsFrom directory false [['*'], deep] = .ok ([.someName], deepEnding directory) := rfl

/-! ## What segments ask for -/

/-- Whether a segment asks for at least one character. -/
def Asks (s : Text) : Prop := s = ['*'] ∨ ∃ c ∈ s, c ≠ '*'

theorem Asks.ne_nil {s : Text} (h : Asks s) : s ≠ [] := by
  rintro rfl
  simp [Asks] at h

theorem Asks.ne_deep {s : Text} (h : Asks s) : s ≠ deep := by
  rintro rfl
  simp [Asks, deep] at h

theorem ne_anyRun_of_bracket? {t rest : Text} {token : Glob.Token}
    (h : Glob.bracket? t = some (token, rest)) : token ≠ .anyRun := by
  unfold Glob.bracket? at h
  rintro rfl
  split at h <;> simp at h

theorem exists_of_map_eq_ok {ε α β : Type} {f : α → β} {x : Except ε α} {y : β}
    (h : x.map f = .ok y) : ∃ a, x = .ok a ∧ f a = y := by
  cases x with
  | error e => exact absurd h (by simp [Except.map])
  | ok a => exact ⟨a, rfl, Except.ok.inj h⟩

theorem exists_token_ne_anyRun {s : Text} {ts : List Glob.Token} (h : Glob.tokens s = .ok ts)
    (hs : ∃ c ∈ s, c ≠ '*') : ∃ t ∈ ts, t ≠ .anyRun := by
  fun_induction Glob.tokens s generalizing ts with
  | case1 => simp at hs
  | case2 => simp at h
  | case3 c t ih =>
    obtain ⟨us, -, rfl⟩ := exists_of_map_eq_ok h
    exact ⟨.exact c, by simp, by simp⟩
  | case4 t ih =>
    obtain ⟨us, hus, rfl⟩ := exists_of_map_eq_ok h
    obtain ⟨c, hc, hne⟩ := hs
    obtain ⟨x, hx, hx'⟩ := ih hus ⟨c, (List.mem_cons.mp hc).resolve_left hne, hne⟩
    exact ⟨x, List.mem_cons_of_mem _ hx, hx'⟩
  | case5 t ih =>
    obtain ⟨us, -, rfl⟩ := exists_of_map_eq_ok h
    exact ⟨.anyOne, by simp, by simp⟩
  | case6 t token rest hb ih =>
    obtain ⟨us, -, rfl⟩ := exists_of_map_eq_ok h
    exact ⟨token, by simp, ne_anyRun_of_bracket? hb⟩
  | case7 => simp at h
  | case8 c t =>
    obtain ⟨us, -, rfl⟩ := exists_of_map_eq_ok h
    exact ⟨.exact c, by simp, by simp⟩

theorem Asks.exists_not_idle {s : Text} {own : List Step} (hs : Asks s)
    (h : segmentSteps s = .ok own) : ∃ x ∈ own, ¬ x.Idle := by
  unfold segmentSteps at h
  split at h
  · obtain rfl := Except.ok.inj h
    exact ⟨.someName, by simp, fun h => h⟩
  · rename_i hstar
    obtain ⟨ts, hts, rfl⟩ := exists_of_map_eq_ok h
    obtain ⟨t, ht, hne⟩ := exists_token_ne_anyRun hts (hs.resolve_left hstar)
    refine ⟨.token t, List.mem_map_of_mem ht, ?_⟩
    cases t <;> simp_all [Step.Idle]

theorem exists_not_idle {s : Text} {segments : List Text} {directory slash : Bool}
    {ss : List Step} {e : Ending} (hs : Asks s) (hmem : s ∈ segments)
    (h : stepsFrom directory slash segments = .ok (ss, e)) : ∃ x ∈ ss, ¬ x.Idle := by
  induction segments generalizing slash ss e with
  | nil => simp at hmem
  | cons s' rest ih =>
    rw [stepsFrom] at h
    split at h
    · rename_i hdeep
      have hrest : s ∈ rest := by
        refine (List.mem_cons.mp hmem).resolve_left ?_
        rintro rfl
        exact hs.ne_deep hdeep
      rw [if_neg (by simpa using List.ne_nil_of_mem hrest)] at h
      obtain ⟨⟨ss', e'⟩, hss', heq⟩ := exists_of_map_eq_ok h
      obtain ⟨rfl, rfl⟩ := Prod.mk.inj heq
      obtain ⟨x, hx, hidle⟩ := ih hrest hss'
      exact ⟨x, List.mem_cons_of_mem _ hx, hidle⟩
    · split at h
      · simp at h
      · simp at h
      · rename_i own ss' e' hown hss'
        obtain ⟨rfl, rfl⟩ := Prod.mk.inj (Except.ok.inj h)
        rcases List.mem_cons.mp hmem with rfl | hrest
        · obtain ⟨x, hx, hidle⟩ := hs.exists_not_idle hown
          exact ⟨x, by simp [hx], hidle⟩
        · obtain ⟨x, hx, hidle⟩ := ih hrest hss'
          exact ⟨x, by simp [hx], hidle⟩

end CircuitDocs.Ignore

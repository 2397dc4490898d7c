import CircuitDocs.Proofs.Doc.Partition
import CircuitDocs.Proofs.Doc.SectionEnd
import CircuitDocs.Doc.Entry

/-! # Reading section by section

An entry ends with its section, and only its type can begin in one section and end in another: the
brace that closes a type is looked for in the whole rest of the block. Where no type leaves its
section, the entries of a block are those of its sections, one after the other.
-/

namespace CircuitDocs

open Text

variable {α : Type} {R : Reader α} {s t u r w : Text} {ss : List Text} {p : Char → Bool}

/-! ## The text of an item -/

namespace Reader

/-- The items of a reader, each with the text that it was read from. -/
def traced (R : Reader α) : Reader (α × Text) where
  read t := (R.read t).map fun x => ((x.1, t.take (t.length - x.2.length)), x.2)
  shorter h := by
    obtain ⟨x, hx, he⟩ := Option.map_eq_some_iff.mp h
    obtain ⟨-, rfl⟩ := Prod.mk.inj he
    exact R.shorter hx

theorem read_traced (R : Reader α) (t : Text) :
    R.traced.read t =
      (R.read t).map fun x => ((x.1, t.take (t.length - x.2.length)), x.2) := rfl

theorem map_all_traced (R : Reader α) (t : Text) : (R.traced.all t).map Prod.fst = R.all t := by
  fun_induction R.all t with
  | case1 => simp
  | case2 c t a r hread ih =>
    have htraced := R.read_traced (c :: t)
    rw [hread] at htraced
    rw [all_of_some htraced, List.map_cons, ih]
  | case3 c t hread ih =>
    have htraced := R.read_traced (c :: t)
    rw [hread] at htraced
    rw [all_cons_of_none htraced, ih]

theorem head?_all (R : Reader α) (t : Text) :
    (R.all t).head? = (first? R.read t).map Prod.fst := by
  fun_induction R.all t with
  | case1 =>
    cases hread : R.read [] with
    | none => rw [first?, hread]; rfl
    | some x => exact absurd (R.shorter hread) (by simp)
  | case2 c t a r hread ih => rw [first?_of_some hread]; rfl
  | case3 c t hread ih => rw [first?_cons_of_none hread, ih]

theorem forall_traced {P : Text → Prop}
    (h : ∀ u, u <:+ t → ∀ x, R.read u = some x → ∃ m, u = m ++ x.2 ∧ P m) :
    ∀ x ∈ R.traced.all t, P x.2 := by
  fun_induction R.traced.all t with
  | case1 => simp
  | case2 c t a r hread ih =>
    obtain ⟨y, hy, he⟩ := Option.map_eq_some_iff.mp hread
    obtain ⟨rfl, rfl⟩ := Prod.mk.inj he
    obtain ⟨m, hm, hP⟩ := h _ List.suffix_rfl y hy
    have hr : y.2 <:+ c :: t := ⟨m, hm.symm⟩
    have htext : (c :: t).take ((c :: t).length - y.2.length) = m := by simp [hm]
    rw [List.forall_mem_cons]
    exact ⟨by rwa [htext], ih fun u hu => h u (hu.trans hr)⟩
  | case3 c t hread ih => exact ih fun u hu => h u (hu.trans (List.suffix_cons c t))

end Reader

/-! ## Types that stay in their sections -/

namespace Entry

def openedParam? (t : Text) : Option Text :=
  ((after? "@param".toList t).bind afterPad?).bind afterBrace?

def openedThrows? (t : Text) : Option Text :=
  ((after? "@throws".toList t).bind afterPad?).bind afterBrace?

def openedReturns? (t : Text) : Option Text := (afterReturns? t).bind afterBrace?

/-- The first entry that a reader finds in a section, with the text after it, opens no type that is
closed only in that text. No other entry counts, since an entry runs to the end of its section. -/
def ClosesIn (R : Reader α) (opened? : Text → Option Text) (r : Text) : Text → Prop
  | [] => True
  | c :: s =>
    if (R.read (c :: s ++ r)).isSome then ∀ v ∈ opened? (c :: s), '}' ∈ v ∨ '}' ∉ r
    else ClosesIn R opened? r s

/-- Every type of an entry is closed in the section that it is opened in, or nowhere. -/
def TypesClose (R : Reader α) (opened? : Text → Option Text) : List Text → Prop
  | [] => True
  | s :: ss => ClosesIn R opened? ('\n' :: unlines ss) s ∧ TypesClose R opened? ss

instance decidableClosesIn (R : Reader α) (opened? : Text → Option Text) (r : Text) :
    (s : Text) → Decidable (ClosesIn R opened? r s)
  | [] => inferInstanceAs (Decidable True)
  | c :: s =>
    have := decidableClosesIn R opened? r s
    inferInstanceAs (Decidable (if (R.read (c :: s ++ r)).isSome then
      ∀ v ∈ opened? (c :: s), '}' ∈ v ∨ '}' ∉ r else ClosesIn R opened? r s))

instance decidableTypesClose (R : Reader α) (opened? : Text → Option Text) :
    (ss : List Text) → Decidable (TypesClose R opened? ss)
  | [] => inferInstanceAs (Decidable True)
  | s :: ss =>
    have := decidableTypesClose R opened? ss
    inferInstanceAs
      (Decidable (ClosesIn R opened? ('\n' :: unlines ss) s ∧ TypesClose R opened? ss))

theorem closesIn_traced {opened? : Text → Option Text} :
    ClosesIn R.traced opened? r s ↔ ClosesIn R opened? r s := by
  induction s with
  | nil => rfl
  | cons c s ih => simp only [ClosesIn, R.read_traced, Option.isSome_map, ih]

theorem typesClose_traced {opened? : Text → Option Text} :
    TypesClose R.traced opened? ss ↔ TypesClose R opened? ss := by
  induction ss with
  | nil => rfl
  | cons s ss ih => simp only [TypesClose, closesIn_traced, ih]

end Entry

/-! ## Readers that keep to a section -/

/-- A reader that finds in a text without an end of a section the same whether or not more text
comes after it, where a section ends: then it leaves just that text. A type that is opened in the
first text and closed only in the second is excepted, unless the reader passes it over. -/
structure Reader.Local (opened? : Text → Option Text) (R : Reader α) : Prop where
  newline : ∀ t, R.read ('\n' :: t) = none
  append : ∀ {t r}, Unbroken t → sectionEnds (fun _ => true) r = true →
    (∀ v ∈ opened? t, '}' ∈ v ∨ '}' ∉ r) → R.read (t ++ r) = (R.read t).map fun x => (x.1, r)
  skip : ∀ {t r}, Unbroken t → sectionEnds (fun _ => true) r = true →
    R.read (t ++ r) = none → R.read t = none

namespace Reader.Local

variable {opened? : Text → Option Text}

/-- A reader passes over all types that are closed later, if it reads none that is not closed. -/
theorem of_closed (newline : ∀ t, R.read ('\n' :: t) = none)
    (append : ∀ {t r}, Unbroken t → sectionEnds (fun _ => true) r = true →
      (∀ v ∈ opened? t, '}' ∈ v ∨ '}' ∉ r) → R.read (t ++ r) = (R.read t).map fun x => (x.1, r))
    (closed : ∀ {t x}, R.read t = some x → ∀ v ∈ opened? t, '}' ∈ v) : R.Local opened? where
  newline := newline
  append := append
  skip {t r} ht hr hnone := by
    cases hread : R.read t with
    | none => rfl
    | some x =>
      rw [append ht hr fun v hv => Or.inl (closed hread v hv), hread] at hnone
      contradiction

variable (hR : R.Local opened?)

include hR

theorem eq_nil (ht : Unbroken t) {x : α × Text} (hread : R.read t = some x) : x.2 = [] := by
  have hx := hR.append ht (r := []) rfl fun _ _ => Or.inr (by simp)
  rw [List.append_nil, hread] at hx
  rw [Option.some.inj hx]

theorem traced : R.traced.Local opened? where
  newline t := by rw [read_traced, hR.newline, Option.map_none]
  append {t r} ht hr hc := by
    rw [read_traced, read_traced, hR.append ht hr hc]
    cases hread : R.read t with
    | none => rfl
    | some x =>
      have hx := hR.eq_nil ht hread
      simp [hx]
  skip {t r} ht hr hnone := by
    rw [read_traced, Option.map_eq_none_iff] at hnone ⊢
    exact hR.skip ht hr hnone

theorem all_append (hs : Unbroken s) (hr : sectionEnds (fun _ => true) r = true)
    (hc : Entry.ClosesIn R opened? r s) : R.all (s ++ r) = R.all s ++ R.all r := by
  induction s with
  | nil => simp
  | cons c s ih =>
    rw [Entry.ClosesIn] at hc
    split at hc
    · rename_i hsome
      have happend := hR.append hs hr hc
      cases hread : R.read (c :: s) with
      | none =>
        rw [happend, hread] at hsome
        contradiction
      | some x =>
        have hx := hR.eq_nil hs hread
        rw [hread] at happend
        rw [all_of_some happend, all_of_some hread, hx, all_nil, List.singleton_append]
    · rename_i hnone
      rw [Option.not_isSome_iff_eq_none] at hnone
      rw [all_cons_of_none (hR.skip hs hr hnone), ← ih hs.2 hc]
      exact all_cons_of_none hnone

theorem all_unlines (hs : Sectioned ss) (hc : Entry.TypesClose R opened? ss) :
    R.all (unlines ss) = ss.flatMap R.all := by
  induction hs with
  | last => simp
  | ends hs hends hss ih =>
    rw [unlines_cons _ hss.ne_nil, hR.all_append hs hends hc.1,
      all_cons_of_none (hR.newline _), ih hc.2, List.flatMap_cons]
  | gap hss ih =>
    rw [unlines_cons _ hss.ne_nil, List.nil_append, all_cons_of_none (hR.newline _), ih hc.2,
      List.flatMap_cons, all_nil, List.nil_append]

theorem suffix_of_mem (hs : Unbroken s) {x : α × Text} (hx : x ∈ R.traced.all s) : x.2 <:+ s := by
  induction s with
  | nil => simp at hx
  | cons c s ih =>
    have htraced := R.read_traced (c :: s)
    cases hread : R.read (c :: s) with
    | none =>
      rw [hread] at htraced
      rw [all_cons_of_none htraced] at hx
      exact (ih hs.2 hx).trans (List.suffix_cons c s)
    | some y =>
      have hy := hR.eq_nil hs hread
      rw [hread, Option.map_some, hy, List.length_nil, Nat.sub_zero, List.take_length] at htraced
      rw [all_of_some htraced, all_nil, List.mem_singleton] at hx
      subst hx
      exact List.suffix_rfl

theorem exists_suffix_of_mem (hs : Sectioned ss) (hc : Entry.TypesClose R opened? ss)
    {x : α × Text} (hx : x ∈ R.traced.all (unlines ss)) : ∃ s ∈ ss, x.2 <:+ s := by
  rw [hR.traced.all_unlines hs (Entry.typesClose_traced.mpr hc), List.mem_flatMap] at hx
  obtain ⟨s, hmem, hx⟩ := hx
  exact ⟨s, hmem, hR.suffix_of_mem (hs.unbroken s hmem) hx⟩

end Reader.Local

/-! ## Entries -/

namespace Entry

theorem unbroken_of_type? {type : Text} (ht : Unbroken t) (h : type? t = some (type, u)) :
    Unbroken u := by
  obtain ⟨hpass, -⟩ := passes_of_type? h
  exact (ht.passes hpass).suffix ⟨'{' :: (type ++ ['}']), by simp⟩

theorem passes_paramText (t : Text) :
    Passes t (undashed ((t.dropWhile isPad).dropWhile isWord)) :=
  ((Passes.dropWhile (by decide) t).trans (.dropWhile (by decide) _)).trans (passes_undashed _)

theorem param?_append (ht : Unbroken t) (hr : sectionEnds (fun _ => true) r = true)
    (hc : ∀ v ∈ openedParam? t, '}' ∈ v ∨ '}' ∉ r) :
    param? (t ++ r) = (param? t).map fun x => (x.1, r) := by
  rw [param?, param?, after?_append_of_ends hr (by decide)]
  cases ha : after? "@param".toList t with
  | none => rfl
  | some u =>
    rw [openedParam?, ha, Option.bind_some] at hc
    simp only [Option.map_some, type?_append_of_ends hr hc]
    cases hty : type? u with
    | none => rfl
    | some x =>
      obtain ⟨type, v⟩ := x
      have hwhole := (unbroken_of_type? (ht.passes (.of_after? (by decide) ha)) hty).passes
        (passes_paramText v)
      simp only [Option.map_some, dropWhile_append_of_ends hr (show isPad '\n' = false by decide),
        dropWhile_append_of_ends hr (show isWord '\n' = false by decide),
        takeWhile_append_of_ends hr (show isWord '\n' = false by decide),
        undashed_append_of_ends hr, sectionBody_append hr hwhole, sectionRest_append hr hwhole,
        hwhole.sectionBody_eq]
      split <;> rfl

theorem throws?_append (ht : Unbroken t) (hr : sectionEnds (fun _ => true) r = true)
    (hc : ∀ v ∈ openedThrows? t, '}' ∈ v ∨ '}' ∉ r) :
    throws? (t ++ r) = (throws? t).map fun x => (x.1, r) := by
  rw [throws?, throws?, after?_append_of_ends hr (by decide)]
  cases ha : after? "@throws".toList t with
  | none => rfl
  | some u =>
    rw [openedThrows?, ha, Option.bind_some] at hc
    simp only [Option.map_some, type?_append_of_ends hr hc]
    cases hty : type? u with
    | none => rfl
    | some x =>
      obtain ⟨type, v⟩ := x
      have hwhole := (unbroken_of_type? (ht.passes (.of_after? (by decide) ha)) hty).passes
        (.dropWhile (p := isPad) (by decide) v)
      simp only [Option.map_some, dropWhile_append_of_ends hr (show isPad '\n' = false by decide),
        sectionBody_append hr hwhole, sectionRest_append hr hwhole, hwhole.sectionBody_eq]

theorem mem_of_type? {x : Text × Text} (h : type? t = some x) :
    ∀ v ∈ (afterPad? t).bind afterBrace?, '}' ∈ v := by
  intro v hv
  unfold type? at h
  split at h
  · rename_i c t
    split at h
    · rename_i hpad
      split at h
      · rename_i type rest hb
        rw [afterPad?, if_pos hpad, Option.bind_some, afterBrace?, (eq_of_braced? hb).1] at hv
        obtain rfl := Option.some.inj (Option.mem_def.mp hv)
        simp
      · contradiction
    · contradiction
  · contradiction

theorem mem_of_param? {x : Doc.Param × Text} (h : param? t = some x) :
    ∀ v ∈ openedParam? t, '}' ∈ v := by
  unfold param? at h
  split at h
  · rename_i u ha
    split at h
    · rename_i hty
      rw [openedParam?, ha, Option.bind_some]
      exact mem_of_type? hty
    · contradiction
  · contradiction

theorem mem_of_throws? {x : Doc.Throws × Text} (h : throws? t = some x) :
    ∀ v ∈ openedThrows? t, '}' ∈ v := by
  unfold throws? at h
  split at h
  · rename_i u ha
    split at h
    · rename_i hty
      rw [openedThrows?, ha, Option.bind_some]
      exact mem_of_type? hty
    · contradiction
  · contradiction

theorem local_params : params.Local openedParam? :=
  .of_closed (fun _ => rfl) param?_append mem_of_param?

theorem local_throws : throws.Local openedThrows? :=
  .of_closed (fun _ => rfl) throws?_append mem_of_throws?

/-! ## Results -/

/-- The type in braces at the front, pads aside, and what follows it; without braces, no type. -/
def resultType (t : Text) : Text × Text := (braced? (t.dropWhile isPad)).getD ([], t)

def result? (t : Text) : Option (Option Doc.Returns × Text) :=
  (afterReturns? t).map fun u => (returns u, sectionRest (undashed (resultType u).2))

theorem suffix_resultType (t : Text) : (resultType t).2 <:+ t := by
  unfold resultType
  cases hb : braced? (t.dropWhile isPad) with
  | none => exact List.suffix_rfl
  | some x =>
    have hx : x.2 <:+ t.dropWhile isPad := by
      rw [(eq_of_braced? hb).1]
      exact ⟨'{' :: (x.1 ++ ['}']), by simp⟩
    exact hx.trans (List.dropWhile_suffix _)

theorem length_lt_of_result? {e : Option Doc.Returns} (h : result? t = some (e, r)) :
    r.length < t.length := by
  obtain ⟨u, hu, he⟩ := Option.map_eq_some_iff.mp h
  obtain ⟨-, rfl⟩ := Prod.mk.inj he
  have h₁ : u.length < t.length := by
    rcases eq_of_afterReturns? hu with rfl | rfl <;> rw [List.length_append] <;> simp
  have h₂ := (suffix_resultType u).length_le
  have h₃ := length_undashed_le (resultType u).2
  have h₄ := length_dropUntil_le (sectionEnds fun _ => true) (undashed (resultType u).2)
  rw [sectionRest]
  omega

/-- The reader of result entries; one that says nothing is read as none. -/
def results : Reader (Option Doc.Returns) := ⟨result?, length_lt_of_result?⟩

theorem read_results (t : Text) :
    results.read t =
      (afterReturns? t).map fun u => (returns u, sectionRest (undashed (resultType u).2)) := rfl

theorem returns?_eq (block : Text) : returns? block = (results.all block).head?.join := by
  rw [returns?, Reader.head?_all]
  induction block with
  | nil => rfl
  | cons c t ih =>
    cases ha : afterReturns? (c :: t) with
    | none =>
      have hread := read_results (c :: t)
      rw [ha, Option.map_none] at hread
      rw [first?_cons_of_none ha, first?_cons_of_none hread, ih]
    | some u =>
      have hread := read_results (c :: t)
      rw [ha, Option.map_some] at hread
      rw [first?_of_some ha, first?_of_some hread]
      rfl

theorem resultType_append (hr : sectionEnds (fun _ => true) r = true)
    (hc : ∀ v ∈ afterBrace? t, '}' ∈ v ∨ '}' ∉ r) :
    resultType (t ++ r) = ((resultType t).1, (resultType t).2 ++ r) := by
  rw [resultType, resultType, dropWhile_append_of_ends hr (by decide),
    braced?_append_of_ends hr hc]
  cases braced? (t.dropWhile isPad) <;> rfl

theorem returns_append (ht : Unbroken t) (hr : sectionEnds (fun _ => true) r = true)
    (hc : ∀ v ∈ afterBrace? t, '}' ∈ v ∨ '}' ∉ r) : returns (t ++ r) = returns t := by
  have hwhole : Unbroken (undashed (resultType t).2) :=
    (ht.suffix (suffix_resultType t)).passes (passes_undashed _)
  have htype := resultType_append hr hc
  simp only [resultType] at htype hwhole
  simp only [returns, htype, undashed_append_of_ends hr, sectionBody_append hr hwhole,
    hwhole.sectionBody_eq]

theorem result?_append (ht : Unbroken t) (hr : sectionEnds (fun _ => true) r = true)
    (hc : ∀ v ∈ openedReturns? t, '}' ∈ v ∨ '}' ∉ r) :
    result? (t ++ r) = (result? t).map fun x => (x.1, r) := by
  rw [result?, result?, afterReturns?_append_of_ends hr]
  cases ha : afterReturns? t with
  | none => rfl
  | some u =>
    rw [openedReturns?, ha, Option.bind_some] at hc
    have hu : Unbroken u := ht.passes (passes_afterReturns? ha)
    have hwhole : Unbroken (undashed (resultType u).2) :=
      (hu.suffix (suffix_resultType u)).passes (passes_undashed _)
    simp only [Option.map_some, returns_append hu hr hc, resultType_append hr hc,
      undashed_append_of_ends hr, sectionRest_append hr hwhole]

theorem result?_skip (hr : sectionEnds (fun _ => true) r = true)
    (hnone : result? (t ++ r) = none) : result? t = none := by
  rw [result?, Option.map_eq_none_iff] at hnone ⊢
  rwa [afterReturns?_append_of_ends hr, Option.map_eq_none_iff] at hnone

theorem local_results : results.Local openedReturns? where
  newline _ := rfl
  append := result?_append
  skip _ := result?_skip

/-! ## What an entry takes -/

/-- Text without an end of a section, but for a type in braces that may have one. -/
inductive WholeButType : Text → Prop where
  | whole {e : Text} : Unbroken e → WholeButType e
  | typed {front type tail : Text} : '\n' ∉ front → '}' ∉ type → Unbroken tail →
      WholeButType (front ++ '{' :: (type ++ '}' :: tail))

theorem exists_unbroken (hlast : ∀ c ∈ t.getLast?, isBlank c = false) (h : Passes t u) :
    ∃ m, t = m ++ sectionRest u ∧ Unbroken m := by
  obtain ⟨w, hw, rfl⟩ := h
  have hbody : Unbroken (sectionBody u) := by
    refine unbroken_sectionBody fun c hc => hlast c ?_
    rw [List.getLast?_append, hc]
    rfl
  refine ⟨w ++ sectionBody u, ?_, unbroken_append_of_not_mem hw hbody⟩
  rw [sectionBody, sectionRest, List.append_assoc, takeUntil_append_dropUntil]

theorem exists_wholeButType {type v : Text} (hlast : ∀ c ∈ t.getLast?, isBlank c = false)
    (h : Passes t ('{' :: (type ++ '}' :: v))) (htype : '}' ∉ type) (hv : Passes v u) :
    ∃ m, t = m ++ sectionRest u ∧ WholeButType m := by
  obtain ⟨w, hw, rfl⟩ := h
  have hlastv : ∀ c ∈ v.getLast?, isBlank c = false := by
    intro c hc
    apply hlast
    simp [List.getLast?_append, List.getLast?_cons, Option.mem_def.mp hc]
  obtain ⟨m, hm, hwhole⟩ := exists_unbroken hlastv hv
  refine ⟨w ++ '{' :: (type ++ '}' :: m), ?_, .typed hw htype hwhole⟩
  rw [hm]
  simp

theorem wholeButType_of_param? (hlast : ∀ c ∈ t.getLast?, isBlank c = false)
    {x : Doc.Param × Text} (h : param? t = some x) : ∃ m, t = m ++ x.2 ∧ WholeButType m := by
  unfold param? at h
  split at h
  · rename_i u ha
    split at h
    · rename_i type v hty
      rw [Option.ite_none_left_eq_some, Option.some.injEq] at h
      obtain ⟨-, rfl⟩ := h
      obtain ⟨hpass, htype⟩ := passes_of_type? hty
      exact exists_wholeButType hlast ((Passes.of_after? (by decide) ha).trans hpass) htype
        (passes_paramText v)
    · contradiction
  · contradiction

theorem wholeButType_of_throws? (hlast : ∀ c ∈ t.getLast?, isBlank c = false)
    {x : Doc.Throws × Text} (h : throws? t = some x) : ∃ m, t = m ++ x.2 ∧ WholeButType m := by
  unfold throws? at h
  split at h
  · rename_i u ha
    split at h
    · rename_i type v hty
      obtain rfl := Option.some.inj h
      obtain ⟨hpass, htype⟩ := passes_of_type? hty
      exact exists_wholeButType hlast ((Passes.of_after? (by decide) ha).trans hpass) htype
        (.dropWhile (by decide) v)
    · contradiction
  · contradiction

theorem wholeButType_of_result? (hlast : ∀ c ∈ t.getLast?, isBlank c = false)
    {x : Option Doc.Returns × Text} (h : result? t = some x) :
    ∃ m, t = m ++ x.2 ∧ WholeButType m := by
  obtain ⟨u, hu, rfl⟩ := Option.map_eq_some_iff.mp h
  have hmark := passes_afterReturns? hu
  cases hb : braced? (u.dropWhile isPad) with
  | none =>
    obtain ⟨m, hm, hwhole⟩ := exists_unbroken hlast (hmark.trans (passes_undashed u))
    simp only [resultType, hb]
    exact ⟨m, hm, .whole hwhole⟩
  | some x =>
    obtain ⟨type, v⟩ := x
    obtain ⟨heq, htype⟩ := eq_of_braced? hb
    have hpads := Passes.dropWhile (p := isPad) (by decide) u
    rw [heq] at hpads
    simp only [resultType, hb]
    exact exists_wholeButType hlast (hmark.trans hpads) htype (passes_undashed _)

end Entry

/-! ## Comments -/

/-- The items that a reader has in a block: all of them come from texts that are whole but for a
type. Where every type is closed in its section, each of these texts is in one section, and the
items are those that the sections have when each is read alone. -/
structure Reader.Confined (R : Reader α) (opened? : Text → Option Text) (block : Text)
    (items : List α) : Prop where
  read : (R.traced.all block).map Prod.fst = items
  whole : ∀ x ∈ R.traced.all block, Entry.WholeButType x.2
  within : Entry.TypesClose R opened? (sections block) →
    ∀ x ∈ R.traced.all block, ∃ s ∈ sections block, x.2 <:+ s
  alone : Entry.TypesClose R opened? (sections block) → items = (sections block).flatMap R.all

theorem Reader.Local.confined {opened? : Text → Option Text} (hR : R.Local opened?)
    (hread : ∀ {t}, (∀ c ∈ t.getLast?, isBlank c = false) → ∀ {x}, R.read t = some x →
      ∃ m, t = m ++ x.2 ∧ Entry.WholeButType m)
    (ht : Comment.Tidy t) : R.Confined opened? t (R.all t) := by
  have hsections := sectioned_sections ht
  have hjoined := unlines_sections t
  constructor
  · exact R.map_all_traced t
  · apply forall_traced
    intro u hu x hx
    refine hread (fun c hc => ht.last c ?_) hx
    obtain ⟨v, rfl⟩ := hu
    rw [List.getLast?_append, hc]
    rfl
  · intro hclose x hx
    rw [← hjoined] at hx
    exact hR.exists_suffix_of_mem hsections hclose hx
  · intro hclose
    rw [← hR.all_unlines hsections hclose, hjoined]

/-- The parameters, failures and results of a comment keep to its sections, unless a type leaves
its section. -/
theorem Doc.ofComment_confined (comment : Text) :
    let block := Comment.plain comment
    (∀ s ∈ sections block, Unbroken s) ∧
    Entry.params.Confined Entry.openedParam? block (Doc.ofComment comment).params ∧
    Entry.throws.Confined Entry.openedThrows? block (Doc.ofComment comment).throws ∧
    ∃ results, Entry.results.Confined Entry.openedReturns? block results ∧
      (Doc.ofComment comment).returns = results.head?.join := by
  intro block
  have htidy := Comment.tidy_plain comment
  refine ⟨(sectioned_sections htidy).unbroken, ?_, ?_, Entry.results.all block, ?_, ?_⟩
  · exact Entry.local_params.confined Entry.wholeButType_of_param? htidy
  · exact Entry.local_throws.confined Entry.wholeButType_of_throws? htidy
  · exact Entry.local_results.confined Entry.wholeButType_of_result? htidy
  · exact Entry.returns?_eq block

/-- A type that is opened inside of another entry does no harm. -/
theorem Doc.ofComment_confined_transfer :
    let comment := ("/**\n * @param \x7bA\x7d a - b @param \x7bX\n * c\n\n" ++
      " * @throws \x7bE\x7d d\n * @return \x7bR\n */").toList
    let ss := sections (Comment.plain comment)
    ss.length = 4 ∧ Entry.TypesClose Entry.params Entry.openedParam? ss ∧
      Entry.TypesClose Entry.throws Entry.openedThrows? ss ∧
      Entry.TypesClose Entry.results Entry.openedReturns? ss ∧
      (Doc.ofComment comment).params = ss.flatMap Entry.params.all ∧
      (Doc.ofComment comment).throws = ss.flatMap Entry.throws.all ∧
      (Doc.ofComment comment).returns = (ss.flatMap Entry.results.all).head?.join := by
  intro comment ss
  obtain ⟨-, hparams, hthrows, results, hresults, hreturns⟩ := Doc.ofComment_confined comment
  have hp : Entry.TypesClose Entry.params Entry.openedParam? ss := by decide +kernel
  have ht : Entry.TypesClose Entry.throws Entry.openedThrows? ss := by decide +kernel
  have hr : Entry.TypesClose Entry.results Entry.openedReturns? ss := by decide +kernel
  rw [hresults.alone hr] at hreturns
  exact ⟨by decide +kernel, hp, ht, hr, hparams.alone hp, hthrows.alone ht, hreturns⟩

/-- A type without a closing brace takes the next section with it, up to a closing brace there. -/
theorem Doc.ofComment_swallows :
    let comment := "/**\n * @param \x7bFoo\n * @param \x7bBar\x7d x - y\n */".toList
    let block := Comment.plain comment
    (Doc.ofComment comment).params = [⟨"x".toList, "Foo\n@param \x7bBar".toList, "y".toList⟩] ∧
      (Entry.params.traced.all block).map Prod.snd =
        ["@param \x7bFoo\n@param \x7bBar\x7d x - y".toList] ∧
      (sections block).flatMap Entry.params.all =
        [⟨"x".toList, "Bar".toList, "y".toList⟩] := by
  decide +kernel

end CircuitDocs

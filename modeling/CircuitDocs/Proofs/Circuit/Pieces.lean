import CircuitDocs.Proofs.Circuit.Sound

/-! # Parameter lists in pieces

A text has one decomposition at the commas outside angle brackets, however its brackets are
balanced. Parameter lists are read from the pieces of this decomposition, so that they are read part
by part wherever a comma separates two parts.
-/

namespace CircuitDocs.Parameter

open Text

variable {t a b p : Text} {ps : List Text} {d : Int}

/-- Pieces of a text: joined by commas they are the text, a comma within a piece is at a depth
other than zero, counted from the start of the piece, and every piece but the last ends at depth
zero. -/
structure IsCut (t : Text) (ps : List Text) : Prop where
  joined : [','].intercalate ps = t
  solid : ∀ p ∈ ps, Solid 0 p
  level : ∀ p ∈ ps.dropLast, depth 0 p = 0

theorem intercalate_comma_cons (p : Text) (hps : ps ≠ []) :
    [','].intercalate (p :: ps) = p ++ ',' :: [','].intercalate ps := by
  obtain ⟨q, qs, rfl⟩ := List.exists_cons_of_ne_nil hps
  simp [List.intercalate]

theorem isCut_cons_iff (hps : ps ≠ []) :
    IsCut t (p :: ps) ↔ Solid 0 p ∧ depth 0 p = 0 ∧ ∃ r, t = p ++ ',' :: r ∧ IsCut r ps := by
  constructor
  · rintro ⟨rfl, hsolid, hlevel⟩
    rw [List.dropLast_cons_of_ne_nil hps, List.forall_mem_cons] at hlevel
    rw [List.forall_mem_cons] at hsolid
    exact ⟨hsolid.1, hlevel.1, _, intercalate_comma_cons p hps, rfl, hsolid.2, hlevel.2⟩
  · rintro ⟨hsolid, hlevel, r, rfl, h⟩
    refine ⟨?_, List.forall_mem_cons.mpr ⟨hsolid, h.solid⟩, ?_⟩
    · rw [intercalate_comma_cons p hps, h.joined]
    · rw [List.dropLast_cons_of_ne_nil hps]
      exact List.forall_mem_cons.mpr ⟨hlevel, h.level⟩

/-! ## The one decomposition -/

theorem IsCut.eq_piecesFrom (h : IsCut t ps) (hne : ps ≠ []) : ps = piecesFrom 0 t := by
  induction ps generalizing t with
  | nil => exact absurd rfl hne
  | cons p ps ih =>
    by_cases hps : ps = []
    · subst hps
      obtain rfl : p = t := by simpa using h.joined
      exact (piecesFrom_solid (h.solid p (by simp))).symm
    · obtain ⟨hsolid, hlevel, r, rfl, hr⟩ := (isCut_cons_iff hps).mp h
      rw [piecesFrom_comma hsolid hlevel, ← ih hr hps]

theorem intercalate_piecesFrom (d : Int) (t : Text) : [','].intercalate (piecesFrom d t) = t := by
  fun_induction piecesFrom d t with
  | case1 => rfl
  | case2 d c t hc ih =>
    rw [intercalate_comma_cons [] (piecesFrom_ne_nil d t), ih, hc.1]
    rfl
  | case3 d c t hc ih =>
    obtain ⟨p, ps, hp⟩ := List.exists_cons_of_ne_nil (piecesFrom_ne_nil (angle d c) t)
    rw [hp] at ih ⊢
    rw [List.modifyHead_cons, ← ih]
    cases ps <;> simp [List.intercalate]

theorem depth_piecesFrom (d : Int) (t : Text) (h : piecesFrom d t = p :: ps) :
    (ps ≠ [] → depth d p = 0) ∧ ∀ q ∈ ps.dropLast, depth 0 q = 0 := by
  fun_induction piecesFrom d t generalizing p ps with
  | case1 d =>
    obtain ⟨-, rfl⟩ := List.cons.inj h
    simp
  | case2 d c t hc ih =>
    obtain ⟨rfl, rfl⟩ := List.cons.inj h
    obtain ⟨q, qs, hq⟩ := List.exists_cons_of_ne_nil (piecesFrom_ne_nil d t)
    obtain ⟨hfirst, hrest⟩ := ih hq
    refine ⟨fun _ => hc.2, ?_⟩
    rw [hq]
    cases qs with
    | nil => simp
    | cons r qs =>
      rw [List.dropLast_cons_of_ne_nil (by simp), List.forall_mem_cons]
      exact ⟨hc.2 ▸ hfirst (by simp), hrest⟩
  | case3 d c t hc ih =>
    obtain ⟨q, qs, hq⟩ := List.exists_cons_of_ne_nil (piecesFrom_ne_nil (angle d c) t)
    rw [hq, List.modifyHead_cons] at h
    obtain ⟨rfl, rfl⟩ := List.cons.inj h
    exact ih hq

theorem isCut_piecesFrom (t : Text) : IsCut t (piecesFrom 0 t) := by
  refine ⟨intercalate_piecesFrom 0 t, fun _ => solid_of_mem_piecesFrom, ?_⟩
  obtain ⟨p, ps, hp⟩ := List.exists_cons_of_ne_nil (piecesFrom_ne_nil 0 t)
  obtain ⟨hfirst, hrest⟩ := depth_piecesFrom 0 t hp
  rw [hp]
  cases ps with
  | nil => simp
  | cons q ps =>
    rw [List.dropLast_cons_of_ne_nil (by simp), List.forall_mem_cons]
    exact ⟨hfirst (by simp), hrest⟩

/-! ## Parts of a parameter list -/

theorem piecesFrom_append (hd : depth d a = 0) (b : Text) :
    piecesFrom d (a ++ ',' :: b) = piecesFrom d a ++ piecesFrom 0 b := by
  fun_induction piecesFrom d a with
  | case1 d =>
    obtain rfl : d = 0 := hd
    rw [List.nil_append, piecesFrom, if_pos ⟨rfl, rfl⟩]
    rfl
  | case2 d c a hc ih =>
    have hangle : angle d c = d := by rw [hc.1]; rfl
    rw [depth, List.foldl_cons, hangle] at hd
    rw [List.cons_append, piecesFrom, if_pos hc, ih hd]
    rfl
  | case3 d c a hc ih =>
    obtain ⟨p, ps, hp⟩ := List.exists_cons_of_ne_nil (piecesFrom_ne_nil (angle d c) a)
    rw [List.cons_append, piecesFrom, if_neg hc, ih hd, hp]
    rfl

theorem fragments_append (ha : depth 0 a = 0) (b : Text) :
    fragments (a ++ ',' :: b) = fragments a ++ fragments b := by
  rw [fragments, piecesFrom_append ha, List.filter_append]
  rfl

theorem ofList_append (ha : depth 0 a = 0) (b : Text) :
    ofList (a ++ ',' :: b) = ofList a ++ ofList b := by
  rw [ofList, fragments_append ha, List.filterMap_append]
  rfl

/-- The fragments of a parameter list are its pieces that are not blank. No pieces at all are those
of the empty text too, and give the same. -/
theorem IsCut.fragments_eq (h : IsCut t ps) : fragments t = ps.filter (!blank ·) := by
  by_cases hne : ps = []
  · subst hne
    obtain rfl : [] = t := h.joined
    rfl
  · rw [h.eq_piecesFrom hne]
    rfl

/-- Every text is cut into pieces in one way, the fragments of a parameter list are its pieces that
are not blank, and a comma at depth zero separates what is read before it from what is read behind
it. So a piece that is no parameter does not bear on those around it. -/
theorem fragments_exact (t : Text) :
    (∃! ps, ps ≠ [] ∧ IsCut t ps) ∧
      (∀ ps, IsCut t ps → fragments t = ps.filter (!blank ·)) ∧
      ∀ a b, depth 0 a = 0 →
        fragments (a ++ ',' :: b) = fragments a ++ fragments b ∧
          ofList (a ++ ',' :: b) = ofList a ++ ofList b ∧
          ∀ p, Solid 0 p → depth 0 p = 0 → ofFragment? p = none →
            ofList (a ++ ',' :: (p ++ ',' :: b)) = ofList a ++ ofList b := by
  refine ⟨?_, fun ps h => h.fragments_eq, ?_⟩
  · refine ⟨piecesFrom 0 t, ⟨piecesFrom_ne_nil 0 t, isCut_piecesFrom t⟩, ?_⟩
    rintro ps ⟨hne, h⟩
    exact h.eq_piecesFrom hne
  · intro a b ha
    refine ⟨fragments_append ha b, ofList_append ha b, fun p hp hlevel hnone => ?_⟩
    rw [ofList_append ha, ofList_comma hp hlevel, hnone]
    rfl

/-- The brackets of the first part are balanced and those of the last one are not. What stands
between them is no parameter. -/
theorem fragments_exact_stray :
    let a := "x: Map<K, V>".toList
    let p := " what".toList
    let b := " y: T>,z: U".toList
    depth 0 a = 0 ∧ Solid 0 p ∧ depth 0 p = 0 ∧ ofFragment? p = none ∧
      IsCut (a ++ ',' :: (p ++ ',' :: b)) [a, p, b] ∧
      fragments (a ++ ',' :: (p ++ ',' :: b)) = [a, p, b] ∧
      ofList (a ++ ',' :: (p ++ ',' :: b)) =
        [⟨"x".toList, "Map<K, V>".toList⟩, ⟨"y".toList, "T>,z: U".toList⟩] := by
  intro a p b
  have ha : depth 0 a = 0 := by decide
  have hp : Solid 0 p := Even.solid (by decide)
  have hlevel : depth 0 p = 0 := by decide
  have hnone : ofFragment? p = none := by decide +kernel
  have hpieces : piecesFrom 0 (a ++ ',' :: (p ++ ',' :: b)) = [a, p, b] := by decide
  have hcut := isCut_piecesFrom (a ++ ',' :: (p ++ ',' :: b))
  rw [hpieces] at hcut
  obtain ⟨-, hfragments, hparts⟩ := fragments_exact (a ++ ',' :: (p ++ ',' :: b))
  refine ⟨ha, hp, hlevel, hnone, hcut, ?_, ?_⟩
  · rw [hfragments _ hcut]
    decide +kernel
  · rw [(hparts a b ha).2.2 p hp hlevel hnone]
    decide +kernel

end CircuitDocs.Parameter

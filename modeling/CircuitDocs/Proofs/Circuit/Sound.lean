import CircuitDocs.Proofs.Circuit.Parameter
import CircuitDocs.Proofs.Circuit.Record
import CircuitDocs.Proofs.Doc.Sound

/-! # What a record can hold

However malformed a source is, its records are in order. A parameter type never begins with a
comma, and no type is lost with the commas that are taken off its end: a piece of a parameter list
has no comma at depth zero, and up to the first character of its type the depth is zero.
-/

namespace CircuitDocs

open Text

variable {t f : Text} {c : Char}

namespace Parameter

variable {p : Parameter}

/-- A name, and a type that begins with something else than a comma. -/
structure Sound (p : Parameter) : Prop where
  name : IsName p.name
  type : Filled p.type
  head?_ne : p.type.head? ≠ some ','

/-! ## Pieces -/

theorem exists_piecesFrom_eq (d : Int) (t : Text) :
    ∃ p ps, piecesFrom d t = p :: ps ∧ Solid d p ∧ ∀ q ∈ ps, Solid 0 q := by
  fun_induction piecesFrom d t with
  | case1 d => exact ⟨[], [], rfl, solid_nil, by simp⟩
  | case2 d c t hc ih =>
    obtain ⟨p, ps, hp, hsolid, hrest⟩ := ih
    rw [hc.2] at hp hsolid
    exact ⟨[], p :: ps, by rw [hc.2, hp], solid_nil, List.forall_mem_cons.mpr ⟨hsolid, hrest⟩⟩
  | case3 d c t hc ih =>
    obtain ⟨p, ps, hp, hsolid, hrest⟩ := ih
    refine ⟨c :: p, ps, by rw [hp, List.modifyHead_cons], ?_, hrest⟩
    exact solid_cons.mpr ⟨fun hcomma hd => hc ⟨hcomma, hd⟩, hsolid⟩

theorem solid_of_mem_piecesFrom (h : f ∈ piecesFrom 0 t) : Solid 0 f := by
  obtain ⟨p, ps, hp, hsolid, hrest⟩ := exists_piecesFrom_eq 0 t
  rw [hp] at h
  exact List.forall_mem_cons.mpr ⟨hsolid, hrest⟩ f h

/-! ## Types -/

theorem collapsed_typeText (t : Text) : Collapsed (typeText t) := by
  refine (collapsed_collapse t).of_isPrefix ?_ trimRight_trimRight
  exact (List.rdropWhile_prefix isBlank _).trans (List.rdropWhile_prefix _ _)

theorem head?_typeText (h : (trimLeft t).head? = some c) (hc : c ≠ ',') :
    (typeText t).head? = some c := by
  have hb : isBlank c = false := trimLeft_eq_self_iff.mp trimLeft_trimLeft c h
  obtain ⟨r, hr⟩ : ∃ r, collapse t = c :: r := by
    rw [← head?_collapse, List.head?_eq_some_iff] at h
    exact h
  have htype : typeText t = ((c :: r).rdropWhile (· = ',')).rdropWhile isBlank := by
    rw [← hr]
    rfl
  rw [htype, rdropWhile_cons (by simpa using hc), rdropWhile_cons hb, List.head?_cons]

theorem exists_of_ofFragment? (h : ofFragment? f = some p) :
    ∃ u gap type v, f = u ++ (p.name ++ (gap ++ ':' :: (type ++ v))) ∧ blank u = true ∧
      IsName p.name ∧ blank gap = true ∧ blank type = false ∧ p.type = typeText type := by
  unfold ofFragment? at h
  dsimp only at h
  split at h
  · rename_i c name d r hname hrest
    obtain rfl := Option.some.inj h
    obtain ⟨u, hu, hf⟩ := exists_blank_append_trimLeft f
    obtain ⟨v, -, hv⟩ := exists_trimRight_append_blank (trimLeft f)
    obtain ⟨gap, hgap, hafter⟩ := exists_blank_append_trimLeft ((trim f).dropWhile isWord)
    have htrim : trim f = (c :: name) ++ (gap ++ ':' :: d :: r) := by
      rw [← hname, ← hrest, ← hafter, List.takeWhile_append_dropWhile]
    refine ⟨u, gap, d :: r, v, ?_, hu, ⟨by simp, fun e he => ?_⟩, hgap, ?_, rfl⟩
    · rw [← trim, htrim] at hv
      rw [hv] at hf
      simpa using hf
    · rw [← hname] at he
      exact List.mem_takeWhile_imp he
    · have hlast := (trimmed_trim f).last ((d :: r).getLast (by simp))
      rw [htrim] at hlast
      refine not_blank_of_mem (List.getLast_mem (by simp)) (hlast ?_)
      simp [List.getLast?_eq_some_getLast]
  · contradiction

theorem sound_of_ofFragment? (hf : Solid 0 f) (h : ofFragment? f = some p) : p.Sound := by
  obtain ⟨u, gap, type, v, rfl, hu, hname, hgap, hb, htype⟩ := exists_of_ofFragment? h
  obtain ⟨b, hblank, hsplit⟩ := exists_blank_append_trimLeft type
  obtain ⟨c, r, hr⟩ : ∃ c r, trimLeft type = c :: r := by
    apply List.exists_cons_of_ne_nil
    rw [ne_eq, trimLeft_eq_nil_iff, hb]
    decide
  have hfront : Even (u ++ (p.name ++ (gap ++ (':' :: b)))) := by
    have hcolon : Even (':' :: b) := Even.append (u := [':']) (by decide) (even_of_blank hblank)
    exact (even_of_blank hu).append ((even_of_isName hname).append
      ((even_of_blank hgap).append hcolon))
  have hc : c ≠ ',' := by
    rintro rfl
    refine hf _ (r ++ v) ?_ hfront.depth
    rw [hsplit, hr]
    simp
  have hhead : p.type.head? = some c := by
    rw [htype]
    exact head?_typeText (by rw [hr]; rfl) hc
  exact {
    name := hname
    type := ⟨htype ▸ collapsed_typeText type, fun h => by simp [h] at hhead⟩
    head?_ne := by simpa [hhead] using hc }

theorem sound_of_mem_ofList (h : p ∈ ofList t) : p.Sound := by
  rw [ofList_eq, List.mem_filterMap] at h
  obtain ⟨f, hf, hp⟩ := h
  exact sound_of_ofFragment? (solid_of_mem_piecesFrom hf) hp

end Parameter

/-! ## Signatures -/

namespace Signature

/-- Text that a return type can be: it ends before the brace of the body. -/
structure IsReturnType (t : Text) : Prop extends Filled t where
  brace_not_mem : '{' ∉ t

structure Sound (s : Signature) : Prop where
  name : IsName s.name
  parameters : ∀ p ∈ s.parameters, p.Sound
  returnType : IsReturnType s.returnType

theorem isReturnType_noReturnType : IsReturnType noReturnType where
  toCollapsed := by
    rw [show noReturnType = collapse noReturnType by decide]
    exact collapsed_collapse _
  ne_nil := by decide
  brace_not_mem := by decide

theorem isReturnType_returnTypeIn (t : Text) : IsReturnType (returnTypeIn t) := by
  unfold returnTypeIn
  split
  · rename_i r _
    split
    · exact isReturnType_noReturnType
    · rename_i c type hc
      refine ⟨⟨hc ▸ collapsed_collapse _, by simp⟩, fun h => ?_⟩
      rw [← hc] at h
      rcases mem_of_mem_collapse h with h | h
      · contradiction
      · simpa using List.mem_takeWhile_imp h
  · exact isReturnType_noReturnType

theorem sound_ofText {heading : Heading} (hname : IsName heading.name) (line : Int) (t : Text) :
    (ofText heading line t).Sound := by
  unfold ofText
  split
  · exact ⟨hname, fun _ => Parameter.sound_of_mem_ofList, isReturnType_returnTypeIn _⟩
  · exact ⟨hname, by simp, isReturnType_noReturnType⟩

end Signature

/-! ## Records -/

namespace Record

/-- All fields of a record are in order, and what has no block has no documentation. -/
structure Sound (r : Record) : Prop where
  signature : r.signature.Sound
  doc : r.doc.Sound
  undocumented : r.documented = false → r.doc = {}

theorem sound_ofHeading {heading : Heading} (hname : IsName heading.name)
    (above below : List Text) : (ofHeading heading above below).Sound where
  signature := by
    rw [signature_ofHeading]
    exact Signature.sound_ofText hname _ _
  doc := by
    rcases cut_or_none above with ⟨gap, first, inner, rest, h⟩ | h
    · rw [ofHeading_of_cut h]
      exact Doc.sound_ofComment _
    · rw [ofHeading_of_none h, ← Doc.ofComment_nil]
      exact Doc.sound_ofComment _
  undocumented hd := by
    rcases cut_or_none above with ⟨gap, first, inner, rest, h⟩ | h
    · rw [ofHeading_of_cut h] at hd
      contradiction
    · rw [ofHeading_of_none h]

/-- Every record of every source is in order. -/
theorem sound_of_mem_ofSource {source : Text} {r : Record} (h : r ∈ ofSource source) :
    r.Sound := by
  obtain ⟨pre, line, post, heading, -, hline, rfl⟩ := exists_line_of_mem_ofLines h
  obtain ⟨f, -, rfl⟩ := Heading.ofLine?_eq_some_iff.mp hline
  exact sound_ofHeading f.isName _ _

theorem sound_of_mem_ofSource_unclosed :
    let source := unlines (["/** @title", " * @param \x7b A \x7d x -", " * @returns \x7b R",
      " */", "circuit f(a :  T ,, b c, d: , e: <,, ): \x7b", "circuit g(a: T"].map String.toList)
    ∃ r ∈ ofSource source, r.signature.parameters.map (·.type) = ["T".toList, "<".toList] ∧
      r.documented = true ∧ r.Sound := by
  intro source
  have hrecord : ∃ r ∈ ofSource source,
      r.signature.parameters.map (·.type) = ["T".toList, "<".toList] ∧ r.documented = true := by
    decide +kernel
  obtain ⟨r, hr, htypes, hd⟩ := hrecord
  exact ⟨r, hr, htypes, hd, sound_of_mem_ofSource hr⟩

end Record

end CircuitDocs

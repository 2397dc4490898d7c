import CircuitDocs.Proofs.Circuit.Heading
import CircuitDocs.Proofs.Text.Words
import CircuitDocs.Proofs.Circuit.Paren

/-! # Written parameters

A parameter that is written `name: Type` is read back from a parameter list, whatever blanks are
around it, if a comma follows or if it is the last one.
-/

namespace CircuitDocs

open Text

namespace Parameter

variable {t u v : Text} {d : Int} {p : Parameter}

/-! ## Angle depth -/

def depth (d : Int) (t : Text) : Int := t.foldl angle d

/-- Text that begins at depth `d` and has no comma at depth zero. -/
def Solid (d : Int) (t : Text) : Prop := ∀ u v, t = u ++ ',' :: v → depth d u ≠ 0

/-- Text that a search for commas and angle brackets passes over. -/
def Even (t : Text) : Prop := ∀ c ∈ t, c ≠ ',' ∧ c ≠ '<' ∧ c ≠ '>'

instance (t : Text) : Decidable (Even t) :=
  decidable_of_iff ((t.all fun c => c ≠ ',' ∧ c ≠ '<' ∧ c ≠ '>') = true)
    (by simp only [List.all_eq_true, decide_eq_true_eq, Even])

theorem depth_append : depth d (u ++ v) = depth (depth d u) v := List.foldl_append

theorem solid_nil : Solid d [] := by
  intro u v h
  simp at h

theorem solid_cons {c : Char} : Solid d (c :: t) ↔ (c = ',' → d ≠ 0) ∧ Solid (angle d c) t := by
  constructor
  · intro h
    refine ⟨fun hc => h [] t (by rw [hc]; rfl), fun u v he => ?_⟩
    exact h (c :: u) v (by rw [he]; rfl)
  · rintro ⟨hc, h⟩ u v he
    cases u with
    | nil =>
      obtain ⟨rfl, -⟩ := List.cons.inj he
      exact hc rfl
    | cons c' u =>
      obtain ⟨rfl, rfl⟩ := List.cons.inj he
      exact h u v rfl

theorem Solid.append (hu : Solid d u) (hv : Solid (depth d u) v) : Solid d (u ++ v) := by
  induction u generalizing d with
  | nil => exact hv
  | cons c u ih =>
    rw [solid_cons] at hu
    exact solid_cons.mpr ⟨hu.1, ih hu.2 hv⟩

theorem Even.depth (ht : Even t) : depth d t = d := by
  induction t generalizing d with
  | nil => rfl
  | cons c t ih =>
    have hc := ht c (by simp)
    rw [Parameter.depth, List.foldl_cons, angle, if_neg hc.2.1, if_neg hc.2.2]
    exact ih fun c hc => ht c (by simp [hc])

theorem Even.solid (ht : Even t) : Solid d t := by
  rintro u v rfl
  exact absurd rfl (ht ',' (by simp)).1

theorem even_of_blank (ht : blank t = true) : Even t := by
  intro c hc
  have hb := blank_iff.mp ht c hc
  refine ⟨?_, ?_, ?_⟩ <;> rintro rfl <;> exact absurd hb (by decide)

theorem even_of_isName {n : Text} (hn : IsName n) : Even n := by
  intro c hc
  have hw := hn.all c hc
  refine ⟨?_, ?_, ?_⟩ <;> rintro rfl <;> exact absurd hw (by decide)

theorem Even.append (hu : Even u) (hv : Even v) : Even (u ++ v) := by
  intro c hc
  rcases List.mem_append.mp hc with hc | hc
  · exact hu c hc
  · exact hv c hc

/-! ## Pieces -/

theorem piecesFrom_ne_nil (d : Int) (t : Text) : piecesFrom d t ≠ [] := by
  fun_induction piecesFrom d t with
  | case1 => simp
  | case2 => simp
  | case3 d c t hc ih => simpa [List.modifyHead_eq_nil_iff] using ih

theorem piecesFrom_solid_append (hu : Solid d u) :
    piecesFrom d (u ++ t) = (piecesFrom (depth d u) t).modifyHead (u ++ ·) := by
  induction u generalizing d with
  | nil =>
    obtain ⟨p, ps, hp⟩ := List.exists_cons_of_ne_nil (piecesFrom_ne_nil d t)
    simp [depth, hp]
  | cons c u ih =>
    rw [solid_cons] at hu
    rw [List.cons_append, piecesFrom, if_neg fun h => hu.1 h.1 h.2, ih hu.2,
      List.modifyHead_modifyHead]
    rfl

theorem piecesFrom_solid (hu : Solid d u) : piecesFrom d u = [u] := by
  have h := piecesFrom_solid_append (t := []) hu
  rw [List.append_nil] at h
  rw [h, piecesFrom, List.modifyHead_cons, List.append_nil]

theorem piecesFrom_comma (hu : Solid d u) (hd : depth d u = 0) :
    piecesFrom d (u ++ ',' :: t) = u :: piecesFrom 0 t := by
  rw [piecesFrom_solid_append hu, hd, piecesFrom, if_pos ⟨rfl, rfl⟩, List.modifyHead_cons,
    List.append_nil]

theorem ofFragment?_blank (ht : blank t = true) : ofFragment? t = none := by
  rw [ofFragment?, trim, trimLeft_eq_nil_iff.mpr ht]
  rfl

theorem ofList_eq (t : Text) : ofList t = (piecesFrom 0 t).filterMap ofFragment? := by
  rw [ofList, fragments, List.filterMap_filter]
  congr 1
  funext f
  cases h : blank f with
  | true => simp [ofFragment?_blank h]
  | false => simp

theorem ofList_solid (hu : Solid 0 u) : ofList u = (ofFragment? u).toList := by
  rw [ofList_eq, piecesFrom_solid hu, List.filterMap_cons]
  cases ofFragment? u <;> rfl

theorem ofList_comma (hu : Solid 0 u) (hd : depth 0 u = 0) :
    ofList (u ++ ',' :: t) = (ofFragment? u).toList ++ ofList t := by
  rw [ofList_eq, piecesFrom_comma hu hd, List.filterMap_cons, ofList_eq]
  cases ofFragment? u <;> rfl

theorem ofList_blank (ht : blank t = true) : ofList t = [] := by
  rw [ofList_solid (even_of_blank ht).solid, ofFragment?_blank ht]
  rfl

/-! ## Written parameters -/

structure IsType (t : Text) : Prop where
  ne_nil : t ≠ []
  collapsed : collapse t = t
  balanced : Paren.Balanced t
  depth_eq : depth 0 t = 0
  solid : Solid 0 t

structure WellFormed (p : Parameter) : Prop where
  name : IsName p.name
  type : IsType p.type

def text (p : Parameter) : Text := p.name ++ ": ".toList ++ p.type

theorem WellFormed.even_name (hp : p.WellFormed) : Even (p.name ++ ": ".toList) :=
  (even_of_isName hp.name).append (by decide)

theorem WellFormed.solid_text (hp : p.WellFormed) : Solid 0 p.text :=
  hp.even_name.solid.append (hp.even_name.depth.symm ▸ hp.type.solid)

theorem WellFormed.depth_text (hp : p.WellFormed) : depth 0 p.text = 0 := by
  rw [text, depth_append, hp.even_name.depth, hp.type.depth_eq]

theorem WellFormed.balanced_text (hp : p.WellFormed) : Paren.Balanced p.text := by
  have hn : ∀ c ∈ p.name, c ≠ '(' ∧ c ≠ ')' := by
    intro c hc
    have hw := hp.name.all c hc
    constructor <;> rintro rfl <;> exact absurd hw (by decide)
  refine (Paren.Balanced.append ?_ ?_).append hp.type.balanced
  · exact .of_not_mem (fun h => (hn _ h).1 rfl) (fun h => (hn _ h).2 rfl)
  · exact .of_not_mem (by decide) (by decide)

theorem WellFormed.newline_not_mem_text (hp : p.WellFormed) : '\n' ∉ p.text := by
  have hn : '\n' ∉ p.name := fun h => absurd (hp.name.all _ h) (by decide)
  have ht : '\n' ∉ p.type := by
    rw [← hp.type.collapsed]
    exact fun h => absurd (mem_collapse h) (by decide)
  simp [text, hn, ht]

theorem IsType.typeText_eq (ht : IsType t) : typeText (' ' :: t) = t := by
  have hc : collapse (' ' :: t) = t := by
    rw [collapse_congr (words_cons_blank (by decide)), ht.collapsed]
  have hlast : (t.reverse.dropWhile (· = ',')).reverse = t := by
    obtain ⟨u, c, rfl⟩ := (List.eq_nil_or_concat' t).resolve_left ht.ne_nil
    have hne : c ≠ ',' := by
      rintro rfl
      have hd := ht.depth_eq
      rw [depth_append] at hd
      exact ht.solid u [] rfl hd
    simp [hne]
  rw [typeText, hc, hlast, ← ht.collapsed, trimRight_collapse]

theorem WellFormed.ofFragment?_text (hp : p.WellFormed) (hu : blank u = true)
    (hv : blank v = true) : ofFragment? (u ++ (p.text ++ v)) = some p := by
  have hl : trimLeft p.text = p.text := by
    rw [text, List.append_assoc]
    exact hp.name.trimLeft_append
  have hb : blank p.type = false := by
    rw [← Bool.not_eq_true, ← words_eq_nil_iff, ← collapse_eq_nil_iff, hp.type.collapsed]
    exact hp.type.ne_nil
  have hr : trimRight p.text = p.text := by
    rw [text, trimRight_append hb, ← hp.type.collapsed, trimRight_collapse]
  have ht : trim (u ++ (p.text ++ v)) = p.name ++ ':' :: ' ' :: p.type := by
    rw [trim_blank_append hu, trim_append_blank hv, trim_eq_self hl hr, text]
    simp
  rw [ofFragment?, ht, hp.name.takeWhile_append (by decide), hp.name.dropWhile_append (by decide),
    trimLeft_cons (by decide)]
  obtain ⟨c, n, hn⟩ := List.exists_cons_of_ne_nil hp.name.ne_nil
  simp only [hn, hp.type.typeText_eq]
  rw [← hn]

theorem WellFormed.ofList_text (hp : p.WellFormed) (hu : blank u = true) (hv : blank v = true) :
    ofList (u ++ (p.text ++ v)) = [p] := by
  have hs : Solid 0 (u ++ (p.text ++ v)) := by
    refine (even_of_blank hu).solid.append ?_
    rw [(even_of_blank hu).depth]
    exact hp.solid_text.append (even_of_blank hv).solid
  rw [ofList_solid hs, hp.ofFragment?_text hu hv]
  rfl

theorem WellFormed.ofList_text_comma (hp : p.WellFormed) (hu : blank u = true) (t : Text) :
    ofList (u ++ (p.text ++ ',' :: t)) = p :: ofList t := by
  have he := even_of_blank hu
  have hs : Solid 0 (u ++ p.text) := he.solid.append (by rw [he.depth]; exact hp.solid_text)
  have hd : depth 0 (u ++ p.text) = 0 := by rw [depth_append, he.depth, hp.depth_text]
  have hf := hp.ofFragment?_text hu (v := []) rfl
  rw [List.append_nil] at hf
  rw [← List.append_assoc, ofList_comma hs hd, hf]
  rfl

end Parameter

end CircuitDocs

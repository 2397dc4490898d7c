import CircuitDocs.Proofs.Circuit.Parameter
import CircuitDocs.Proofs.Circuit.Record
import CircuitDocs.Proofs.Doc.Alike

/-! # Padded sources

A source whose lines are padded has the same declarations, with the same signatures, and the same
blocks above them. The record of a circuit is then the same but for the text of its comment and
for blanks inside the types that the comment names.
-/

namespace CircuitDocs

open Text Filler

variable {f b : Filler} {t t' l l' : Text}

/-! ## Declaration lines -/

theorem scan_append {p : Char → Bool} (hp : p '(' = false) (ht : '(' ∈ t) (v : Text) :
    (t ++ v).takeWhile p = t.takeWhile p ∧ (t ++ v).dropWhile p = t.dropWhile p ++ v ∧
      '(' ∈ t.dropWhile p := by
  induction t with
  | nil => simp at ht
  | cons c t ih =>
    cases hc : p c with
    | true =>
      have hne : '(' ≠ c := by
        rintro rfl
        simp [hp] at hc
      simpa [hc] using ih ((List.mem_cons.mp ht).resolve_left hne)
    | false => simpa [hc] using ht

theorem trimLeft_append_of_mem (ht : '(' ∈ t) (v : Text) :
    trimLeft (t ++ v) = trimLeft t ++ v ∧ '(' ∈ trimLeft t :=
  (scan_append (by decide) ht v).2

theorem after?_append_of_mem {w : Text} (hw : '(' ∉ w) (ht : '(' ∈ t) (v : Text) :
    after? w (t ++ v) = (after? w t).map (· ++ v) := by
  induction w generalizing t with
  | nil => rfl
  | cons c w ih =>
    simp only [List.mem_cons, not_or] at hw
    cases t with
    | nil => simp at ht
    | cons d t =>
      rw [List.cons_append, after?, after?]
      split
      · rename_i hc
        exact ih hw.2 ((List.mem_cons.mp ht).resolve_left (hc ▸ hw.1))
      · rfl

theorem mem_of_afterKeyword? {w r : Text} (hw : '(' ∉ w) (h : afterKeyword? w t = some r) :
    '(' ∈ t ↔ '(' ∈ r := by
  obtain ⟨c, u, rfl, hc, rfl⟩ := eq_append_of_afterKeyword? h
  have hne : '(' ≠ c := by
    rintro rfl
    exact absurd hc (by decide)
  simp only [List.mem_append, hw, false_or, List.mem_cons, hne]
  exact ⟨fun hu => (trimLeft_append_of_mem hu []).2, fun hu => (List.dropWhile_suffix _).subset hu⟩

theorem afterKeyword?_append {w : Text} (hw : '(' ∉ w) (ht : '(' ∈ t) (v : Text) :
    afterKeyword? w (t ++ v) = (afterKeyword? w t).map (· ++ v) := by
  rw [afterKeyword?, afterKeyword?, after?_append_of_mem hw ht]
  cases ha : after? w t with
  | none => rfl
  | some r =>
    have hr : '(' ∈ r := by
      rw [after?_eq_some_iff.mp ha] at ht
      exact (List.mem_append.mp ht).resolve_left hw
    cases r with
    | nil => simp at hr
    | cons c r =>
      simp only [Option.map_some, List.cons_append]
      split
      · rename_i hc
        have hne : '(' ≠ c := by
          rintro rfl
          exact absurd hc (by decide)
        have hr' := (List.mem_cons.mp hr).resolve_left hne
        rw [(trimLeft_append_of_mem hr' v).1]
        rfl
      · rfl

theorem mem_skipKeyword {w : Text} (hw : '(' ∉ w) : '(' ∈ skipKeyword w t ↔ '(' ∈ t := by
  rw [skipKeyword]
  cases h : afterKeyword? w t with
  | none => rfl
  | some r => exact (mem_of_afterKeyword? hw h).symm

theorem skipKeyword_append {w : Text} (hw : '(' ∉ w) (ht : '(' ∈ t) (v : Text) :
    skipKeyword w (t ++ v) = skipKeyword w t ++ v := by
  rw [skipKeyword, skipKeyword, afterKeyword?_append hw ht]
  cases afterKeyword? w t <;> rfl

namespace Heading

theorem name?_append (ht : '(' ∈ t) (v : Text) : name? (t ++ v) = name? t := by
  obtain ⟨htake, hdrop, hmem⟩ := scan_append (p := isWord) (by decide) ht v
  obtain ⟨htrim, hmem⟩ := trimLeft_append_of_mem hmem v
  rw [name?, name?, htake, hdrop, htrim]
  obtain ⟨c, r, hr⟩ := List.exists_cons_of_ne_nil (List.ne_nil_of_mem hmem)
  rw [hr, List.cons_append]
  split <;> split <;> simp_all

theorem mem_of_name? {name : Text} (h : name? t = some name) : '(' ∈ t := by
  unfold name? at h
  split at h
  · rename_i hr
    have hm : '(' ∈ trimLeft (t.dropWhile isWord) := by simp [hr]
    exact (List.dropWhile_suffix _).subset ((List.dropWhile_suffix _).subset hm)
  · simp at h

theorem mem_of_ofLine? {heading : Heading} (h : ofLine? l = some heading) : '(' ∈ l := by
  simp only [ofLine?] at h
  split at h
  · rename_i r hr
    obtain ⟨name, hn, -⟩ := Option.map_eq_some_iff.mp h
    have hm := (mem_of_afterKeyword? (by decide) hr).mpr (mem_of_name? hn)
    rw [mem_skipKeyword (by decide), mem_skipKeyword (by decide)] at hm
    exact (List.dropWhile_suffix _).subset hm
  · simp at h

theorem ofLine?_append (hl : '(' ∈ l) (v : Text) : ofLine? (l ++ v) = ofLine? l := by
  obtain ⟨htrim, hmem⟩ := trimLeft_append_of_mem hl v
  have hexport := mem_skipKeyword (t := trimLeft l) (w := "export".toList) (by decide)
  have hpure := mem_skipKeyword (t := skipKeyword "export".toList (trimLeft l))
    (w := "pure".toList) (by decide)
  simp only [ofLine?, htrim]
  rw [skipKeyword_append (by decide) hmem, skipKeyword_append (by decide) (hexport.mpr hmem),
    afterKeyword?_append (by decide) (hpure.mpr (hexport.mpr hmem)),
    afterKeyword?_append (by decide) hmem, Option.isSome_map]
  cases hr : afterKeyword? "circuit".toList
      (skipKeyword "pure".toList (skipKeyword "export".toList (trimLeft l))) with
  | none => rfl
  | some r =>
    have hm := (mem_of_afterKeyword? (by decide) hr).mp (hpure.mpr (hexport.mpr hmem))
    simp only [Option.map_some, name?_append hm]

theorem ofLine?_padded (h : PaddedLine f b l l') : ofLine? l' = ofLine? l := by
  obtain ⟨u, v, hu, hv, rfl⟩ := h
  have hfront : ofLine? (u ++ (l ++ v)) = ofLine? (l ++ v) := by
    simp only [ofLine?, trimLeft_append_blank hu.blank]
  rw [hfront]
  by_cases hl : '(' ∈ l
  · exact ofLine?_append hl v
  · have hlv : '(' ∉ l ++ v := by simp [hl, hv.not_mem (show isBlank '(' = false by decide)]
    have none_of : ∀ {l : Text}, '(' ∉ l → ofLine? l = none := by
      intro l hl
      cases h : ofLine? l with
      | none => rfl
      | some heading => exact absurd (mem_of_ofLine? h) hl
    rw [none_of hl, none_of hlv]

end Heading

theorem declares_padded (h : PaddedLine f b l l') : declares l' = declares l := by
  rw [declares, declares, Heading.ofLine?_padded h]

/-! ## Signatures -/

namespace Paren

theorem split?_append_of_not_mem {u : Text} (ho : '(' ∉ u) (hc : ')' ∉ u) (d : Int) (t : Text) :
    split? d (u ++ t) = (split? d t).map (Prod.map (u ++ ·) id) := by
  induction u with
  | nil => exact (congrFun Option.map_id _).symm
  | cons c u ih =>
    simp only [List.mem_cons, not_or] at ho hc
    rw [List.cons_append, split?, if_neg fun h => hc.1 h.1.symm, level, if_neg (Ne.symm ho.1),
      if_neg (Ne.symm hc.1), ih ho.2 hc.2, Option.map_map]
    rfl

theorem split?_append {v : Text} (ho : '(' ∉ v) (hc : ')' ∉ v) (d : Int) (t : Text) :
    split? d (t ++ v) = (split? d t).map (Prod.map id (· ++ v)) := by
  induction t generalizing d with
  | nil =>
    have h := split?_append_of_not_mem ho hc d []
    rw [List.append_nil] at h
    exact h
  | cons c t ih =>
    rw [List.cons_append, split?, split?, ih]
    split
    · rfl
    · rw [Option.map_map, Option.map_map]
      rfl

theorem rel_split? (h : Padded f b t t') (d : Int) :
    Option.Rel (fun x y => Padded f b x.1 y.1 ∧ Padded f b x.2 y.2) (split? d t) (split? d t') := by
  have rel_map : ∀ {x y : Option (Text × Text)} {u u' : Text}, Padded f b u u' →
      Option.Rel (fun x y => Padded f b x.1 y.1 ∧ Padded f b x.2 y.2) x y →
      Option.Rel (fun x y => Padded f b x.1 y.1 ∧ Padded f b x.2 y.2)
        (x.map (Prod.map (u ++ ·) id)) (y.map (Prod.map (u' ++ ·) id)) := by
    intro x y u u' hu hxy
    cases hxy with
    | none => exact .none
    | some hxy => exact .some ⟨hu.append hxy.1, hxy.2⟩
  induction h generalizing d with
  | nil => exact .none
  | cons c h ih =>
    rw [split?, split?]
    split
    · exact .some ⟨.nil, h⟩
    · exact rel_map (.refl [c]) (ih _)
  | @newline u v t s hu hv h ih =>
    have hend := blank_line_end hu hv
    have hline := rel_map (Padded.newline hu hv .nil) (ih d)
    have ht : split? d ('\n' :: t) = (split? d t).map (Prod.map (['\n'] ++ ·) id) := rfl
    rw [line_end_append, split?_append_of_not_mem (not_mem_of_blank hend (by decide))
      (not_mem_of_blank hend (by decide)), ht]
    rwa [List.append_nil] at hline

theorem rel_enclosed? (h : Padded f b t t') :
    Option.Rel (fun x y => Padded f b x.1 y.1 ∧ Padded f b x.2 y.2)
      (enclosed? t) (enclosed? t') := by
  rw [enclosed?_eq_split?, enclosed?_eq_split?]
  rcases h.dropWhile_ne_cases (c := '(') (by decide) with ⟨hx, hy⟩ | ⟨r, r', hx, hy, hr⟩
  · rw [hx, hy]
    exact .none
  · rw [hx, hy]
    exact rel_split? hr 1

theorem enclosed?_framed {u v : Text} (hu : blank u = true) (hv : blank v = true) (t : Text) :
    enclosed? (u ++ (t ++ v)) = (enclosed? t).map (Prod.map id (· ++ v)) := by
  have hpass : ∀ {w : Text}, blank w = true → ∀ c ∈ w, decide (c ≠ '(') = true :=
    fun hw c hc => decide_ne_of_isBlank (by decide) c (blank_iff.mp hw c hc)
  rw [enclosed?_eq_split?, enclosed?_eq_split?, List.dropWhile_append_of_pos (hpass hu),
    List.dropWhile_append]
  cases hd : t.dropWhile (fun c => decide (c ≠ '(')) with
  | nil =>
    have hv' : v.dropWhile (fun c => decide (c ≠ '(')) = [] :=
      List.dropWhile_eq_nil_iff.mpr (hpass hv)
    rw [List.isEmpty_nil, if_pos rfl, hv']
    rfl
  | cons c r =>
    exact split?_append (not_mem_of_blank hv (by decide)) (not_mem_of_blank hv (by decide)) 1 r

end Paren

namespace Parameter

theorem forall₂_modifyHead {R : Text → Text → Prop} {ps ps' : List Text} {g g' : Text → Text}
    (h : List.Forall₂ R ps ps') (hg : ∀ p p', R p p' → R (g p) (g' p')) :
    List.Forall₂ R (ps.modifyHead g) (ps'.modifyHead g') := by
  cases h with
  | nil => exact .nil
  | cons hp hps => exact .cons (hg _ _ hp) hps

theorem forall₂_piecesFrom (h : Padded f b t t') (d : Int) :
    List.Forall₂ (Padded f b) (piecesFrom d t) (piecesFrom d t') := by
  induction h generalizing d with
  | nil => exact .cons .nil .nil
  | cons c h ih =>
    rw [piecesFrom, piecesFrom]
    split
    · exact .cons .nil (ih d)
    · exact forall₂_modifyHead (ih _) fun _ _ hp => .cons c hp
  | @newline u v t s hu hv h ih =>
    have heven := even_of_blank (blank_line_end hu hv)
    rw [line_end_append, piecesFrom_solid_append heven.solid, heven.depth]
    refine forall₂_modifyHead (g := ('\n' :: ·)) (ih d) fun p p' hp => ?_
    simpa using Padded.newline hu hv hp

theorem ofFragment?_of_colon {r : Text}
    (hr : trimLeft ((trim t).dropWhile isWord) = ':' :: r) :
    ofFragment? t =
      if (trim t).takeWhile isWord = [] ∨ r = [] then none
      else some ⟨(trim t).takeWhile isWord, typeText r⟩ := by
  simp only [ofFragment?, hr]
  generalize (trim t).takeWhile isWord = n
  cases n <;> cases r <;> simp

theorem ofFragment?_of_ne (hr : ∀ r, trimLeft ((trim t).dropWhile isWord) ≠ ':' :: r) :
    ofFragment? t = none := by
  simp only [ofFragment?]
  split <;> simp_all

theorem ofFragment?_padded (h : Padded f b t t') : ofFragment? t' = ofFragment? t := by
  have hword : Padded.Stops b isWord := Padded.stops_of_not_blank fun _ => isBlank_of_isWord
  have hname := h.trim.takeWhile_eq hword
  have hrest := (h.trim.dropWhile hword).trimLeft
  rcases hrest.head_cases (c := ':') (by decide) with ⟨hx, hy⟩ | ⟨r, r', hx, hy, hr⟩
  · rw [ofFragment?_of_ne hx, ofFragment?_of_ne hy]
  · have htype : typeText r' = typeText r := by rw [typeText, typeText, hr.collapse_eq]
    rw [ofFragment?_of_colon hx, ofFragment?_of_colon hy, hname, htype]
    simp only [hr.eq_nil_iff]

theorem ofList_padded (h : Padded f b t t') : ofList t' = ofList t := by
  have hps := forall₂_piecesFrom h 0
  rw [ofList_eq, ofList_eq]
  generalize piecesFrom 0 t = ps, piecesFrom 0 t' = ps' at hps
  induction hps with
  | nil => rfl
  | cons hp _ ih => rw [List.filterMap_cons, List.filterMap_cons, ofFragment?_padded hp, ih]

end Parameter

namespace Signature

theorem returnTypeIn_of_ne (ht : ∀ r, trimLeft t ≠ ':' :: r) : returnTypeIn t = noReturnType := by
  unfold returnTypeIn
  split
  · rename_i hr
    exact absurd hr (ht _)
  · rfl

theorem returnTypeIn_congr {r r' : Text} (ht : trimLeft t = ':' :: r)
    (ht' : trimLeft t' = ':' :: r')
    (hr : collapse (r'.takeWhile (· ≠ '{')) = collapse (r.takeWhile (· ≠ '{'))) :
    returnTypeIn t' = returnTypeIn t := by
  simp only [returnTypeIn, ht, ht', hr]

theorem returnTypeIn_padded (h : Padded f b t t') : returnTypeIn t' = returnTypeIn t := by
  have hbrace := decide_ne_of_isBlank (c := '{') (by decide)
  rcases h.trimLeft.head_cases (c := ':') (by decide) with ⟨hx, hy⟩ | ⟨r, r', hx, hy, hr⟩
  · rw [returnTypeIn_of_ne hx, returnTypeIn_of_ne hy]
  · exact returnTypeIn_congr hx hy (Padded.takeWhile_of_blank hbrace hr).collapse_eq

theorem returnTypeIn_append {v : Text} (hv : blank v = true) (t : Text) :
    returnTypeIn (t ++ v) = returnTypeIn t := by
  have hbrace := decide_ne_of_isBlank (c := '{') (by decide)
  cases ht : blank t with
  | true =>
    have hl : trimLeft (t ++ v) = trimLeft t := by
      rw [trimLeft_eq_nil_iff.mpr ht, trimLeft_eq_nil_iff.mpr (by simp [ht, hv])]
    rw [returnTypeIn, returnTypeIn, hl]
  | false =>
    have hne : trimLeft t ≠ [] := by simp [trimLeft_eq_nil_iff, ht]
    obtain ⟨c, r, hr⟩ := List.exists_cons_of_ne_nil hne
    have hrv : trimLeft (t ++ v) = c :: (r ++ v) := by
      rw [trimLeft_append ht, hr]
      rfl
    by_cases hc : c = ':'
    · subst hc
      refine returnTypeIn_congr hr hrv (collapse_congr ?_)
      have hall : v.takeWhile (fun c => decide (c ≠ '{')) = v :=
        List.takeWhile_eq_self_iff.mpr fun c hc => hbrace c (blank_iff.mp hv c hc)
      rw [List.takeWhile_append]
      split
      · rename_i hlen
        rw [hall, words_append_blank hv, (List.takeWhile_sublist _).eq_of_length hlen]
      · rfl
    · have ne_of : ∀ {t r : Text}, trimLeft t = c :: r → returnTypeIn t = noReturnType := by
        intro t r hr
        apply returnTypeIn_of_ne
        intro r' hr'
        rw [hr] at hr'
        exact hc (List.cons.inj hr').1
      rw [ne_of hr, ne_of hrv]

theorem ofText_padded {u v : Text} (hu : f.Run u) (hv : b.Run v) (h : Padded f b t t')
    (heading : Heading) (line : Int) :
    ofText heading line (u ++ (t' ++ v)) = ofText heading line t := by
  rw [ofText, ofText, Paren.enclosed?_framed hu.blank hv.blank]
  rcases rel_cases (Paren.rel_enclosed? h) with
    ⟨hx, hy⟩ | ⟨⟨inside, after⟩, ⟨inside', after'⟩, hx, hy, hi, ha⟩
  · rw [hx, hy]
    rfl
  · simp only [hx, hy, Option.map_some, Prod.map_apply, id_eq, Parameter.ofList_padded hi,
      returnTypeIn_append hv.blank, returnTypeIn_padded ha]

theorem Progress.read_of_not_mem {s : Progress} {u : Text} (ho : '(' ∉ u) (hc : ')' ∉ u) :
    s.read u = s := by
  induction u with
  | nil => rfl
  | cons c u ih =>
    simp only [List.mem_cons, not_or] at ho hc
    rw [Progress.read, List.foldl_cons, Progress.step, if_neg (Ne.symm ho.1),
      if_neg (Ne.symm hc.1)]
    exact ih ho.2 hc.2

theorem Progress.read_padded (h : PaddedLine f b l l') (s : Progress) : s.read l' = s.read l := by
  obtain ⟨u, v, hu, hv, rfl⟩ := h
  rw [Progress.read_append, Progress.read_append,
    Progress.read_of_not_mem (hu.not_mem (by decide)) (hu.not_mem (by decide)),
    Progress.read_of_not_mem (hv.not_mem (by decide)) (hv.not_mem (by decide))]

theorem forall₂_span {ls ls' : List Text} (h : List.Forall₂ (PaddedLine f b) ls ls')
    (s : Progress) : List.Forall₂ (PaddedLine f b) (span s ls) (span s ls') := by
  induction h generalizing s with
  | nil => exact .nil
  | @cons l l' ls ls' hl hls ih =>
    have hends : ∀ s : Progress, s.endsAt l' = s.endsAt l := by
      intro s
      simp only [Progress.endsAt, hl.mem_iff (c := ':') (by decide),
        hl.mem_iff (c := '{') (by decide)]
    rw [span, span, Progress.read_padded hl, hends]
    split
    · exact .cons hl .nil
    · exact .cons hl (ih _)

theorem ofText_span_padded {ls ls' : List Text} (h : List.Forall₂ (PaddedLine f b) ls ls')
    (heading : Heading) (line : Int) :
    ofText heading line (unlines (span .start ls')) =
      ofText heading line (unlines (span .start ls)) := by
  obtain ⟨u, t, v, hu, hv, he, ht⟩ := exists_padded_unlines (forall₂_span h .start)
  rw [he, ofText_padded hu hv ht]

end Signature

/-! ## Blocks -/

namespace DocBlock

variable {above above' : List Text}

theorem opensDoc_padded (h : PaddedLine f b l l') : opensDoc l' = opensDoc l := by
  rw [opensDoc, opensDoc, h.trim_eq]

theorem opensComment_padded (h : PaddedLine f b l l') : opensComment l' = opensComment l := by
  rw [opensComment, opensComment, h.trim_eq]

theorem closesComment_padded (h : PaddedLine f b l l') : closesComment l' = closesComment l := by
  rw [closesComment, closesComment, h.trim_eq]

theorem rel_climb (h : List.Forall₂ (PaddedLine f b) above above') :
    Option.Rel (List.Forall₂ (PaddedLine f b)) (climb above) (climb above') := by
  induction h with
  | nil => exact .none
  | cons hl hls ih =>
    rw [climb, climb, opensDoc_padded hl, opensComment_padded hl, declares_padded hl]
    split
    · exact .some (.cons hl .nil)
    · split
      · exact .none
      · rcases rel_cases ih with ⟨hx, hy⟩ | ⟨ls, ls', hx, hy, hls⟩
        · rw [hx, hy]
          exact .none
        · rw [hx, hy]
          exact .some (List.rel_append hls (.cons hl .nil))

theorem forall₂_dropWhile_blank (h : List.Forall₂ (PaddedLine f b) above above') :
    List.Forall₂ (PaddedLine f b) (above.dropWhile blank) (above'.dropWhile blank) := by
  induction h with
  | nil => exact .nil
  | cons hl hls ih =>
    rw [List.dropWhile_cons, List.dropWhile_cons, hl.blank_eq]
    split
    · exact ih
    · exact .cons hl hls

theorem length_takeWhile_blank (h : List.Forall₂ (PaddedLine f b) above above') :
    (above'.takeWhile blank).length = (above.takeWhile blank).length := by
  induction h with
  | nil => rfl
  | cons hl hls ih =>
    rw [List.takeWhile_cons, List.takeWhile_cons, hl.blank_eq]
    split
    · rw [List.length_cons, List.length_cons, ih]
    · rfl

theorem rel_above? (h : List.Forall₂ (PaddedLine f b) above above') :
    Option.Rel (fun x y => List.Forall₂ (PaddedLine f b) x.lines y.lines ∧ y.gap = x.gap)
      (above? above) (above? above') := by
  have hgap := length_takeWhile_blank h
  have hdrop := forall₂_dropWhile_blank h
  rw [above?, above?, hgap]
  generalize above.dropWhile blank = as, above'.dropWhile blank = as' at hdrop
  cases hdrop with
  | nil => exact .none
  | cons hl hls =>
    simp only [closesComment_padded hl]
    split
    · rcases rel_cases (rel_climb (.cons hl hls)) with ⟨hx, hy⟩ | ⟨ls, ls', hx, hy, hls⟩
      · rw [hx, hy]
        exact .none
      · rw [hx, hy]
        exact .some ⟨hls, rfl⟩
    · exact .none

theorem alike_text {x y : DocBlock} (h : List.Forall₂ (PaddedLine .pads b) x.lines y.lines) :
    Doc.Alike (Doc.ofComment x.text) (Doc.ofComment y.text) := by
  obtain ⟨u, t, v, hu, hv, he, ht⟩ := exists_padded_unlines h
  rw [text, text, he, trim_blank_append hu.blank, trim_append_blank hv.blank]
  exact Doc.alike_ofComment ht.trim

end DocBlock

/-! ## Records -/

namespace Record

variable {above above' below below' : List Text}

/-- Whether two records are the same but for the text of their comments and for blanks inside
documented types. -/
structure Alike (r r' : Record) : Prop where
  signature : r'.signature = r.signature
  documented : r'.documented = r.documented
  firstLine : r'.firstLine = r.firstLine
  lastLine : r'.lastLine = r.lastLine
  doc : Doc.Alike r.doc r'.doc

theorem alike_ofHeading (heading : Heading)
    (habove : List.Forall₂ (PaddedLine .pads b) above above')
    (hbelow : List.Forall₂ (PaddedLine .pads b) below below') :
    Alike (ofHeading heading above below) (ofHeading heading above' below') := by
  have hlen := habove.length_eq
  have hsig := Signature.ofText_span_padded hbelow heading (above.length + 1)
  rcases rel_cases (DocBlock.rel_above? habove) with ⟨hx, hy⟩ | ⟨x, y, hx, hy, hls, hgap⟩
  · rw [ofHeading, ofHeading, hx, hy, ← hlen]
    exact ⟨hsig, rfl, rfl, rfl, ⟨rfl, rfl, rfl, rfl, .nil, .nil, .none⟩⟩
  · rw [ofHeading, ofHeading, hx, hy, ← hlen]
    refine ⟨hsig, rfl, ?_, ?_, DocBlock.alike_text hls⟩
    · simp only [hgap, hls.length_eq]
    · simp only [hgap]

theorem alike_ofLines (habove : List.Forall₂ (PaddedLine .pads b) above above')
    (hbelow : List.Forall₂ (PaddedLine .pads b) below below') :
    List.Forall₂ Alike (ofLines above below) (ofLines above' below') := by
  induction hbelow generalizing above above' with
  | nil => exact .nil
  | cons hl hls ih =>
    have later := ih (.cons hl habove)
    rw [ofLines, ofLines, Heading.ofLine?_padded hl]
    split
    · exact .cons (alike_ofHeading _ habove (.cons hl hls)) later
    · exact later

theorem alike_ofSource {source : Text} {ls : List Text}
    (h : List.Forall₂ (PaddedLine .pads b) (lines source) ls) :
    List.Forall₂ Alike (ofSource source) (ofSource (unlines ls)) := by
  have hne : ls ≠ [] := by
    rintro rfl
    exact List.splitOn_ne_nil '\n' source (List.forall₂_nil_right_iff.mp h)
  have hnl := PaddedLine.forall_newline_not_mem h fun _ => newline_not_mem_of_mem_lines
  rw [ofSource, ofSource, lines_unlines hne hnl]
  exact alike_ofLines .nil h

end Record

end CircuitDocs

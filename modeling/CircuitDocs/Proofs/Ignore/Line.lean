import CircuitDocs.Proofs.Ignore.Segment
import CircuitDocs.Proofs.Text.Blank

/-! # Lines written for the root

A line of a directory below the root is put behind the names of the directory. Its pattern then
asks for these names and, below them, for what the line asks for with a slash in front of it.
-/

namespace CircuitDocs.Ignore

open Text

variable {line r u : Text} {c : Char}

/-! ## Blanks at the end -/

theorem suffix_append_iff (hr : blank r = false) (u : Text) :
    "\\ ".toList <:+ u ++ r ↔ "\\ ".toList <:+ r := by
  refine ⟨fun h => ?_, fun h => h.trans (List.suffix_append u r)⟩
  -- A space at the very end leaves room for the backslash, since the rest is not blank.
  rcases Nat.lt_or_ge r.length 2 with hlen | hlen
  · obtain ⟨v, hv⟩ := h
    match r, hlen with
    | [], _ => simp at hr
    | [c], _ =>
      have hlast := congrArg List.getLast? hv
      obtain rfl : ' ' = c := by simpa using hlast
      exact absurd hr (by decide)
  · exact List.suffix_of_suffix_length_le h (List.suffix_append u r) hlen

theorem trimmed_append (hr : blank r = false) (u : Text) : trimmed (u ++ r) = u ++ trimmed r := by
  rw [trimmed, trimmed]
  simp only [List.isSuffixOf_iff_suffix, suffix_append_iff hr u]
  split
  · rfl
  · exact trimRight_append hr

theorem trimmed_blank (hr : blank r = true) : trimmed r = [] := by
  have hn : ¬ "\\ ".toList <:+ r := by
    intro h
    have hb := blank_iff.mp hr '\\' (h.subset (by decide))
    exact absurd hb (by decide)
  rw [trimmed, if_neg (by rwa [List.isSuffixOf_iff_suffix]), trimRight_blank hr]

theorem trimmed_ne_nil (hr : blank r = false) : trimmed r ≠ [] := by
  unfold trimmed
  split
  · rintro rfl
    simp at hr
  · intro h
    have hb : blank (trimRight r) = true := by rw [h, blank_nil]
    rw [blank_trimRight, hr] at hb
    exact absurd hb (by decide)

theorem trimmed_isPrefix (r : Text) : trimmed r <+: r := by
  unfold trimmed
  split
  · exact List.prefix_refl r
  · exact List.rdropWhile_prefix isBlank r

theorem head?_trimmed (hr : blank r = false) : (trimmed r).head? = r.head? := by
  obtain ⟨c, t, ht⟩ := List.exists_cons_of_ne_nil (trimmed_ne_nil hr)
  obtain ⟨v, hv⟩ := trimmed_isPrefix r
  rw [ht] at hv
  rw [ht, ← hv]
  rfl

/-! ## The slash in front -/

def unanchored : Text → Text
  | '/' :: t => t
  | t => t

theorem eq_unanchored (line : Text) :
    line = '/' :: unanchored line ∨ line = unanchored line ∧ line.head? ≠ some '/' := by
  unfold unanchored
  split
  · exact Or.inl rfl
  · rename_i hne
    refine Or.inr ⟨rfl, fun h => ?_⟩
    obtain ⟨t, ht⟩ := List.head?_eq_some_iff.mp h
    exact hne t ht

/-- What a line asks for below its directory. -/
def core (line : Text) : Text := trimmed (unanchored line)

theorem not_blank_of_core (h : core line ≠ []) : blank (unanchored line) = false := by
  cases hb : blank (unanchored line) with
  | false => rfl
  | true => exact absurd (trimmed_blank hb) h

def segments (line : Text) : List Text := (core line).splitOn '/'

def directoryOnly (line : Text) : Bool := (segments line).getLast? = some []

theorem segments_ne_nil (line : Text) : segments line ≠ [] := List.splitOn_ne_nil '/' _

/-! ## From a shape to a pattern -/

/-- The pattern of a shape, or what follows from its fault. -/
def settled (line : Text) (ignores : Bool) :
    Except Glob.Fault Shape → Except Fault (Option Pattern)
  | .error .danglingEscape => .error (.invalid line)
  | .error .openBracket => .ok none
  | .ok shape => if shape.ordered then .ok (some ⟨ignores, shape⟩) else .error .badRange

theorem ofBody_eq {ignores : Bool} {body : Text} {s : List Text}
    (hs : normal (body.splitOn '/') = s) (hne : s ≠ []) :
    Pattern.ofBody line ignores body =
      settled line ignores (shapeOf ((body.splitOn '/').getLast? = some []) s) := by
  simp only [Pattern.ofBody, hs, List.isEmpty_iff, hne, if_false]
  unfold settled
  split <;> simp_all

theorem eq_some_of_settled_ok {ignores : Bool} {shape : Shape} {o : Option Pattern}
    (h : settled line ignores (.ok shape) = .ok o) : o = some ⟨ignores, shape⟩ := by
  simp only [settled] at h
  split at h
  · exact (Except.ok.inj h).symm
  · simp at h

theorem exists_shape_of_settled {ignores : Bool} {x : Except Glob.Fault Shape} {p : Pattern}
    (h : settled line ignores x = .ok (some p)) :
    ∃ shape, x = .ok shape ∧ p = ⟨ignores, shape⟩ := by
  cases x with
  | error fault => cases fault <;> simp [settled] at h
  | ok shape => exact ⟨shape, rfl, Option.some.inj (eq_some_of_settled_ok h)⟩

/-- A trimmed line that holds a pattern with the given segments. -/
structure Holds (t : Text) (segments : List Text) (directory : Bool) : Prop where
  not_remark : isRemark t = false
  not_negated : t.head? ≠ some '!'
  anchored_eq : anchored (t.splitOn '/') = segments
  directory_eq : decide ((t.splitOn '/').getLast? = some []) = directory

theorem Holds.ofLine_eq {s : List Text} {directory : Bool} (h : Holds (trimmed line) s directory)
    (hne : spread s ≠ []) :
    Pattern.ofLine line = settled line true (shapeOf directory (spread s)) := by
  have hbody : Pattern.ofLine line = Pattern.ofBody line true (trimmed line) := by
    rw [Pattern.ofLine, if_neg (by simp [h.not_remark])]
    split
    · rename_i heq
      exact absurd (by rw [heq]; rfl) h.not_negated
    · rfl
  rw [hbody, ofBody_eq (normal_eq _ ▸ h.anchored_eq ▸ rfl) hne, h.directory_eq]

/-! ## Lines below a directory -/

/-- Names of a directory that stand for themselves in front of a pattern. -/
structure IsBase (b : List Text) : Prop where
  ne_nil : b ≠ []
  plain : ∀ n ∈ b, Plain n
  unmarked : ∀ n ∈ b.head?, n.head? ≠ some '!' ∧ n.head? ≠ some '#'

variable {b : List Text}

theorem IsBase.entry (hb : IsBase b) : ∀ n ∈ b, IsEntryName n := fun n hn => (hb.plain n hn).entry

theorem IsBase.entry_append {p : List Text} (hb : IsBase b) (hp : ∀ n ∈ p, IsEntryName n) :
    ∀ n ∈ b ++ p, IsEntryName n := by
  intro n hn
  rcases List.mem_append.mp hn with hn | hn
  · exact hb.entry n hn
  · exact hp n hn

theorem IsBase.joined_append_eq_cons (hb : IsBase b) (t : Text) :
    ∃ c u, Path.joined b ++ t = c :: u ∧ c ≠ '/' ∧ c ≠ '!' ∧ c ≠ '#' := by
  obtain ⟨n, b, rfl⟩ := List.exists_cons_of_ne_nil hb.ne_nil
  have hn := hb.entry n (by simp)
  have hmark := hb.unmarked n (by simp)
  obtain ⟨c, m, rfl⟩ := List.exists_cons_of_ne_nil hn.ne_nil
  have hc : c ≠ '/' := by
    rintro rfl
    exact hn.slash_not_mem (by simp)
  have hmarks : c ≠ '!' ∧ c ≠ '#' := by simpa using hmark
  cases b with
  | nil => exact ⟨c, m ++ t, by simp, hc, hmarks⟩
  | cons k b =>
    exact ⟨c, m ++ '/' :: Path.joined (k :: b) ++ t, by simp [Path.joined_cons], hc, hmarks⟩

theorem splitOn_slash_cons (t : Text) : ('/' :: t).splitOn '/' = [] :: t.splitOn '/' :=
  List.splitOnP_append_cons [] t (by decide)

theorem anchored_eq_self {s : Text} {rest : List Text} (hs : s ≠ []) (hne : rest ≠ [])
    (hnil : rest ≠ [[]]) : anchored (s :: rest) = s :: rest := by
  unfold anchored
  split
  · exact absurd (List.cons.inj ‹_›).1 hs
  · exact absurd (List.cons.inj ‹_›).2 hne
  · exact absurd (List.cons.inj ‹_›).2 hnil
  · rfl

theorem rebase_eq_below {base : Text} (hbase : base ≠ []) (hf : isFixed line = false)
    (hn : line.head? ≠ some '!') : rebase base line = below base line := by
  unfold rebase
  rw [if_neg (by simp [hbase, hf])]
  split
  · exact absurd rfl hn
  · rfl

theorem below_slash {base t : Text} (ht : t ≠ []) :
    below base ('/' :: t) = '/' :: (base ++ '/' :: t) := by
  unfold below
  split
  · exact absurd (List.cons.inj ‹_›).2 ht
  · rename_i t' _ he
    rw [(List.cons.inj he).2]
    rfl
  · simp_all
  · simp_all

theorem below_of_head?_ne {base t : Text} (ht : t ≠ []) (hs : t.head? ≠ some '/') :
    below base t = base ++ '/' :: t := by
  unfold below
  split
  · exact absurd rfl hs
  · exact absurd rfl hs
  · exact absurd rfl ht
  · rfl

theorem holds_rebase (hb : IsBase b) (hf : isFixed line = false) (hn : line.head? ≠ some '!')
    (hc : core line ≠ []) :
    Holds (trimmed (rebase (Path.joined b) line)) (b ++ segments line) (directoryOnly line) := by
  have hr := not_blank_of_core hc
  have hne : unanchored line ≠ [] := by
    intro h
    rw [h] at hr
    exact absurd hr (by decide)
  have hsplit : (Path.joined b ++ '/' :: core line).splitOn '/' = b ++ segments line :=
    Path.splitOn_joined_append hb.ne_nil (fun n hn => (hb.entry n hn).slash_not_mem) (core line)
  have hlast : (b ++ segments line).getLast? = (segments line).getLast? :=
    List.getLast?_append_of_ne_nil b (segments_ne_nil line)
  rw [rebase_eq_below (Path.joined_ne_nil hb.ne_nil hb.entry) hf hn]
  rcases eq_unanchored line with h | ⟨h, hs⟩
  · have ht : trimmed (below (Path.joined b) line) =
        '/' :: (Path.joined b ++ '/' :: core line) := by
      rw [h, below_slash hne]
      simpa [core, ← h] using trimmed_append hr ('/' :: (Path.joined b ++ ['/']))
    rw [ht]
    refine ⟨by simp [isRemark], by simp, ?_, ?_⟩
    · rw [splitOn_slash_cons, hsplit]
      rfl
    · rw [splitOn_slash_cons, hsplit, List.getLast?_cons_of_ne_nil (by simp [hb.ne_nil]), hlast]
      rfl
  · have ht : trimmed (below (Path.joined b) line) = Path.joined b ++ '/' :: core line := by
      rw [h, below_of_head?_ne hne (h ▸ hs)]
      simpa [core, ← h] using trimmed_append hr (Path.joined b ++ ['/'])
    obtain ⟨c, u, hcu, hslash, hbang, hhash⟩ := hb.joined_append_eq_cons ('/' :: core line)
    rw [ht]
    refine ⟨by simp [hcu, isRemark, hslash, hhash], by simp [hcu, hbang], ?_, ?_⟩
    · rw [hsplit]
      obtain ⟨n, b, rfl⟩ := List.exists_cons_of_ne_nil hb.ne_nil
      refine anchored_eq_self (hb.entry n (by simp)).ne_nil (by simp [segments_ne_nil]) ?_
      intro he
      rcases List.append_eq_singleton_iff.mp he with ⟨-, he⟩ | ⟨-, he⟩
      · exact Path.splitOn_ne_singleton_nil hc he
      · exact segments_ne_nil line he
    · rw [hsplit, hlast]
      rfl

theorem head?_ne_hash (hf : isFixed line = false) : line.head? ≠ some '#' := by
  intro h
  obtain ⟨t, rfl⟩ := List.head?_eq_some_iff.mp h
  have hb : isBlank '#' = false := by decide
  simp [isFixed, trimLeft_cons hb] at hf

theorem holds_anchored (hf : isFixed line = false) (hn : line.head? ≠ some '!')
    (hc : core line ≠ []) (ha : '/' ∈ (trimmed line).dropLast) :
    Holds (trimmed line) (segments line) (directoryOnly line) := by
  have hr := not_blank_of_core hc
  rcases eq_unanchored line with h | ⟨h, hs⟩
  · have ht : trimmed line = '/' :: core line := by
      rw [h]
      simpa [core, ← h] using trimmed_append hr ['/']
    rw [ht]
    refine ⟨by simp [isRemark, hc], by simp, ?_, ?_⟩
    · rw [splitOn_slash_cons]
      rfl
    · rw [splitOn_slash_cons, List.getLast?_cons_of_ne_nil (List.splitOn_ne_nil '/' _)]
      rfl
  · have ht : trimmed line = core line := by rw [core, ← h]
    obtain ⟨c, t, hct⟩ := List.exists_cons_of_ne_nil hc
    have hhead : some c = line.head? := by
      rw [← head?_trimmed (h ▸ hr), ht, hct]
      rfl
    have hslash : c ≠ '/' := by
      rintro rfl
      exact hs hhead.symm
    have hbang : c ≠ '!' := by
      rintro rfl
      exact hn hhead.symm
    have hhash : c ≠ '#' := by
      rintro rfl
      exact head?_ne_hash hf hhead.symm
    rw [ht] at ha ⊢
    refine ⟨by simp [hct, isRemark, hslash, hhash], by simp [hct, hbang], ?_, rfl⟩
    obtain ⟨x, y, hxy, hx⟩ := List.eq_append_cons_of_mem ha
    obtain ⟨z, hz, hcore⟩ : ∃ z ≠ [], core line = x ++ '/' :: z := by
      refine ⟨y ++ [(core line).getLast hc], by simp, ?_⟩
      conv_lhs => rw [← List.dropLast_append_getLast hc, hxy]
      simp
    have hsplit := Path.splitOn_joined_append (p := [x]) (by simp) (by simpa using hx) z
    rw [Path.joined_singleton, ← hcore, List.singleton_append] at hsplit
    rw [segments, hsplit]
    refine anchored_eq_self ?_ (List.splitOn_ne_nil '/' z) (Path.splitOn_ne_singleton_nil hz)
    rintro rfl
    rw [hct] at hcore
    exact hslash (List.cons.inj hcore).1

/-- The pattern of a line behind the names of its directory. -/
theorem ofLine_rebase {s : Text} {rest : List Text} {above : Bool} (hb : IsBase b)
    (hf : isFixed line = false) (hn : line.head? ≠ some '!') (hc : core line ≠ [])
    (hseg : spread (segments line) = deepened above (s :: rest)) (hs : s ≠ deep) :
    Pattern.ofLine (rebase (Path.joined b) line) =
      settled (rebase (Path.joined b) line) true
        ((stepsFrom (directoryOnly line) false (s :: rest)).map fun (ss, e) =>
          .steps ((Path.joined b).map Step.literal ++ under above ss) e) := by
  have hspread : spread (b ++ segments line) = b ++ deepened above (s :: rest) := by
    rw [spread_append (fun n hn => (hb.plain n hn).ne_deep) (segments_ne_nil line), hseg]
  rw [(holds_rebase hb hf hn hc).ofLine_eq (by simp [hspread, hb.ne_nil]), hspread,
    shapeOf_append hb.ne_nil hb.plain hs]

theorem ofLine_rebase_deep (hb : IsBase b) (hf : isFixed line = false)
    (hn : line.head? ≠ some '!') (hc : core line ≠ []) (hseg : spread (segments line) = [deep]) :
    Pattern.ofLine (rebase (Path.joined b) line) =
      settled (rebase (Path.joined b) line) true
        (.ok (.steps ((Path.joined b).map Step.literal) (deepEnding (directoryOnly line)))) := by
  have hspread : spread (b ++ segments line) = b ++ [deep] := by
    rw [spread_append (fun n hn => (hb.plain n hn).ne_deep) (segments_ne_nil line), hseg]
  rw [(holds_rebase hb hf hn hc).ofLine_eq (by simp [hspread]), hspread,
    shapeOf_append_deep hb.ne_nil hb.plain]

theorem ofLine_anchored (hf : isFixed line = false) (hn : line.head? ≠ some '!')
    (hc : core line ≠ []) (ha : '/' ∈ (trimmed line).dropLast) :
    Pattern.ofLine line =
      settled line true (shapeOf (directoryOnly line) (spread (segments line))) :=
  (holds_anchored hf hn hc ha).ofLine_eq (spread_ne_nil (segments_ne_nil line))

end CircuitDocs.Ignore

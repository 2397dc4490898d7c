import CircuitDocs.Proofs.Text.Blank
import CircuitDocs.Circuit.Signature

/-! # Balanced text

A balanced text between a parenthesis and its match is passed over as a whole, both by the search
for the match and by the count that tells where a declaration ends.
-/

namespace CircuitDocs

open Text

namespace Paren

/-- Text in which every parenthesis has its partner. -/
inductive Balanced : Text → Prop where
  | nil : Balanced []
  | cons {c : Char} {w : Text} : c ≠ '(' → c ≠ ')' → Balanced w → Balanced (c :: w)
  | group {u v : Text} : Balanced u → Balanced v → Balanced ('(' :: (u ++ ')' :: v))

variable {u v w : Text}

theorem Balanced.append (hu : Balanced u) (hv : Balanced v) : Balanced (u ++ v) := by
  induction hu with
  | nil => exact hv
  | cons ho hc _ ih => exact .cons ho hc ih
  | group hu _ _ ih => simpa using Balanced.group hu ih

theorem Balanced.of_not_mem (ho : '(' ∉ w) (hc : ')' ∉ w) : Balanced w := by
  induction w with
  | nil => exact .nil
  | cons c w ih =>
    simp only [List.mem_cons, not_or] at ho hc
    exact .cons (Ne.symm ho.1) (Ne.symm hc.1) (ih ho.2 hc.2)

/-! ## The two sides of a match -/

def level (d : Int) (c : Char) : Int := if c = '(' then d + 1 else if c = ')' then d - 1 else d

/-- What stands before and behind the place where the depth falls to zero, starting at depth `d`. -/
def split? : Int → Text → Option (Text × Text)
  | _, [] => none
  | d, c :: t =>
    if c = ')' ∧ d = 1 then some ([], t)
    else (split? (level d c) t).map (Prod.map (c :: ·) id)

theorem close?_eq (d : Int) (t : Text) : close? d t = (split? d t).map (·.1.length) := by
  induction t generalizing d with
  | nil => rfl
  | cons c t ih =>
    have later : ∀ d : Int, (close? d t).map (· + 1) =
        ((split? d t).map (Prod.map (c :: ·) id)).map (·.1.length) := by
      intro d
      rw [ih, Option.map_map, Option.map_map]
      rfl
    rw [close?, split?, level]
    by_cases ho : c = '('
    · subst ho
      exact later (d + 1)
    · by_cases hc : c = ')'
      · subst hc
        by_cases hd : d = 1
        · subst hd
          rfl
        · simpa [hd] using later (d - 1)
      · simpa [ho, hc] using later d

theorem eq_append_of_split? {d : Int} {t : Text} (h : split? d t = some (u, v)) :
    t = u ++ ')' :: v := by
  induction t generalizing d u with
  | nil => simp [split?] at h
  | cons c t ih =>
    rw [split?] at h
    split at h
    · rename_i hc
      obtain ⟨rfl, rfl⟩ := Prod.mk.inj (Option.some.inj h)
      rw [hc.1]
      rfl
    · obtain ⟨⟨u', v'⟩, h', he⟩ := Option.map_eq_some_iff.mp h
      obtain ⟨rfl, rfl⟩ := Prod.mk.inj he
      rw [ih h']
      rfl

theorem split?_append_of_balanced (h : Balanced w) {d : Int} (hd : 1 ≤ d) (t : Text) :
    split? d (w ++ t) = (split? d t).map (Prod.map (w ++ ·) id) := by
  induction h generalizing d t with
  | nil => exact (congrFun Option.map_id _).symm
  | cons ho hc _ ih =>
    rw [List.cons_append, split?, if_neg fun h => hc h.1, level, if_neg ho, if_neg hc, ih hd,
      Option.map_map]
    rfl
  | @group u v _ _ ihu ihv =>
    have hin : level d '(' = d + 1 := rfl
    have hout : level (d + 1) ')' = d := by
      rw [level, if_neg (by decide), if_pos rfl]
      omega
    rw [List.cons_append, List.append_assoc, List.cons_append, split?, if_neg (by simp), hin,
      ihu (by omega), split?, if_neg (by omega), hout, ihv hd, Option.map_map, Option.map_map,
      Option.map_map]
    congr 1
    funext ⟨x, y⟩
    simp

theorem findIdx?_of_not_mem {head : Text} (hh : '(' ∉ head) (t : Text) :
    (head ++ '(' :: t).findIdx? (· = '(') = some head.length := by
  have hn : head.findIdx? (· = '(') = none := by
    rw [List.findIdx?_eq_none_iff]
    intro c hc
    refine decide_eq_false ?_
    rintro rfl
    exact hh hc
  rw [List.findIdx?_append, hn, List.findIdx?_cons]
  simp

theorem match?_append (head t : Text) :
    match? (head ++ '(' :: t) head.length =
      (split? 1 t).map (·.1.length + 1 + head.length) := by
  have hclose : close? 0 ('(' :: t) = (split? 1 t).map (·.1.length + 1) := by
    rw [close?, if_pos rfl, close?_eq, Option.map_map]
    rfl
  rw [match?, if_neg (by omega), Int.toNat_natCast, List.drop_left, hclose, Option.map_map]
  rfl

theorem take_drop_between (head u v : Text) (c d : Char) :
    ((head ++ c :: (u ++ d :: v)).take (u.length + 1 + head.length)).drop (head.length + 1) =
      u := by
  rw [show u.length + 1 + head.length = head.length + (u.length + 1) by omega,
    List.take_length_add_append, List.take_succ_cons, List.take_left, List.drop_append]
  simp

theorem take_drop_of_split? (head : Text) {t : Text} (h : split? 1 t = some (u, v)) :
    ((head ++ '(' :: t).take (u.length + 1 + head.length)).drop (head.length + 1) = u ∧
      (head ++ '(' :: t).drop (u.length + 1 + head.length + 1) = v := by
  obtain rfl := eq_append_of_split? h
  constructor
  · exact take_drop_between head u v '(' ')'
  · rw [show u.length + 1 + head.length + 1 = head.length + (u.length + 1 + 1) by omega,
      List.drop_length_add_append]
    simp

theorem enclosed?_of_not_mem {head : Text} (hh : '(' ∉ head) (t : Text) :
    enclosed? (head ++ '(' :: t) = split? 1 t := by
  rw [enclosed?, findIdx?_of_not_mem hh]
  simp only [match?_append, Option.map_map]
  cases hs : split? 1 t with
  | none => rfl
  | some p =>
    obtain ⟨hinside, hafter⟩ := take_drop_of_split? head hs
    simp only [Option.map_some, Function.comp_apply, hinside, hafter]

theorem enclosed?_eq_split? (t : Text) :
    enclosed? t = match t.dropWhile (· ≠ '(') with
      | _ :: r => split? 1 r
      | [] => none := by
  have ht := List.takeWhile_append_dropWhile (p := fun c => decide (c ≠ '(')) (l := t)
  have hmem : '(' ∉ t.takeWhile (fun c => decide (c ≠ '(')) :=
    fun h => absurd (List.mem_takeWhile_imp h) (by decide)
  cases hd : t.dropWhile (fun c => decide (c ≠ '(')) with
  | nil =>
    rw [hd, List.append_nil] at ht
    rw [ht] at hmem
    have hn : t.findIdx? (· = '(') = none := by
      rw [List.findIdx?_eq_none_iff]
      intro c hc
      refine decide_eq_false ?_
      rintro rfl
      exact hmem hc
    rw [enclosed?, hn]
  | cons c r =>
    have hc : c = '(' := by
      have hnot := List.head?_dropWhile_not (fun c => decide (c ≠ '(')) t
      rw [hd] at hnot
      simpa using hnot
    subst hc
    rw [← ht, hd]
    exact enclosed?_of_not_mem hmem r

theorem enclosed?_eq {head inside : Text} (hh : '(' ∉ head) (hi : Balanced inside) (after : Text) :
    enclosed? (head ++ '(' :: (inside ++ ')' :: after)) = some (inside, after) := by
  rw [enclosed?_of_not_mem hh, split?_append_of_balanced hi (by omega), split?, if_pos ⟨rfl, rfl⟩]
  simp

end Paren

namespace Signature

open Paren

variable {s : Progress} {w line : Text} {rest : List Text}

theorem Progress.read_append (u v : Text) : s.read (u ++ v) = (s.read u).read v :=
  List.foldl_append

theorem Progress.read_balanced (h : Balanced w) {s : Progress} (hs : 1 ≤ s.depth) :
    s.read w = s := by
  induction h generalizing s with
  | nil => rfl
  | cons ho hc _ ih =>
    rw [Progress.read, List.foldl_cons, Progress.step, if_neg ho, if_neg hc]
    exact ih hs
  | @group u v _ _ ihu ihv =>
    have hopen : s.step '(' = ⟨s.depth + 1, s.closed⟩ := rfl
    have hclose : Progress.step ⟨s.depth + 1, s.closed⟩ ')' = s := by
      simp only [Progress.step, Char.reduceEq, if_false, if_true]
      rw [show (decide (s.depth + 1 = 1)) = false by simpa using (by omega), Bool.or_false,
        show s.depth + 1 - 1 = s.depth by omega]
    rw [Progress.read, List.foldl_cons, hopen, ← Progress.read, Progress.read_append,
      ihu (by simp only; omega), Progress.read, List.foldl_cons, hclose]
    exact ihv hs

theorem Progress.closed_read (hs : s.closed = true) : (s.read w).closed = true := by
  induction w generalizing s with
  | nil => exact hs
  | cons c w ih =>
    rw [Progress.read, List.foldl_cons]
    refine ih ?_
    rw [Progress.step]
    split
    · exact hs
    · split
      · simp [hs]
      · exact hs

/-- The state between the first parenthesis and its match. -/
def Progress.inside : Progress := ⟨1, false⟩

theorem Progress.read_head {head : Text} (ho : '(' ∉ head) (hc : ')' ∉ head) :
    Progress.start.read (head ++ ['(']) = .inside := by
  have h : ∀ s : Progress, s.read head = s := by
    induction head with
    | nil => exact fun s => rfl
    | cons c head ih =>
      intro s
      simp only [List.mem_cons, not_or] at ho hc
      rw [Progress.read, List.foldl_cons, Progress.step, if_neg (Ne.symm ho.1),
        if_neg (Ne.symm hc.1)]
      exact ih ho.2 hc.2 s
  rw [Progress.read_append, h]
  rfl

theorem Progress.closed_read_close (after : Text) :
    (Progress.inside.read (')' :: after)).closed = true :=
  Progress.closed_read (s := ⟨0, true⟩) rfl

theorem span_of_endsAt (h : (s.read line).endsAt line = true) : span s (line :: rest) = [line] := by
  rw [span, if_pos h]

theorem span_inside {items : List Text} (hi : ∀ i ∈ items, Balanced i) (rest : List Text) :
    span .inside (items ++ rest) = items ++ span .inside rest := by
  induction items with
  | nil => rfl
  | cons i items ih =>
    rw [List.cons_append, span, Progress.read_balanced (hi i (by simp)) (by decide),
      ih fun i hi' => hi i (by simp [hi'])]
    rfl

end Signature

end CircuitDocs

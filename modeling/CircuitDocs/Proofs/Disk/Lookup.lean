import CircuitDocs.Disk.Basic

/-! # Where paths lead

A chain of links ends at something that is no link, and depends on the links alone. One more name
behind a path leads on from where the path leads.
-/

namespace CircuitDocs

namespace Listing

variable {l l' : Listing} {n m : Text}

theorem chase_of_ne_link (h : ∀ target, l.find? n ≠ some (.link target)) (fuel : Nat) :
    l.chase fuel n = if isLongName n then .error .tooLong else .ok n := by
  unfold chase
  split
  · rfl
  · split
    · exact absurd ‹_› (h _)
    · exact absurd ‹_› (h _)
    · rfl

theorem chase_congr (h : ∀ n target, l.find? n = some (.link target) ↔
    l'.find? n = some (.link target)) (fuel : Nat) (n : Text) :
    l.chase fuel n = l'.chase fuel n := by
  have hcases : ∀ n, (∃ target, l.find? n = some (.link target) ∧
      l'.find? n = some (.link target)) ∨ ∀ fuel, l.chase fuel n = l'.chase fuel n := by
    intro n
    by_cases hn : ∃ target, l.find? n = some (.link target)
    · obtain ⟨target, hn⟩ := hn
      exact Or.inl ⟨target, hn, (h n target).mp hn⟩
    · rw [not_exists] at hn
      refine Or.inr fun fuel => ?_
      rw [chase_of_ne_link hn, chase_of_ne_link fun target ht => hn target ((h n target).mpr ht)]
  induction fuel generalizing n with
  | zero =>
    rcases hcases n with ⟨target, hn, hn'⟩ | hn
    · rw [chase.eq_2 l n target hn, chase.eq_2 l' n target hn']
    · exact hn 0
  | succ fuel ih =>
    rcases hcases n with ⟨target, hn, hn'⟩ | hn
    · rw [chase.eq_1 l n target fuel hn, chase.eq_1 l' n target fuel hn', ih]
    · exact hn (fuel + 1)

theorem ne_link_of_chase {fuel : Nat} (h : l.chase fuel n = .ok m) (target : Text) :
    l.find? m ≠ some (.link target) := by
  fun_induction chase l fuel n with
  | case1 fuel n hlong => simp at h
  | case2 n hlong target' fuel hn ih => exact ih h
  | case3 n hlong target' hn => simp at h
  | case4 fuel n hlong hsucc hzero =>
    obtain rfl := Except.ok.inj h
    intro hn
    cases fuel with
    | zero => exact hzero target hn rfl
    | succ fuel => exact hsucc target fuel hn rfl

end Listing

namespace Disk

variable {d : Disk} {here : List Text} {p : Path}

def withRoot (d : Disk) (root : Listing) : Disk := { d with root }

theorem withRoot_trans {d' d'' : Disk} (h : d'.withRoot d.root = d)
    (h' : d''.withRoot d'.root = d') : d''.withRoot d.root = d :=
  calc
    d''.withRoot d.root = (d''.withRoot d'.root).withRoot d.root := rfl
    _ = d'.withRoot d.root := by rw [h']
    _ = d := h

theorem walk_concat {l entries : Listing} {here names folder : List Text} {n m : Text}
    (hw : walk l here names = .ok folder) (hf : l.at? folder = some (.folder entries))
    (hn : n ≠ dotDot) (hm : entries.follow n = .ok m)
    (hat : (l.at? (folder ++ [m])).isSome = true) :
    walk l here (names ++ [n]) = .ok (folder ++ [m]) := by
  induction names generalizing here with
  | nil =>
    rw [walk] at hw
    split at hw
    · obtain rfl := Except.ok.inj hw
      rw [List.nil_append, walk, hf]
      simp only [if_neg hn, hm]
      rw [walk, if_pos hat]
    · simp at hw
  | cons k names ih =>
    rw [List.cons_append]
    rw [walk] at hw ⊢
    split at hw
    · rename_i inner hin
      split at hw
      · rename_i hk
        rw [if_pos hk]
        exact ih hw
      · rename_i hk
        rw [if_neg hk]
        split at hw
        · exact ih hw
        · simp at hw
    · simp at hw
    · simp at hw

theorem hasNull_of_locate {node : Node} (h : d.locate p here = .ok node) :
    p.hasNull = false := by
  rw [Bool.eq_false_iff]
  intro hnull
  simp [locate, hnull] at h

end Disk

end CircuitDocs

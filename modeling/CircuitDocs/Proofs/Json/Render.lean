import CircuitDocs.Proofs.Json.Exact

/-! # Rendered values are documents

What is rendered is a document in ASCII that stands for the rendered value. Since a document stands
for one value only, different values are never rendered alike.
-/

namespace CircuitDocs.Json

variable {α : Type} {P : α → Text → Prop} {as : List α} {ts : List Text} {s e : Text} {n : Nat}

mutual

/-- The value that a reader of JSON sees. -/
def toValue : Json → Value
  | bool b => .bool b
  | int n => .number n
  | str t => .str t
  | arr items => .arr (toValues items)
  | obj fields => .obj (toFields fields)

def toValues : List Json → List Value
  | [] => []
  | item :: items => item.toValue :: toValues items

def toFields : List (Text × Json) → List (Text × Value)
  | [] => []
  | (key, value) :: fields => (key, value.toValue) :: toFields fields

end

theorem toValues_eq_map (items : List Json) : toValues items = items.map toValue := by
  induction items with
  | nil => rfl
  | cons item items ih => rw [toValues, ih, List.map_cons]

theorem toFields_eq_map (fields : List (Text × Json)) :
    toFields fields = fields.map fun (key, value) => (key, value.toValue) := by
  induction fields with
  | nil => rfl
  | cons field fields ih => rw [toFields, ih, List.map_cons]

def Ascii (t : Text) : Prop := ∀ c ∈ t, c.toNat < 0x80

instance (t : Text) : Decidable (Ascii t) := List.decidableBAll _ t

theorem ascii_append {t u : Text} : Ascii (t ++ u) ↔ Ascii t ∧ Ascii u := List.forall_mem_append

theorem ascii_cons {c : Char} {t : Text} : Ascii (c :: t) ↔ c.toNat < 0x80 ∧ Ascii t :=
  List.forall_mem_cons

/-! ## Numbers -/

theorem head?_toDigits (hn : 0 < n) : (Nat.toDigits 10 n).head? ≠ some '0' := by
  induction n using Nat.strongRecOn with
  | ind n ih =>
    by_cases hlt : n < 10
    · rw [Nat.toDigits_of_lt_base hlt]
      have hdigit : ∀ d < 10, 0 < d → d.digitChar ≠ '0' := by decide
      simpa using hdigit n hlt hn
    · rw [Nat.toDigits_of_base_le (by decide) (by omega), List.head?_append]
      have hhead := ih (n / 10) (by omega) (by omega)
      cases hdigits : Nat.toDigits 10 (n / 10) with
      | nil => exact absurd hdigits Nat.toDigits_ne_nil
      | cons d ds => simpa [hdigits] using hhead

theorem whole_toDigits (n : Nat) : Whole (Nat.toDigits 10 n) where
  ne_nil := Nat.toDigits_ne_nil
  all _ hc := Nat.isDigit_of_mem_toDigits (by decide) (by decide) hc
  unpadded h := by
    cases n with
    | zero => rfl
    | succ n => exact absurd h (head?_toDigits n.succ_pos)

theorem number_decimal (n : ℤ) : Number n (Text.decimal n) := by
  have hvalue : ∀ m : Nat, magnitude (Nat.toDigits 10 m) [] 0 = m := by
    intro m
    simp [magnitude, Nat.ofDigitChars_ten_toDigits]
  cases n with
  | ofNat m =>
    have h := Number.plus (whole_toDigits m) .absent .absent
    rw [hvalue, List.append_nil, List.append_nil] at h
    exact h
  | negSucc m =>
    have h := Number.minus (whole_toDigits (m + 1)) .absent .absent
    rw [hvalue, List.append_nil, List.append_nil] at h
    simpa [Text.decimal, Int.negSucc_eq] using h

theorem ascii_decimal (n : ℤ) : Ascii (Text.decimal n) := by
  have hdigits : ∀ m, Ascii (Nat.toDigits 10 m) := by
    intro m c hc
    have hdigit := Char.isDigit_iff_toNat.mp ((whole_toDigits m).all c hc)
    exact lt_of_le_of_lt hdigit.2 (by decide)
  cases n with
  | ofNat m => exact hdigits m
  | negSucc m => exact ascii_cons.mpr ⟨by decide, hdigits (m + 1)⟩

/-! ## Strings -/

theorem hex_succ (width n : Nat) :
    Quoted.hex (width + 2) n = Quoted.hex (width + 1) (n / 16) ++ [(n % 16).digitChar] := by
  unfold Quoted.hex
  by_cases hn : n < 16
  · rw [Nat.toDigits_of_lt_base hn, Nat.div_eq_of_lt hn, Nat.mod_eq_of_lt hn, Nat.toDigits_zero]
    simp [List.replicate_succ']
  · rw [Nat.toDigits_of_base_le (by decide) (by omega)]
    simp

theorem hex_four (hn : n < 0x10000) :
    Quoted.hex 4 n = [(n / 16 / 16 / 16).digitChar, (n / 16 / 16 % 16).digitChar,
      (n / 16 % 16).digitChar, (n % 16).digitChar] := by
  have hone : Quoted.hex 1 (n / 16 / 16 / 16) = [(n / 16 / 16 / 16).digitChar] := by
    rw [Quoted.hex, Nat.toDigits_of_lt_base (by omega)]
    rfl
  rw [hex_succ, hex_succ, hex_succ, hone]
  rfl

theorem hex4_hex (hn : n < 0x10000) : Hex4 n (Quoted.hex 4 n) := by
  have hdigit : ∀ d < 16, hexValue? d.digitChar = some d := by decide
  have h := Hex4.mk (hdigit (n / 16 / 16 / 16) (by omega)) (hdigit (n / 16 / 16 % 16) (by omega))
    (hdigit (n / 16 % 16) (by omega)) (hdigit (n % 16) (by omega))
  rw [hex_four hn]
  convert h using 1
  omega

theorem ascii_unit (hn : n < 0x10000) : Ascii (unit n) := by
  have hdigit : ∀ d < 16, d.digitChar.toNat < 0x80 := by decide
  rw [unit, hex_four hn, ascii_append]
  refine ⟨by decide, ?_⟩
  simp only [Ascii, List.forall_mem_cons]
  exact ⟨hdigit _ (by omega), hdigit _ (by omega), hdigit _ (by omega), hdigit _ (by omega), nofun⟩

theorem toNat_char (c : Char) :
    c.toNat < 0xD800 ∨ 0xE000 ≤ c.toNat ∧ c.toNat < 0x110000 := by
  have hvalid := c.valid
  have hval : c.val.toNat = c.toNat := rfl
  simp only [UInt32.isValidChar, Nat.isValidChar, hval] at hvalid
  omega

theorem isHigh_iff : isHigh n = true ↔ 0xD800 ≤ n ∧ n < 0xDC00 := by simp [isHigh]

theorem isLow_iff : isLow n = true ↔ 0xDC00 ≤ n ∧ n < 0xE000 := by simp [isLow]

theorem paired_units (hn : n < 0x100000) :
    isHigh (0xD800 + n / 0x400) = true ∧ isLow (0xDC00 + n % 0x400) = true ∧
      paired (0xD800 + n / 0x400) (0xDC00 + n % 0x400) = 0x10000 + n := by
  refine ⟨isHigh_iff.mpr (by omega), isLow_iff.mpr (by omega), ?_⟩
  unfold paired
  omega

/-- The ways in which a character is written: by a letter, as it is, as a unit or as a pair. -/
theorem escape_cases (c : Char) :
    (∃ l, (l, c) ∈ letters ∧ l.toNat < 0x80 ∧ escape c = ['\\', l]) ∨
    (c ≠ '\x22' ∧ c ≠ '\\' ∧ 0x20 ≤ c.toNat ∧ c.toNat < 0x7F ∧ escape c = [c]) ∨
    (c.toNat < 0x10000 ∧ escape c = unit c.toNat) ∨
    (∃ high low, isHigh high = true ∧ isLow low = true ∧ paired high low = c.toNat ∧
      escape c = unit high ++ unit low) := by
  by_cases hmem : c ∈ ['\x22', '\\', '\n', '\r', '\t', '\x08', '\x0c']
  · left
    simp only [List.mem_cons, List.not_mem_nil, or_false] at hmem
    rcases hmem with rfl | rfl | rfl | rfl | rfl | rfl | rfl
    all_goals exact ⟨_, by decide, by decide, rfl⟩
  · right
    simp only [List.mem_cons, List.not_mem_nil, or_false, not_or] at hmem
    obtain ⟨hquote, hslash, hn, hr, ht, hb, hf⟩ := hmem
    simp only [escape, hquote, hslash, hn, hr, ht, hb, hf, if_false, Bool.and_eq_true,
      decide_eq_true_eq]
    split
    · rename_i hplain
      exact .inl ⟨hquote, hslash, hplain.1, hplain.2, rfl⟩
    · split
      · exact .inr (.inl ⟨‹_›, rfl⟩)
      · have hc := toNat_char c
        obtain ⟨hhigh, hlow, hpaired⟩ := paired_units (n := c.toNat - 0x10000) (by omega)
        exact .inr (.inr ⟨_, _, hhigh, hlow, by omega, rfl⟩)

theorem lt_of_isHigh (h : isHigh n = true) : n < 0x10000 := (isHigh_iff.mp h).2.trans (by decide)

theorem lt_of_isLow (h : isLow n = true) : n < 0x10000 := (isLow_iff.mp h).2.trans (by decide)

theorem spelled_escape (c : Char) : Spelled c (escape c) := by
  obtain ⟨l, hl, -, he⟩ | ⟨hquote, hslash, hlow, -, he⟩ | ⟨hlt, he⟩ |
    ⟨high, low, hhigh, hlow, hpaired, he⟩ := escape_cases c
  · rw [he]
    exact .letter hl
  · rw [he]
    exact .plain hlow hquote hslash
  · -- A unit of a pair would be read together with what follows, but no character is one.
    have hc := toNat_char c
    have h := Spelled.unit (hex4_hex hlt) (by rw [← Bool.not_eq_true, isHigh_iff]; omega)
      (by rw [← Bool.not_eq_true, isLow_iff]; omega)
    rw [Char.ofNat_toNat] at h
    rw [he]
    exact h
  · have h := Spelled.pair (hex4_hex (lt_of_isHigh hhigh)) (hex4_hex (lt_of_isLow hlow)) hhigh hlow
    rw [hpaired, Char.ofNat_toNat] at h
    rw [he]
    exact h

theorem ascii_escape (c : Char) : Ascii (escape c) := by
  obtain ⟨l, -, hl, he⟩ | ⟨-, -, -, hlt, he⟩ | ⟨hlt, he⟩ |
    ⟨high, low, hhigh, hlow, -, he⟩ := escape_cases c
  · rw [he, ascii_cons, ascii_cons]
    exact ⟨by decide, hl, nofun⟩
  · rw [he, ascii_cons]
    exact ⟨by omega, nofun⟩
  · rw [he]
    exact ascii_unit hlt
  · rw [he, ascii_append]
    exact ⟨ascii_unit (lt_of_isHigh hhigh), ascii_unit (lt_of_isLow hlow)⟩

theorem spells_flatMap_escape (t : Text) : Spells t (t.flatMap escape) := by
  induction t with
  | nil => exact .nil
  | cons c t ih => exact .cons (spelled_escape c) ih

theorem ascii_quoted (t : Text) : Ascii (quoted t) := by
  have hescape : Ascii (t.flatMap escape) := by
    intro d hd
    obtain ⟨c, -, hd⟩ := List.mem_flatMap.mp hd
    exact ascii_escape c d hd
  rw [quoted, List.cons_append, ascii_cons, ascii_append]
  exact ⟨by decide, hescape, by decide⟩

/-! ## Lists -/

theorem mem_newline {c : Char} {level : Nat} (h : c ∈ newline level) : c = '\n' ∨ c = ' ' :=
  (List.mem_cons.mp h).imp_right List.eq_of_mem_replicate

theorem isSpace_newline (level : Nat) : IsSpace (newline level) := by
  intro c hc
  rcases mem_newline hc with rfl | rfl <;> rfl

theorem ascii_newline (level : Nat) : Ascii (newline level) := by
  intro c hc
  rcases mem_newline hc with rfl | rfl <;> decide

theorem listed_intercalate (hs : IsSpace s) (he : IsSpace e) (h : List.Forall₂ P as ts)
    (hne : ts ≠ []) : Listed P as (s ++ ((',' :: s).intercalate ts ++ e)) := by
  induction h with
  | nil => exact absurd rfl hne
  | @cons a t as ts ht hts ih =>
    cases hts with
    | nil => simpa using Listed.last hs ht he
    | cons ht' hts' =>
      have hnil : IsSpace [] := nofun
      simpa [List.intercalate_cons_cons] using Listed.cons hs ht hnil (ih (by simp))

theorem exists_listed_enclosed (left right : Char) (level : Nat) (h : List.Forall₂ P as ts) :
    ∃ t, enclosed left right level ts = left :: (t ++ [right]) ∧ Listed P as t := by
  cases ts with
  | nil =>
    cases h
    exact ⟨[], rfl, .nil nofun⟩
  | cons t ts =>
    refine ⟨_, ?_, listed_intercalate (isSpace_newline (level + 1)) (isSpace_newline level) h
      (by simp)⟩
    simp [enclosed]

theorem ascii_intercalate (hs : Ascii s) (h : ∀ t ∈ ts, Ascii t) : Ascii (s.intercalate ts) := by
  induction ts with
  | nil => nofun
  | cons t ts ih =>
    rw [List.forall_mem_cons] at h
    cases ts with
    | nil => simpa using h.1
    | cons u ts =>
      rw [List.intercalate_cons_cons, ascii_append, ascii_append]
      exact ⟨⟨h.1, hs⟩, ih h.2⟩

theorem ascii_enclosed {left right : Char} (level : Nat) (hleft : left.toNat < 0x80)
    (hright : right.toNat < 0x80) (h : ∀ t ∈ ts, Ascii t) :
    Ascii (enclosed left right level ts) := by
  cases ts with
  | nil => exact ascii_cons.mpr ⟨hleft, ascii_cons.mpr ⟨hright, nofun⟩⟩
  | cons t ts =>
    have hitems := ascii_intercalate (ascii_cons.mpr ⟨by decide, ascii_newline (level + 1)⟩ :
      Ascii (',' :: newline (level + 1))) h
    simp only [enclosed, List.cons_append, ascii_cons, ascii_append]
    exact ⟨hleft, ⟨⟨ascii_newline _, hitems⟩, ascii_newline _⟩, hright, nofun⟩

/-! ## Values -/

mutual

theorem written_renderAt (level : Nat) : ∀ j : Json, Written j.toValue (renderAt level j)
  | bool b => by
    rw [toValue, renderAt]
    exact .literal (by cases b <;> simp [literals])
  | int n => by
    rw [toValue, renderAt]
    exact .number (number_decimal n)
  | str t => by
    rw [toValue, renderAt, quoted, List.cons_append]
    exact .str (spells_flatMap_escape t)
  | arr items => by
    obtain ⟨t, ht, hlisted⟩ :=
      exists_listed_enclosed '[' ']' level (forall₂_renderItems (level + 1) items)
    rw [toValue, renderAt, ht]
    exact .arr hlisted
  | obj fields => by
    obtain ⟨t, ht, hlisted⟩ :=
      exists_listed_enclosed '\x7b' '\x7d' level (forall₂_renderFields (level + 1) fields)
    rw [toValue, renderAt, ht]
    exact .obj hlisted

theorem forall₂_renderItems (level : Nat) :
    ∀ items : List Json, List.Forall₂ Written (toValues items) (renderItems level items)
  | [] => .nil
  | item :: items => .cons (written_renderAt level item) (forall₂_renderItems level items)

theorem forall₂_renderFields (level : Nat) : ∀ fields : List (Text × Json),
    List.Forall₂ (Keyed Written) (toFields fields) (renderFields level fields)
  | [] => .nil
  | (key, value) :: fields => by
    have hspace : IsSpace [' '] := by simp [IsSpace, isSpace]
    have hkeyed := Keyed.mk (l := []) (spells_flatMap_escape key) nofun hspace
      (written_renderAt level value)
    refine .cons ?_ (forall₂_renderFields level fields)
    simpa [quoted] using hkeyed

end

mutual

theorem ascii_renderAt (level : Nat) : ∀ j : Json, Ascii (renderAt level j)
  | bool b => by cases b <;> simp [renderAt, Ascii]
  | int n => ascii_decimal n
  | str t => ascii_quoted t
  | arr items => ascii_enclosed level (by decide) (by decide) (ascii_renderItems (level + 1) items)
  | obj fields =>
    ascii_enclosed level (by decide) (by decide) (ascii_renderFields (level + 1) fields)

theorem ascii_renderItems (level : Nat) :
    ∀ items : List Json, ∀ t ∈ renderItems level items, Ascii t
  | [] => nofun
  | item :: items =>
    List.forall_mem_cons.mpr ⟨ascii_renderAt level item, ascii_renderItems level items⟩

theorem ascii_renderFields (level : Nat) :
    ∀ fields : List (Text × Json), ∀ t ∈ renderFields level fields, Ascii t
  | [] => nofun
  | (key, value) :: fields => by
    refine List.forall_mem_cons.mpr ⟨?_, ascii_renderFields level fields⟩
    rw [ascii_append, ascii_append]
    exact ⟨⟨ascii_quoted key, by decide⟩, ascii_renderAt level value⟩

end

theorem ascii_render (j : Json) : Ascii j.render := ascii_renderAt 0 j

theorem document_render (j : Json) : Document j.toValue j.render := by
  have h := Document.mk (l := []) (r := []) nofun (written_renderAt 0 j) nofun
  rw [List.nil_append, List.append_nil] at h
  exact h

theorem decode_render (j : Json) : decode j.render = some j.toValue :=
  decode_eq_some_iff.mpr (document_render j)

mutual

theorem toValue_inj : ∀ {j k : Json}, j.toValue = k.toValue → j = k
  | bool b, k, h => by cases k <;> simp_all [toValue]
  | int n, k, h => by cases k <;> simp_all [toValue]
  | str t, k, h => by cases k <;> simp_all [toValue]
  | arr items, k, h => by
    cases k with
    | arr items' => rw [toValues_inj (Value.arr.inj h)]
    | _ => simp [toValue] at h
  | obj fields, k, h => by
    cases k with
    | obj fields' => rw [toFields_inj (Value.obj.inj h)]
    | _ => simp [toValue] at h

theorem toValues_inj :
    ∀ {items items' : List Json}, toValues items = toValues items' → items = items'
  | [], items', h => by cases items' <;> simp_all [toValues]
  | item :: items, items', h => by
    cases items' with
    | nil => simp [toValues] at h
    | cons item' items' =>
      obtain ⟨hitem, hitems⟩ := List.cons.inj h
      rw [toValue_inj hitem, toValues_inj hitems]

theorem toFields_inj :
    ∀ {fields fields' : List (Text × Json)}, toFields fields = toFields fields' → fields = fields'
  | [], fields', h => by cases fields' <;> simp_all [toFields]
  | (key, value) :: fields, fields', h => by
    cases fields' with
    | nil => simp [toFields] at h
    | cons field' fields' =>
      obtain ⟨hfield, hfields⟩ := List.cons.inj h
      obtain ⟨rfl, hvalue⟩ := Prod.mk.inj hfield
      rw [toValue_inj hvalue, toFields_inj hfields]

end

theorem render_injective : Function.Injective render := by
  intro j k h
  have hk := document_render k
  rw [← h] at hk
  exact toValue_inj ((document_render j).unique hk)

end CircuitDocs.Json

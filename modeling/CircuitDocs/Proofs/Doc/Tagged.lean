import CircuitDocs.Proofs.Circuit.Heading
import CircuitDocs.Doc.Entry

/-! # Tagged entries

An entry apart from its layout is a mark and a list of words. This module says what a sequence of
entries documents: every parameter and every failure, and of each other mark the first entry alone.
Only a remarks section runs on, into the remarks entries that follow it without a gap.
-/

namespace CircuitDocs

open Text

namespace Doc

/-! ## Marks -/

theorem word_remarks : Tag.remarks.word = "remarks".toList := rfl

inductive Mark where
  | tag (tag : Tag)
  | param (type name : Text)
  | throws (type : Text)
  | returns (type : Text)
deriving DecidableEq, Repr

structure IsBraced (type : Text) : Prop where
  trimmed : trim type = type
  no_brace : '}' ∉ type
  no_at : '@' ∉ type
  no_newline : '\n' ∉ type

instance (type : Text) : Decidable (IsBraced type) :=
  decidable_of_iff (trim type = type ∧ '}' ∉ type ∧ '@' ∉ type ∧ '\n' ∉ type)
    ⟨fun ⟨h₁, h₂, h₃, h₄⟩ => ⟨h₁, h₂, h₃, h₄⟩, fun ⟨h₁, h₂, h₃, h₄⟩ => ⟨h₁, h₂, h₃, h₄⟩⟩

namespace Mark

variable {m : Mark}

def word : Mark → Text
  | tag t => t.word
  | param type name => "param \x7b".toList ++ (type ++ ("\x7d ".toList ++ (name ++ " -".toList)))
  | throws type => "throws \x7b".toList ++ (type ++ ['}'])
  | returns type => "returns \x7b".toList ++ (type ++ "\x7d -".toList)

def text (m : Mark) : Text := '@' :: m.word

def WellFormed : Mark → Prop
  | tag _ => True
  | param type name => IsBraced type ∧ type ≠ [] ∧ IsName name
  | throws type => IsBraced type ∧ type ≠ []
  | returns type => IsBraced type

instance : (m : Mark) → Decidable m.WellFormed
  | tag _ => inferInstanceAs (Decidable True)
  | param type name => inferInstanceAs (Decidable (IsBraced type ∧ type ≠ [] ∧ IsName name))
  | throws type => inferInstanceAs (Decidable (IsBraced type ∧ type ≠ []))
  | returns type => inferInstanceAs (Decidable (IsBraced type))

theorem word_tag (t : Tag) : (tag t).word = t.word := rfl

theorem word_param (type name : Text) :
    (param type name).word =
      "param \x7b".toList ++ (type ++ ("\x7d ".toList ++ (name ++ " -".toList))) := rfl

theorem word_throws (type : Text) :
    (throws type).word = "throws \x7b".toList ++ (type ++ ['}']) := rfl

theorem word_returns (type : Text) :
    (returns type).word = "returns \x7b".toList ++ (type ++ "\x7d -".toList) := rfl

theorem not_mem_word (hm : m.WellFormed) : '@' ∉ m.word ∧ '\n' ∉ m.word := by
  cases m with
  | tag t => cases t <;> decide
  | param type name =>
    obtain ⟨ht, -, hn⟩ := hm
    have h₁ : '@' ∉ name := fun h => absurd (hn.all _ h) (by decide)
    have h₂ : '\n' ∉ name := fun h => absurd (hn.all _ h) (by decide)
    simp [word_param, ht.no_at, ht.no_newline, h₁, h₂]
  | throws type =>
    obtain ⟨ht, -⟩ := hm
    simp [word_throws, ht.no_at, ht.no_newline]
  | returns type => simp [word_returns, hm.no_at, hm.no_newline]

theorem exists_text_eq_concat (m : Mark) : ∃ u c, m.text = u ++ [c] ∧ isBlank c = false := by
  cases m with
  | tag t =>
    cases t with
    | title => exact ⟨"@titl".toList, 'e', rfl, by decide⟩
    | description => exact ⟨"@descriptio".toList, 'n', rfl, by decide⟩
    | remarks => exact ⟨"@remark".toList, 's', rfl, by decide⟩
    | circuitInfo => exact ⟨"@circuitInf".toList, 'o', rfl, by decide⟩
  | param type name =>
    exact ⟨"@param \x7b".toList ++ (type ++ ("\x7d ".toList ++ (name ++ [' ']))), '-',
      by simp [text, word_param], by decide⟩
  | throws type =>
    exact ⟨"@throws \x7b".toList ++ type, '}', by simp [text, word_throws], by decide⟩
  | returns type =>
    exact ⟨"@returns \x7b".toList ++ (type ++ "\x7d ".toList), '-',
      by simp [text, word_returns], by decide⟩

end Mark

/-! ## Entries -/

/-- An entry apart from its layout. It stands apart if a blank line comes after it. -/
structure Tagged where
  mark : Mark
  words : List Text
  apart : Bool
deriving DecidableEq, Repr

namespace Tagged

def prose (e : Tagged) : Text := [' '].intercalate e.words

def param? (e : Tagged) : Option Param :=
  match e.mark with
  | .param type name => some ⟨name, type, e.prose⟩
  | _ => none

def throws? (e : Tagged) : Option Throws :=
  match e.mark with
  | .throws type => some ⟨type, e.prose⟩
  | _ => none

/-- The words of the section that an entry begins, when other entries follow. -/
def sectionWords (tag : Tag) (e : Tagged) : List Tagged → List Text
  | [] => e.words
  | e' :: es =>
    if tag = .remarks ∧ e.apart = false ∧ e'.mark = .tag .remarks then
      e.words ++ "@remarks".toList :: sectionWords tag e' es
    else e.words

def joined? (ws : List Text) : Option Text := if ws = [] then none else some ([' '].intercalate ws)

def value? (tag : Tag) : List Tagged → Option Text
  | [] => none
  | e :: es => if e.mark = .tag tag then joined? (sectionWords tag e es) else value? tag es

def returns? : List Tagged → Option Returns
  | [] => none
  | e :: es =>
    match e.mark with
    | .returns type => if type = [] ∧ e.words = [] then none else some ⟨type, e.prose⟩
    | _ => returns? es

def doc (es : List Tagged) : Doc where
  title := value? .title es
  description := value? .description es
  remarks := value? .remarks es
  circuitInfo := value? .circuitInfo es
  params := es.filterMap param?
  throws := es.filterMap throws?
  returns := returns? es

end Tagged

end Doc

end CircuitDocs

import SidecarIndex.Text.Alphabetic
import SidecarIndex.Text.Numeral

/-! # Names and literals

An attribute name is a letter or an underscore followed by word characters: letters, numerals and
underscores of any script. A value literal is one or more of a few ASCII characters, with a `#` in
front where it stands for a timestamp. -/

namespace SidecarIndex

inductive LexicalFault where
  | empty
  | start (found : Char)
  | character (found : Char)
  deriving DecidableEq

namespace LexicalFault

def message : LexicalFault → String
  | empty => "cannot be empty"
  | start found => s!"must start with a letter or underscore, found '{found}'"
  | character found => s!"contains invalid character '{found}'"

end LexicalFault

def isNameStart (c : Char) : Bool := Text.isAlphabetic c || c == '_'

/-- A character that may stand in a name after the first. -/
def isNameChar (c : Char) : Bool := Text.isAlphabetic c || Text.isNumeral c || c == '_'

def isLiteralChar (c : Char) : Bool :=
  c.isAlphanum || c == '_' || c == '+' || c == '-' || c == ':' || c == '.' || c == '@'

theorem isNameChar_of_isNameStart {c : Char} (h : isNameStart c = true) : isNameChar c = true := by
  simp only [isNameStart, isNameChar, Bool.or_eq_true] at h ⊢
  exact h.imp .inl id

def nameFault? : List Char → Option LexicalFault
  | [] => some .empty
  | c :: rest =>
    if isNameStart c then (rest.find? fun d => !isNameChar d).map .character
    else some (.start c)

def isName (s : List Char) : Bool := (nameFault? s).isNone

/-- A text without the `#` in front of it. -/
def dropMark : List Char → List Char
  | '#' :: s => s
  | s => s

theorem dropMark_of_head {s : List Char} (h : s.head? ≠ some '#') : dropMark s = s := by
  unfold dropMark
  split
  · exact absurd rfl h
  · rfl

def literalFault? (s : List Char) : Option LexicalFault :=
  match dropMark s with
  | [] => some .empty
  | body => (body.find? fun c => !isLiteralChar c).map .character

def isLiteral (s : List Char) : Bool := (literalFault? s).isNone

/-- Whether a text is a value literal without the mark of a timestamp. -/
def isPlainLiteral (s : List Char) : Bool := s.head? != some '#' && isLiteral s

theorem isName_iff (s : List Char) :
    isName s = true ↔ ∃ c rest, s = c :: rest ∧ isNameStart c ∧ ∀ d ∈ rest, isNameChar d := by
  cases s with
  | nil => simp [isName, nameFault?]
  | cons c rest =>
    by_cases h : isNameStart c
    · simp only [isName, nameFault?, h, if_true, Option.isNone_map, Option.isNone_iff_eq_none,
        List.find?_eq_none]
      constructor
      · intro hrest
        exact ⟨c, rest, rfl, h, fun d hd => by simpa using hrest d hd⟩
      · rintro ⟨_, _, heq, _, hrest⟩ d hd
        cases heq
        simpa using hrest d hd
    · simp only [isName, nameFault?, h]
      constructor
      · intro hnone
        cases hnone
      · rintro ⟨_, _, heq, hstart, _⟩
        cases heq
        exact absurd hstart h

theorem isLiteral_iff (s : List Char) :
    isLiteral s = true ↔ dropMark s ≠ [] ∧ ∀ c ∈ dropMark s, isLiteralChar c := by
  simp only [isLiteral, literalFault?]
  cases dropMark s <;> simp

end SidecarIndex

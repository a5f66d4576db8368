import SidecarIndex.Text.Scan

/-! # Keys and strings in TOML

What keys and strings are made of, and what stands between them: blanks, line ends and comments. -/

namespace SidecarIndex.Toml

def isBlankChar (c : Char) : Bool := c == ' ' || c == '\t'

def skipBlanks (s : List Char) : List Char := s.dropWhile isBlankChar

/-- Whether a character may stand in a comment or a string as it is: a tab, or no control
character. -/
def isPlain (c : Char) : Bool := c == '\t' || (0x20 ≤ c.toNat && c.toNat ≠ 0x7F)

def lineEnd? : List Char → Option (List Char)
  | '\n' :: rest => some rest
  | '\r' :: '\n' :: rest => some rest
  | _ => none

def skipComment : List Char → List Char
  | '#' :: rest => rest.dropWhile isPlain
  | s => s

/-- The text after blanks, comments and line ends, however many there are. -/
def skipLines : Nat → List Char → List Char
  | 0, s => s
  | fuel + 1, s =>
    let next := skipComment (skipBlanks s)
    match lineEnd? next with
    | some rest => skipLines fuel rest
    | none => next

def skipSpace (s : List Char) : List Char := skipLines (s.length + 1) s

def endLine? (s : List Char) : Option (List Char) :=
  let next := skipComment (skipBlanks s)
  if next.isEmpty then some [] else lineEnd? next

/-! ### Escapes -/

def coded? (count : Nat) (s : List Char) : Option (Char × List Char) := do
  if s.length < count then none
  let n ← Scan.valueIn? 16 (s.take count)
  if n.isValidChar then some (Char.ofNat n, s.drop count) else none

def escape? : List Char → Option (Char × List Char)
  | '"' :: rest => some ('"', rest)
  | '\\' :: rest => some ('\\', rest)
  | 'b' :: rest => some ('\x08', rest)
  | 'e' :: rest => some ('\x1b', rest)
  | 'f' :: rest => some ('\x0c', rest)
  | 'n' :: rest => some ('\n', rest)
  | 'r' :: rest => some ('\r', rest)
  | 't' :: rest => some ('\t', rest)
  | 'x' :: rest => coded? 2 rest
  | 'u' :: rest => coded? 4 rest
  | 'U' :: rest => coded? 8 rest
  | _ => none

theorem length_coded? {count : Nat} {s rest : List Char} {c : Char}
    (h : coded? count s = some (c, rest)) : rest.length ≤ s.length := by
  simp only [coded?] at h
  split at h
  · simp at h
  · cases hv : Scan.valueIn? 16 (s.take count) with
    | none => simp [hv] at h
    | some n =>
      simp only [hv, Option.bind_eq_bind, Option.bind_some] at h
      split at h
      · simp only [Option.some.injEq, Prod.mk.injEq] at h
        rw [← h.2, List.length_drop]
        omega
      · simp at h

theorem length_escape? {s rest : List Char} {c : Char} (h : escape? s = some (c, rest)) :
    rest.length ≤ s.length := by
  unfold escape? at h
  split at h
  all_goals
    first
    | exact Nat.le_succ_of_le (length_coded? h)
    | (simp only [Option.some.injEq, Prod.mk.injEq] at h; obtain ⟨-, rfl⟩ := h; simp)
    | simp at h

/-! ### Strings -/

def push (c : Char) (rest : Option (List Char × List Char)) : Option (List Char × List Char) :=
  rest.map fun r => (c :: r.1, r.2)

def basicString (s : List Char) : Option (List Char × List Char) :=
  match s with
  | [] => none
  | '"' :: rest => some ([], rest)
  | '\\' :: rest =>
    match _h : escape? rest with
    | some (c, rest') => push c (basicString rest')
    | none => none
  | c :: rest => if isPlain c then push c (basicString rest) else none
termination_by s.length
decreasing_by
  · have := length_escape? ‹_›
    simp only [List.length_cons]
    omega
  · simp

def literalString : List Char → Option (List Char × List Char)
  | [] => none
  | '\'' :: rest => some ([], rest)
  | c :: rest => if isPlain c then push c (literalString rest) else none

/-- What a string over several lines ends with after three quotes: up to two quotes more are its
last characters. -/
def closeLines (quote : Char) (rest : List Char) : List Char × List Char :=
  let more := (rest.take 2).takeWhile (· = quote)
  (more, rest.drop more.length)

def literalLines : List Char → Option (List Char × List Char)
  | [] => none
  | '\'' :: '\'' :: '\'' :: rest => some (closeLines '\'' rest)
  | '\r' :: '\n' :: rest => push '\r' (push '\n' (literalLines rest))
  | c :: rest => if isPlain c ∨ c = '\n' then push c (literalLines rest) else none

def isLineOver (s : List Char) : Bool := (lineEnd? (skipBlanks s)).isSome

/-- Reads a string over several lines, after its opening quotes. A backslash at the end of a line
takes away the line end with all blanks and line ends after it: `joining` says that it did so right
before. -/
def basicLines (joining : Bool) (s : List Char) : Option (List Char × List Char) :=
  match s with
  | [] => none
  | '"' :: '"' :: '"' :: rest => some (closeLines '"' rest)
  | '\\' :: rest =>
    if isLineOver rest then basicLines true rest
    else match _h : escape? rest with
      | some (c, rest') => push c (basicLines false rest')
      | none => none
  | '\r' :: '\n' :: rest =>
    if joining then basicLines true rest else push '\r' (push '\n' (basicLines false rest))
  | c :: rest =>
    if joining && (isBlankChar c || c == '\n') then basicLines true rest
    else if isPlain c ∨ c = '\n' then push c (basicLines false rest)
    else none
termination_by s.length
decreasing_by
  all_goals
    first
    | (have hle := length_escape? ‹_›; simp only [List.length_cons]; omega)
    | (simp only [List.length_cons]; omega)

def skipLineEnd (s : List Char) : List Char := (lineEnd? s).getD s

def string? : List Char → Option (String × List Char)
  | '"' :: '"' :: '"' :: rest => (basicLines false (skipLineEnd rest)).map fun r =>
    (String.ofList r.1, r.2)
  | '\'' :: '\'' :: '\'' :: rest => (literalLines (skipLineEnd rest)).map fun r =>
      (String.ofList r.1, r.2)
  | '"' :: rest => (basicString rest).map fun r => (String.ofList r.1, r.2)
  | '\'' :: rest => (literalString rest).map fun r => (String.ofList r.1, r.2)
  | _ => none

/-! ### Keys -/

def isKeyChar (c : Char) : Bool := c.isAlphanum || c == '_' || c == '-'

/-- Reads one step of a key: a string within a line, or letters, digits, underscores and hyphens. -/
def keyStep? : List Char → Option (String × List Char)
  | '"' :: rest => (basicString rest).map fun r => (String.ofList r.1, r.2)
  | '\'' :: rest => (literalString rest).map fun r => (String.ofList r.1, r.2)
  | s =>
    let run := s.takeWhile isKeyChar
    if run.isEmpty then none else some (String.ofList run, s.dropWhile isKeyChar)

/-- Reads a key: its steps have points between them. Every step takes a character, so the length of
the text is fuel enough. -/
def keySteps? : Nat → List Char → Option (List String × List Char)
  | 0, _ => none
  | fuel + 1, s => do
    let (step, rest) ← keyStep? (skipBlanks s)
    match Scan.accept? '.' (skipBlanks rest) with
    | some rest => do
      let (steps, rest) ← keySteps? fuel rest
      return (step :: steps, rest)
    | none => return ([step], skipBlanks rest)

def keyStepLimit : Nat := 80

def key? (s : List Char) : Option (List String × List Char) :=
  (keySteps? (s.length + 1) s).filter fun r => r.1.length ≤ keyStepLimit

end SidecarIndex.Toml

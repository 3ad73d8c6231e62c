import DocRef.Text

/-!
Strings of TOML documents. Basic strings stand in double quotes and have escapes, literal strings
stand in single quotes and have none; either may span lines between tripled quotes.
-/

namespace DocRef.Toml

def isSpace (c : Char) : Bool :=
  c = ' ' || c = '\t'

/-- Whether a character may stand as it is in comments and strings: no control character but the
tab. -/
def isPlain (c : Char) : Bool :=
  c = '\t' || (' ' ≤ c && c ≠ '\x7f')

def newline? : Text → Option Text
  | '\n' :: rest => some rest
  | '\r' :: '\n' :: rest => some rest
  | _ => none

def hexDigit? (c : Char) : Option Nat :=
  if '0' ≤ c ∧ c ≤ '9' then some (c.toNat - '0'.toNat)
  else if 'a' ≤ c ∧ c ≤ 'f' then some (c.toNat - 'a'.toNat + 10)
  else if 'A' ≤ c ∧ c ≤ 'F' then some (c.toNat - 'A'.toNat + 10)
  else none

/-- The character with the code point that hexadecimal digits write. -/
def codePoint? (digits : Text) : Option Char := do
  let values ← digits.mapM hexDigit?
  let code := values.foldl (fun sum value => 16 * sum + value) 0
  if code.isValidChar then some (Char.ofNat code) else none

/-- The character that an escape means, and what stands after it; the backslash has been read. -/
def escape? : Text → Option (Char × Text)
  | 'b' :: rest => some ('\x08', rest)
  | 't' :: rest => some ('\t', rest)
  | 'n' :: rest => some ('\n', rest)
  | 'f' :: rest => some ('\x0c', rest)
  | 'r' :: rest => some ('\r', rest)
  | '"' :: rest => some ('"', rest)
  | '\\' :: rest => some ('\\', rest)
  | 'u' :: rest =>
    if rest.length < 4 then none else (codePoint? (rest.take 4)).map (·, rest.drop 4)
  | 'U' :: rest =>
    if rest.length < 8 then none else (codePoint? (rest.take 8)).map (·, rest.drop 8)
  | _ => none

theorem escape?_length {text rest : Text} {c : Char} (h : escape? text = some (c, rest)) :
    rest.length < text.length := by
  unfold escape? at h
  split at h
  case h_8 | h_9 =>
    split at h
    · cases h
    · simp only [Option.map_eq_some_iff, Prod.mk.injEq] at h
      obtain ⟨_, _, _, rfl⟩ := h
      simp only [List.length_cons, List.length_drop]
      omega
  all_goals
    cases h
  all_goals simp

/-- The rest of a basic string on one line, and what stands after its closing quote. -/
def basicBody (text : Text) : Option (Text × Text) :=
  match text with
  | [] => none
  | '"' :: rest => some ([], rest)
  | '\\' :: rest =>
    match _escape : escape? rest with
    | some (c, rest) => do
      let (body, rest) ← basicBody rest
      return (c :: body, rest)
    | none => none
  | c :: rest =>
    if isPlain c then do
      let (body, rest) ← basicBody rest
      return (c :: body, rest)
    else none
termination_by text.length
decreasing_by
  · have := escape?_length _escape
    simp only [List.length_cons]
    omega
  · simp

/-- The rest of a literal string on one line, and what stands after its closing quote. -/
def literalBody : Text → Option (Text × Text)
  | [] => none
  | '\'' :: rest => some ([], rest)
  | c :: rest =>
    if isPlain c then do
      let (body, rest) ← literalBody rest
      return (c :: body, rest)
    else none

/-- The quotes at the end of a string over several lines: three close it, and one or two more right
before them belong to it. -/
def closingQuotes? (quote : Char) (text : Text) : Option (Text × Text) :=
  let run := (text.takeWhile (· = quote)).length
  if run < 3 then none
  else
    let inside := min run 5 - 3
    some (List.replicate inside quote, text.drop (inside + 3))

/-- Whether the line ends after a backslash and spaces, so that it is continued. -/
def continuesLine (text : Text) : Bool :=
  (newline? (text.dropWhile isSpace)).isSome

/-- The rest of a basic string over several lines. While `skipping`, line breaks and spaces are left
out, as they are after a backslash at the end of a line. -/
def basicLines (skipping : Bool) (text : Text) : Option (Text × Text) :=
  match text with
  | [] => none
  | c :: rest =>
    if skipping && (isSpace c || c = '\n') then basicLines true rest
    else if c = '\r' then
      match rest with
      | '\n' :: rest =>
        if skipping then basicLines true rest
        else do
          let (body, rest) ← basicLines false rest
          return ('\n' :: body, rest)
      | _ => none
    else if c = '\\' then
      if continuesLine rest then basicLines true rest
      else match _escape : escape? rest with
        | some (c, rest) => do
          let (body, rest) ← basicLines false rest
          return (c :: body, rest)
        | none => none
    else if c = '"' && (closingQuotes? '"' text).isSome then closingQuotes? '"' text
    else if isPlain c || c = '\n' then do
      let (body, rest) ← basicLines false rest
      return (c :: body, rest)
    else none
termination_by text.length
decreasing_by
  all_goals simp only [List.length_cons]
  case _ => omega
  case _ => omega
  case _ => omega
  case _ => omega
  case _ =>
    have := escape?_length _escape
    omega
  case _ => omega

/-- The rest of a literal string over several lines. -/
def literalLines (text : Text) : Option (Text × Text) :=
  match text with
  | [] => none
  | '\r' :: '\n' :: rest => do
    let (body, rest) ← literalLines rest
    return ('\n' :: body, rest)
  | c :: rest =>
    if c = '\'' && (closingQuotes? '\'' text).isSome then closingQuotes? '\'' text
    else if isPlain c || c = '\n' then do
      let (body, rest) ← literalLines rest
      return (c :: body, rest)
    else none
termination_by text.length

def lineString? : Text → Option (Text × Text)
  | '"' :: rest => basicBody rest
  | '\'' :: rest => literalBody rest
  | _ => none

def string? : Text → Option (Text × Text)
  | '"' :: '"' :: '"' :: rest => basicLines false ((newline? rest).getD rest)
  | '\'' :: '\'' :: '\'' :: rest => literalLines ((newline? rest).getD rest)
  | text => lineString? text

end DocRef.Toml

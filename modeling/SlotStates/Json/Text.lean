/-
SlotStates/Json/Text.lean

Reading strings.

A string goes on to the next quote that is not escaped.  Controls may not
stand in it.  A backslash starts an escape: one of eight letters, or `u` and
four hexadecimal digits that give a code unit of sixteen bits.  A leading
surrogate has to be followed by the escape of a trailing one, and the two
give one character; any other surrogate is refused.  Where fewer than four
bytes are left for the digits, the text counts as ended.
-/
import SlotStates.Json.Fault

namespace SlotStates.Json

/-- Four hexadecimal digits. -/
def codeUnit (cs : List Char) : Except Fault (Nat × List Char) :=
  if Text.byteLength (cs.take 4) < 4 then .error .unfinished
  else
    match cs with
    | a :: b :: c :: d :: rest =>
      match Hex.value? a, Hex.value? b, Hex.value? c, Hex.value? d with
      | some a, some b, some c, some d => .ok (((a * 16 + b) * 16 + c) * 16 + d, rest)
      | _, _, _, _ => .error .malformed
    | _ => .error .malformed

/-- The trailing surrogate after the leading surrogate `high`, and the
character of the two. -/
def surrogatePair (high : Nat) (cs : List Char) : Except Fault (Char × List Char) :=
  match cs with
  | [] => .error .unfinished
  | ['\\'] => .error .unfinished
  | '\\' :: 'u' :: rest => do
    let (low, rest) ← codeUnit rest
    if 0xdc00 ≤ low ∧ low ≤ 0xdfff then
      return (Char.ofNat (0x10000 + (high - 0xd800) * 0x400 + (low - 0xdc00)), rest)
    else .error .malformed
  | _ => .error .malformed

/-- The character written as `u` and digits. -/
def unicodeEscape (cs : List Char) : Except Fault (Char × List Char) := do
  let (n, rest) ← codeUnit cs
  if 0xdc00 ≤ n ∧ n ≤ 0xdfff then .error .malformed
  else if 0xd800 ≤ n ∧ n ≤ 0xdbff then surrogatePair n rest
  else return (Char.ofNat n, rest)

/-- The character that a letter stands for after a backslash. -/
def shortEscape? (c : Char) : Option Char :=
  match c with
  | '"' => some '"'
  | '\\' => some '\\'
  | '/' => some '/'
  | 'b' => some '\x08'
  | 'f' => some '\x0c'
  | 'n' => some '\n'
  | 'r' => some '\r'
  | 't' => some '\t'
  | _ => none

/-- The character of an escape, after its backslash. -/
def readEscape : List Char → Except Fault (Char × List Char)
  | [] => .error .unfinished
  | c :: rest =>
    if c = 'u' then unicodeEscape rest
    else
      match shortEscape? c with
      | some d => .ok (d, rest)
      | none => .error .malformed

/-! ### An escape takes something away -/

theorem codeUnit_length {cs rest : List Char} {n : Nat} (h : codeUnit cs = .ok (n, rest)) :
    rest.length < cs.length := by
  unfold codeUnit at h
  split at h
  · cases h
  · split at h
    · split at h
      · simp only [Except.ok.injEq, Prod.mk.injEq] at h
        rcases h with ⟨-, rfl⟩
        simp only [List.length_cons]; omega
      · cases h
    · cases h

theorem surrogatePair_length {high : Nat} {cs rest : List Char} {c : Char}
    (h : surrogatePair high cs = .ok (c, rest)) : rest.length < cs.length := by
  unfold surrogatePair at h
  split at h
  · cases h
  · cases h
  · next tail =>
    rcases e : codeUnit tail with err | ⟨low, tail'⟩
    · simp [e, bind, Except.bind] at h
    · have hl := codeUnit_length e
      simp only [e, bind, Except.bind] at h
      split at h
      · simp only [pure, Except.pure, Except.ok.injEq, Prod.mk.injEq] at h
        rcases h with ⟨-, rfl⟩
        simp only [List.length_cons]; omega
      · cases h
  · cases h

theorem unicodeEscape_length {cs rest : List Char} {c : Char}
    (h : unicodeEscape cs = .ok (c, rest)) : rest.length < cs.length := by
  unfold unicodeEscape at h
  rcases e : codeUnit cs with err | ⟨n, tail⟩
  · simp [e, bind, Except.bind] at h
  · have hl := codeUnit_length e
    simp only [e, bind, Except.bind] at h
    split at h
    · cases h
    · split at h
      · have := surrogatePair_length h
        omega
      · simp only [pure, Except.pure, Except.ok.injEq, Prod.mk.injEq] at h
        rcases h with ⟨-, rfl⟩
        exact hl

theorem readEscape_length {cs rest : List Char} {c : Char}
    (h : readEscape cs = .ok (c, rest)) : rest.length < cs.length := by
  unfold readEscape at h
  split at h
  · cases h
  · split at h
    · have := unicodeEscape_length h
      simp only [List.length_cons]; omega
    · split at h
      · cases h
        simp only [List.length_cons]; omega
      · cases h

/-! ### Whole strings -/

/-- The characters of a string whose opening quote has been read. -/
def readText (cs : List Char) : Except Fault (List Char × List Char) :=
  match cs with
  | [] => .error .unfinished
  | c :: rest =>
    if c = '"' then .ok ([], rest)
    else if c = '\\' then
      match h : readEscape rest with
      | .error e => .error e
      | .ok (d, tail) =>
        have : tail.length < rest.length := readEscape_length h
        (readText tail).map fun (ds, after) => (d :: ds, after)
    else if c.toNat < 0x20 then .error .malformed
    else (readText rest).map fun (ds, after) => (c :: ds, after)
termination_by cs.length
decreasing_by
  all_goals simp only [List.length_cons]; omega

end SlotStates.Json

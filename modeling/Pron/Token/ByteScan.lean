import Pron.Token.Scan

/-!
# Scanning bytes

The scanner over the bytes of a source, with a position that moves. Every access is checked: an index out of range, and
a slice that is out of range or cuts a character, give `none`. `next` gives one token after the other, then `eof`, and
nothing after that. It comes to an end because no part of the scanner moves the position back, and what reads a lexeme
moves it on (`Moves`, `scanToken_moves`).

All characters with a meaning are ASCII, so a byte is compared with them as the character of its number; the bytes of
longer characters have numbers from 128 on.
-/

namespace Pron

/-- A scanner: its source, the position where the current lexeme starts, the position behind the last byte that has been
read, the line of that position, and the kind and the literal of the token that has been found. -/
structure ByteScanner where
  bytes : List UInt8
  start : Nat
  curr : Nat
  line : Nat
  pending : Option TokenKind
  literal : Option String

namespace ByteScanner

/-- A scanner at the start of a source. -/
def new (source : String) : ByteScanner := ⟨source.toByteArray.data.toList, 0, 0, 1, none, none⟩

/-! ## Reading bytes -/

/-- The next byte, consumed. -/
def advance (s : ByteScanner) : Option (Char × ByteScanner) := do
  let b ← s.bytes[s.curr]?
  some (.ofUInt8 b, { s with curr := s.curr + 1 })

/-- The byte at a position, 0 behind the last one. -/
def byteAt (s : ByteScanner) (i : Nat) : UInt8 :=
  if h : i < s.bytes.length then s.bytes[i] else 0

/-- The next byte. -/
def peek (s : ByteScanner) : Char := .ofUInt8 (s.byteAt s.curr)

/-- The byte after the next one. -/
def peekNext (s : ByteScanner) : Char := .ofUInt8 (s.byteAt (s.curr + 1))

/-- Whether the next byte is the expected one, which is consumed if it is. -/
def matchByte (s : ByteScanner) (expected : Char) : Bool × ByteScanner :=
  if s.curr < s.bytes.length ∧ s.peek = expected then (true, { s with curr := s.curr + 1 }) else (false, s)

/-- Consumes bytes as long as they are of a class. -/
def advanceWhile (p : UInt8 → Bool) (s : ByteScanner) : ByteScanner :=
  if _h : s.curr < s.bytes.length ∧ p (s.byteAt s.curr) then advanceWhile p { s with curr := s.curr + 1 } else s
termination_by s.bytes.length - s.curr

/-- Whether a byte is inside a character. -/
def isContinuation (b : UInt8) : Bool := b &&& 0xc0 == 0x80

/-! ## Slices -/

/-- The bytes between two positions. -/
def extract (s : ByteScanner) (i j : Nat) : Option (List UInt8) :=
  if i ≤ j ∧ j ≤ s.bytes.length then some ((s.bytes.take j).drop i) else none

/-- Whether a position is before, between or behind characters. -/
def isBoundary (s : ByteScanner) (i : Nat) : Bool :=
  i == 0 || i == s.bytes.length || (decide (i < s.bytes.length) && !isContinuation (s.byteAt i))

/-- The text between two positions, which must not be inside a character. -/
def slice (s : ByteScanner) (i j : Nat) : Option String := do
  let bytes ← s.extract i j
  if s.isBoundary i && s.isBoundary j then String.fromUTF8? bytes.toByteArray else none

/-- Counts the line ends between two positions. -/
def countLines (s : ByteScanner) (i j : Nat) : Option ByteScanner := do
  let bytes ← s.extract i j
  some { s with line := s.line + bytes.count 10 }

/-- Where some bytes first occur. -/
def find (needle : List UInt8) : List UInt8 → Option Nat
  | [] => if needle.isEmpty then some 0 else none
  | b :: bytes => if needle.isPrefixOf (b :: bytes) then some 0 else (find needle bytes).map (· + 1)

/-- Where the bytes of a text first occur, counted from the current position. -/
def search (s : ByteScanner) (text : String) : Option (Option Nat) := do
  let bytes ← s.extract s.curr s.bytes.length
  some (find text.toByteArray.data.toList bytes)

/-! ## One lexeme -/

/-- A token of the given kind has been found. -/
def found (s : ByteScanner) (kind : TokenKind) : ByteScanner := { s with pending := some kind }

/-- An operator of two characters, or of one. -/
def operator (s : ByteScanner) (second : Char) (two one : TokenKind) : ByteScanner :=
  match s.matchByte second with
  | (true, s) => s.found two
  | (false, s) => s.found one

/-- A comment or the division sign. -/
def slash (s : ByteScanner) : Option ByteScanner := do
  match s.matchByte '/' with
  | (true, s) =>
    match ← s.search "\n" with
    | some length => some { s with curr := s.curr + length }
    | none => some { s with curr := s.bytes.length }
  | (false, s) =>
    match s.matchByte '*' with
    | (true, s) =>
      let stop := match ← s.search "*/" with
        | some length => s.curr + length + 2
        | none => s.bytes.length
      let s ← s.countLines s.curr stop
      some { s with curr := stop }
    | (false, s) => some (s.found .slash)

/-- A string, from the character after the opening quote. -/
def string (s : ByteScanner) : Option ByteScanner := do
  match ← s.search "\"" with
  | some length =>
    let stop := s.curr + length
    let counted ← s.countLines s.curr stop
    let text ← s.slice s.curr stop
    some { counted with curr := stop + 1, literal := some text, pending := some .str }
  | none =>
    let counted ← s.countLines s.curr s.bytes.length
    some { counted with curr := s.bytes.length, pending := some .illegal }

/-- A number. -/
def number (s : ByteScanner) : ByteScanner :=
  let s := s.advanceWhile fun b => (Char.ofUInt8 b).isDigit
  if s.peek = '.' ∧ s.peekNext.isDigit then
    ({ s with curr := s.curr + 1 }.advanceWhile fun b => (Char.ofUInt8 b).isDigit).found .real
  else s.found .int

/-- A word. -/
def word (s : ByteScanner) : Option ByteScanner := do
  let s := s.advanceWhile fun b => Scan.continuesWord (.ofUInt8 b)
  let text ← s.slice s.start s.curr
  some (s.found (.ofWord text))

/-- A character that belongs nowhere, with all its bytes. The slice is the one that is logged. -/
def illegal (s : ByteScanner) : Option ByteScanner := do
  let s := s.advanceWhile isContinuation
  let _ ← s.slice s.start s.curr
  some (s.found .illegal)

/-- What is behind a first byte: the rest of a lexeme, or of a comment, or nothing. -/
def behind (s : ByteScanner) : Char → Option ByteScanner
  | '+' => some (s.operator '+' .increment .plus)
  | '-' => some (s.operator '-' .decrement .minus)
  | '!' => some (s.operator '=' .notEq .bang)
  | '=' => some (s.operator '=' .eq .assign)
  | ' ' => some s
  | '\r' => some s
  | '\t' => some s
  | '\n' => some { s with line := s.line + 1 }
  | '/' => s.slash
  | '"' => s.string
  | c =>
    if c.isDigit then some s.number
    else if Scan.startsWord c then s.word
    else
      match Scan.singleKind c with
      | some kind => some (s.found kind)
      | none => s.illegal

/-- Reads one lexeme, or layout. -/
def scanToken (s : ByteScanner) : Option ByteScanner := do
  let (c, s) ← s.advance
  s.behind c

/-! ## Progress -/

/-- A search begins inside the source. -/
theorem curr_le_of_search {s : ByteScanner} {text : String} {place : Option Nat} (h : s.search text = some place) :
    s.curr ≤ s.bytes.length := by
  obtain ⟨bytes, hbytes, -⟩ := Option.bind_eq_some_iff.1 h
  unfold ByteScanner.extract at hbytes
  split at hbytes
  next hrange => exact hrange.1
  next => cases hbytes

/-- The position has not moved back. -/
structure Moves (s s' : ByteScanner) : Prop where
  bytes : s'.bytes = s.bytes
  curr : s.curr ≤ s'.curr

namespace Moves

variable {s s' s'' : ByteScanner}

theorem refl (s : ByteScanner) : s.Moves s := ⟨rfl, Nat.le_refl _⟩

theorem trans (h : s.Moves s') (h' : s'.Moves s'') : s.Moves s'' :=
  ⟨h'.bytes.trans h.bytes, Nat.le_trans h.curr h'.curr⟩

/-- A byte that is passed is a step forward, one that is not stays. -/
theorem matchByte (s : ByteScanner) (expected : Char) : s.Moves (s.matchByte expected).2 := by
  unfold ByteScanner.matchByte
  split
  · exact ⟨rfl, Nat.le_succ _⟩
  · exact refl s

/-- Bytes of a class are passed, however many there are. -/
theorem advanceWhile (p : UInt8 → Bool) (s : ByteScanner) : s.Moves (s.advanceWhile p) := by
  fun_induction ByteScanner.advanceWhile p s with
  | case1 s _ ih => exact ⟨ih.bytes, Nat.le_trans (Nat.le_succ _) ih.curr⟩
  | case2 s _ => exact refl s

/-- Counting lines does not move. -/
theorem countLines {i j : Nat} (h : s.countLines i j = some s') : s.Moves s' := by
  obtain ⟨bytes, -, heq⟩ := Option.bind_eq_some_iff.1 h
  cases heq
  exact ⟨rfl, Nat.le_refl _⟩

/-- An operator of two characters passes the second one. -/
theorem operator (s : ByteScanner) (second : Char) (two one : TokenKind) : s.Moves (s.operator second two one) := by
  have hmatch := matchByte s second
  unfold ByteScanner.operator
  split
  all_goals
    next heq =>
      rw [heq] at hmatch
      exact ⟨hmatch.bytes, hmatch.curr⟩

/-- A comment is passed to its end, and to the end of the text if it has none. -/
theorem slash (h : s.slash = some s') : s.Moves s' := by
  have hline := matchByte s '/'
  unfold ByteScanner.slash at h
  split at h
  next s₁ heq =>
    rw [heq] at hline
    obtain ⟨place, hsearch, h⟩ := Option.bind_eq_some_iff.1 h
    cases place with
    | some length =>
      cases h
      exact hline.trans ⟨rfl, Nat.le_add_right _ _⟩
    | none =>
      cases h
      exact hline.trans ⟨rfl, curr_le_of_search hsearch⟩
  next s₁ heq =>
    rw [heq] at hline
    have hblock := matchByte s₁ '*'
    split at h
    next s₂ heq =>
      rw [heq] at hblock
      obtain ⟨place, hsearch, h⟩ := Option.bind_eq_some_iff.1 h
      obtain ⟨s₃, hcount, h⟩ := Option.bind_eq_some_iff.1 h
      cases h
      refine (hline.trans hblock).trans ⟨(countLines hcount).bytes, ?_⟩
      have hinside := curr_le_of_search hsearch
      cases place with
      | some length =>
        dsimp only
        omega
      | none => exact hinside
    next s₂ heq =>
      rw [heq] at hblock
      cases h
      exact hline.trans ⟨hblock.bytes, hblock.curr⟩

/-- A string is passed with its closing quote. -/
theorem string (h : s.string = some s') : s.Moves s' := by
  unfold ByteScanner.string at h
  obtain ⟨place, hsearch, h⟩ := Option.bind_eq_some_iff.1 h
  cases place with
  | some length =>
    obtain ⟨counted, hcount, h⟩ := Option.bind_eq_some_iff.1 h
    obtain ⟨text, -, h⟩ := Option.bind_eq_some_iff.1 h
    cases h
    refine ⟨(countLines hcount).bytes, ?_⟩
    show s.curr ≤ s.curr + length + 1
    omega
  | none =>
    obtain ⟨counted, hcount, h⟩ := Option.bind_eq_some_iff.1 h
    cases h
    exact ⟨(countLines hcount).bytes, curr_le_of_search hsearch⟩

/-- Digits are passed, and a point with digits behind it. -/
theorem number (s : ByteScanner) : s.Moves s.number := by
  have hdigits := advanceWhile (fun b => (Char.ofUInt8 b).isDigit) s
  unfold ByteScanner.number
  dsimp only
  generalize s.advanceWhile _ = s₁ at hdigits
  split
  · have hfraction := advanceWhile (fun b => (Char.ofUInt8 b).isDigit) { s₁ with curr := s₁.curr + 1 }
    exact ⟨hfraction.bytes.trans hdigits.bytes,
      Nat.le_trans hdigits.curr (Nat.le_trans (Nat.le_succ _) hfraction.curr)⟩
  · exact ⟨hdigits.bytes, hdigits.curr⟩

/-- The characters of a name are passed. -/
theorem word (h : s.word = some s') : s.Moves s' := by
  have hword := advanceWhile (fun b => Scan.continuesWord (.ofUInt8 b)) s
  obtain ⟨text, -, h⟩ := Option.bind_eq_some_iff.1 h
  cases h
  exact ⟨hword.bytes, hword.curr⟩

/-- The rest of a longer character is passed with its first byte. -/
theorem illegal (h : s.illegal = some s') : s.Moves s' := by
  have hbytes := advanceWhile isContinuation s
  obtain ⟨text, -, h⟩ := Option.bind_eq_some_iff.1 h
  cases h
  exact ⟨hbytes.bytes, hbytes.curr⟩

/-- Whatever the first byte is, the scanner stands behind it in the end. -/
theorem behind {c : Char} (h : s.behind c = some s') : s.Moves s' := by
  have hfound (kind : TokenKind) : s.Moves (s.found kind) := ⟨rfl, Nat.le_refl _⟩
  unfold ByteScanner.behind at h
  split at h
  case h_9 => exact slash h
  case h_10 => exact string h
  case h_11 =>
    split at h
    · cases h
      exact number s
    · split at h
      · exact word h
      · split at h
        · cases h
          exact hfound _
        · exact illegal h
  case h_8 =>
    cases h
    exact ⟨rfl, Nat.le_refl _⟩
  case h_5 | h_6 | h_7 =>
    cases h
    exact refl s
  all_goals
    cases h
    exact operator s _ _ _

end Moves

/-- Reading a lexeme moves the position on. -/
theorem scanToken_moves {s s' : ByteScanner} (h : s.scanToken = some s') : s'.bytes = s.bytes ∧ s.curr < s'.curr := by
  obtain ⟨⟨c, s₁⟩, hadvance, hbehind⟩ := Option.bind_eq_some_iff.1 h
  obtain ⟨b, -, heq⟩ := Option.bind_eq_some_iff.1 hadvance
  cases heq
  have hmoves := Moves.behind hbehind
  exact ⟨hmoves.bytes, hmoves.curr⟩

/-! ## The tokens, one after the other -/

/-- The literal of the token that has been found: its own one, or else the lexeme. -/
def text (s : ByteScanner) : Option String :=
  match s.literal with
  | some text => some text
  | none => s.slice s.start s.curr

/-- The next token, if there is one left. Layout is read over; behind `eof` there is nothing. -/
def next (s : ByteScanner) : Option (Option Token × ByteScanner) :=
  if _h : s.curr ≤ s.bytes.length then
    if s.curr = s.bytes.length then some (some (.endOfSource s.line), { s with curr := s.curr + 1 })
    else
      match _hscan : scanToken { s with start := s.curr, pending := none, literal := none } with
      | none => none
      | some s' =>
        match s'.pending with
        | some kind => do
          let text ← s'.text
          some (some ⟨kind, text, s.line⟩, { s' with pending := none, literal := none })
        | none => next s'
  else some (none, s)
termination_by s.bytes.length + 1 - s.curr
decreasing_by
  obtain ⟨hbytes, hmoves⟩ := scanToken_moves _hscan
  dsimp only at hbytes hmoves
  rw [hbytes]
  omega

/-- What the call number `n` of `next` gives, the first one being number 0. -/
def call : Nat → ByteScanner → Option (Option Token)
  | 0, s => s.next.map Prod.fst
  | n + 1, s => do
    let (_, s) ← s.next
    call n s

end ByteScanner

end Pron

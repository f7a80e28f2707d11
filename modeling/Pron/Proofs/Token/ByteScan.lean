import Pron.Proofs.Token.Encoding

/-!
# The scanner of bytes finds the tokens of the text

`At s pre cs` says that the position of a scanner is between the characters `pre` and the characters `cs`. From there no
index is out of range and no slice cuts a character: `slice_eq`, `scanToken_eq`. The calls of `next` give the tokens of
the source, the last of them `eof`, and nothing after that: `call_eq`.
-/

namespace Pron

namespace ByteScanner

open Scan Encoding

/-- The position is between `pre` and `cs`. -/
structure At (s : ByteScanner) (pre cs : List Char) : Prop where
  bytes : s.bytes = encode (pre ++ cs)
  curr : s.curr = (encode pre).length

variable {s s' : ByteScanner} {pre cs text after rest : List Char} {c d : Char} {p : Char → Bool} {i j : Nat}

namespace At

theorem drop (h : At s pre cs) : s.bytes.drop s.curr = encode cs := by
  rw [h.bytes, h.curr, encode_append, List.drop_left]

theorem length (h : At s pre cs) : s.bytes.length = s.curr + (encode cs).length := by
  rw [h.bytes, h.curr, encode_append, List.length_append]

/-- The position behind `text`. -/
theorem move (h : At s pre (text ++ after)) (hbytes : s'.bytes = s.bytes)
    (hcurr : s'.curr = (encode (pre ++ text)).length) : At s' (pre ++ text) after :=
  ⟨by rw [hbytes, h.bytes, List.append_assoc], hcurr⟩

theorem byteAt (h : At s pre cs) : s.byteAt s.curr = (encode cs).head?.getD 0 := by
  unfold ByteScanner.byteAt
  rw [← h.drop, List.head?_drop]
  split
  next hlt => rw [List.getElem?_eq_getElem hlt, Option.getD_some]
  next hge => rw [List.getElem?_eq_none (Nat.le_of_not_lt hge), Option.getD_none]

/-- The next byte is in a class of ASCII characters only if the next character is. -/
theorem class_byteAt (h : At s pre cs) (hp : AsciiClass p) (hzero : p '\x00' = false) :
    p (.ofUInt8 (s.byteAt s.curr)) = cs.head?.any p := by
  rw [h.byteAt]
  cases cs with
  | nil => exact hzero
  | cons c cs =>
    rw [encode_cons]
    by_cases hc : Ascii c
    · rw [utf8EncodeChar_ascii hc]
      show p (.ofUInt8 (.ofNat c.toNat)) = p c
      rw [ofUInt8_ascii hc]
    · obtain ⟨b, bs, heq, -⟩ := utf8EncodeChar_multiple hc
      have hb := class_eq_false (b := b) hp hc (by rw [heq]; exact List.mem_cons_self ..)
      rw [heq]
      show p (.ofUInt8 b) = p c
      rw [hb, eq_comm, ← Bool.not_eq_true]
      exact fun hpc => hc (hp c hpc)

theorem class_peek (h : At s pre cs) (hp : AsciiClass p) (hzero : p '\x00' = false) : p s.peek = cs.head?.any p :=
  h.class_byteAt hp hzero

theorem peek_iff (h : At s pre cs) (hd : Ascii d) (hzero : d ≠ '\x00') : s.peek = d ↔ cs.head? = some d := by
  have hclass : AsciiClass (· == d) := by
    intro e he
    rwa [beq_iff_eq.1 he]
  have := h.class_peek hclass (by rw [beq_eq_false_iff_ne]; exact hzero.symm)
  rw [← beq_iff_eq, this, Option.any_eq_true]
  simp

end At

/-! ## Reading -/

theorem advanceWhile_eq (p : UInt8 → Bool) (s : ByteScanner) :
    s.advanceWhile p = { s with curr := s.curr + ((s.bytes.drop s.curr).takeWhile p).length } := by
  fun_induction advanceWhile p s with
  | case1 s h ih =>
    obtain ⟨hlt, hp⟩ := h
    rw [ih, List.drop_eq_getElem_cons hlt, List.takeWhile_cons_of_pos]
    · simp only [List.length_cons]
      congr 1
      omega
    · rwa [ByteScanner.byteAt, dif_pos hlt] at hp
  | case2 s h =>
    by_cases hlt : s.curr < s.bytes.length
    · rw [List.drop_eq_getElem_cons hlt, List.takeWhile_cons_of_neg]
      · rfl
      · intro hp
        refine h ⟨hlt, ?_⟩
        rwa [ByteScanner.byteAt, dif_pos hlt]
    · rw [List.drop_eq_nil_of_le (Nat.le_of_not_lt hlt)]
      rfl

/-- A run of ASCII characters is consumed to its end. -/
theorem At.advanceWhile (h : At s pre cs) (hp : AsciiClass p) :
    s.advanceWhile (fun b => p (.ofUInt8 b)) = { s with curr := (encode (pre ++ cs.takeWhile p)).length } := by
  rw [advanceWhile_eq, h.drop, takeWhile_encode hp, h.curr, encode_append, List.length_append]

theorem At.matchByte (h : At s pre cs) (hd : Ascii d) (hzero : d ≠ '\x00') :
    s.matchByte d = if cs.head? = some d then (true, { s with curr := s.curr + 1 }) else (false, s) := by
  unfold ByteScanner.matchByte
  simp only [h.peek_iff hd hzero]
  by_cases hhead : cs.head? = some d
  · have hlt : s.curr < s.bytes.length := by
      have hne : cs ≠ [] := by
        rintro rfl
        cases hhead
      have := List.length_pos_iff.2 (encode_ne_nil hne)
      rw [h.length]
      omega
    rw [if_pos ⟨hlt, hhead⟩, if_pos hhead]
  · rw [if_neg fun h => hhead h.2, if_neg hhead]

/-! ## Slices -/

theorem extract_eq (h : s.bytes = encode (pre ++ (text ++ after))) :
    s.extract (encode pre).length (encode (pre ++ text)).length = some (encode text) := by
  unfold extract
  rw [h, if_pos]
  · rw [← List.append_assoc, encode_append (pre ++ text), List.take_left, encode_append, List.drop_left]
  · simp only [encode_append, List.length_append]
    omega

/-- A position between two characters is not inside one. -/
theorem isBoundary_eq (h : s.bytes = encode (pre ++ cs)) : s.isBoundary (encode pre).length = true := by
  have hat : At { s with curr := (encode pre).length } pre cs := ⟨h, rfl⟩
  unfold isBoundary
  cases cs with
  | nil =>
    rw [h, List.append_nil]
    simp
  | cons c cs =>
    have hbyte := hat.byteAt
    have hlength := hat.length
    have hnonempty : encode (c :: cs) ≠ [] := encode_ne_nil nofun
    cases heq : encode (c :: cs) with
    | nil => exact absurd heq hnonempty
    | cons b bs =>
      have hb : isContinuation b = false := encode_head (by rw [heq]; rfl : (encode (c :: cs)).head? = some b)
      rw [heq] at hbyte hlength
      have hbyte : s.byteAt (encode pre).length = b := hbyte
      have hlt : (encode pre).length < s.bytes.length := by
        simp only [List.length_cons] at hlength
        omega
      rw [hbyte, hb]
      simp [hlt]

/-- What is between two positions that are not inside characters is text. -/
theorem slice_eq (h : s.bytes = encode (pre ++ (text ++ after))) :
    s.slice (encode pre).length (encode (pre ++ text)).length = some (String.ofList text) := by
  have hstart : s.isBoundary (encode pre).length = true := isBoundary_eq h
  have hstop : s.isBoundary (encode (pre ++ text)).length = true := isBoundary_eq (by rw [h, List.append_assoc])
  unfold slice
  rw [extract_eq h]
  simp only [Option.bind_eq_bind, Option.bind_some, hstart, hstop, Bool.and_self, if_true]
  exact fromUTF8?_encode text

theorem countLines_eq (h : s.bytes = encode (pre ++ (text ++ after))) :
    s.countLines (encode pre).length (encode (pre ++ text)).length =
      some { s with line := s.line + lineEnds text } := by
  unfold countLines
  rw [extract_eq h]
  show some { s with line := s.line + (encode text).count (byte '\n') } = _
  rw [count_encode]

theorem At.search (h : At s pre cs) (needle : String) :
    s.search needle = some (find needle.toByteArray.data.toList (encode cs)) := by
  have hextract : s.extract (encode pre).length (encode (pre ++ cs)).length = some (encode cs) :=
    extract_eq (by rw [h.bytes, List.append_nil] : s.bytes = encode (pre ++ (cs ++ [])))
  unfold ByteScanner.search
  rw [h.bytes, h.curr, hextract]
  rfl

/-! ## One lexeme -/

/-- The scanner behind `text`, which is a token of the given kind or, without a kind, layout. -/
def reached (s : ByteScanner) (pre text : List Char) (kind : Option TokenKind) : ByteScanner :=
  { s with
    curr := (encode (pre ++ text)).length
    line := s.line + lineEnds text
    pending := kind
    literal := if kind = some .str then some (Scan.literal .str text) else none }

variable {k one two : TokenKind} {kind : Option TokenKind}

theorem asciiClass_isDigit : AsciiClass Char.isDigit := by
  intro c hc
  simp only [Char.isDigit, Bool.and_eq_true, decide_eq_true_eq, UInt32.le_iff_toNat_le] at hc
  exact Nat.lt_of_le_of_lt hc.2 (by decide)

theorem asciiClass_continuesWord : AsciiClass continuesWord := by
  intro c hc
  simp only [continuesWord, Char.isAlphanum, Char.isAlpha, Char.isUpper, Char.isLower, Bool.or_eq_true,
    Bool.and_eq_true, decide_eq_true_eq, beq_iff_eq, ge_iff_le, UInt32.le_iff_toNat_le] at hc
  rcases hc with ((⟨-, h⟩ | ⟨-, h⟩) | h) | rfl
  · exact Nat.lt_of_le_of_lt h (by decide)
  · exact Nat.lt_of_le_of_lt h (by decide)
  · exact asciiClass_isDigit c h
  · decide

theorem ascii_singleKind (h : singleKind c = some k) : Ascii c := by
  unfold singleKind at h
  split at h
  case h_20 => cases h
  all_goals decide

/-- The scanner after the first character, where that is one byte. -/
def second (s : ByteScanner) : ByteScanner := { s with curr := s.curr + 1 }

theorem At.second (h : At s pre (c :: rest)) (hc : Ascii c) : At s.second (pre ++ [c]) rest := by
  refine At.move (show At s pre ([c] ++ rest) from h) rfl ?_
  rw [encode_append, List.length_append, encode_cons, utf8EncodeChar_ascii hc, ← h.curr]
  rfl

variable {s₁ : ByteScanner}

/-- Only strings have a literal of their own, and only they and comments go over the end of a line. -/
theorem reached_eq (hk : k ≠ .str) (hnew : s.literal = none) (hline : lineEnds text = 0) :
    s.reached pre text (some k) = { s with curr := (encode (pre ++ text)).length, pending := some k } := by
  rw [reached, hline, if_neg (by simpa using hk), ← hnew]
  rfl

theorem number_eq (h : At s (pre ++ [c]) rest) (hc : c.isDigit) (hnew : s.literal = none)
    (hpiece : Scan.number c rest = (.lexeme k text, after)) : s.number = s.reached pre text (some k) := by
  have hsplit : rest.takeWhile Char.isDigit ++ rest.dropWhile Char.isDigit = rest := List.takeWhile_append_dropWhile
  have hwhole : ∀ d ∈ c :: rest.takeWhile Char.isDigit, d.isDigit :=
    List.forall_mem_cons.2 ⟨hc, List.all_eq_true.1 List.all_takeWhile⟩
  let whole : ByteScanner := { s with curr := (encode (pre ++ [c] ++ rest.takeWhile Char.isDigit)).length }
  have hat : At whole (pre ++ [c] ++ rest.takeWhile Char.isDigit) (rest.dropWhile Char.isDigit) :=
    At.move (s := s) (by rwa [hsplit]) rfl rfl
  have hint : whole.found .int = s.reached pre (c :: rest.takeWhile Char.isDigit) (some .int) := by
    rw [reached_eq (k := .int) (by decide) hnew (lineEnds_eq_zero isDigit_newline hwhole)]
    simp [whole, found]
  have hpoint : whole.peek = '.' ↔ (rest.dropWhile Char.isDigit).head? = some '.' :=
    hat.peek_iff (by decide) (by decide)
  have hfraction (behind : List Char) (heq : rest.dropWhile Char.isDigit = '.' :: behind) :
      At whole.second (pre ++ [c] ++ rest.takeWhile Char.isDigit ++ ['.']) behind := by
    rw [heq] at hat
    exact hat.second (by decide)
  have hnext (behind : List Char) (heq : rest.dropWhile Char.isDigit = '.' :: behind) :
      whole.peekNext.isDigit = behind.head?.any Char.isDigit :=
    (hfraction behind heq).class_byteAt asciiClass_isDigit rfl
  have hnumber : s.number = if whole.peek = '.' ∧ whole.peekNext.isDigit then
      (whole.second.advanceWhile fun b => (Char.ofUInt8 b).isDigit).found .real else whole.found .int := by
    unfold number
    rw [h.advanceWhile asciiClass_isDigit]
    rfl
  rw [hnumber]
  unfold Scan.number at hpiece
  split at hpiece
  next d behind heq =>
    split at hpiece
    next hd =>
      cases hpiece
      have hfraction' : ∀ e ∈ d :: behind.takeWhile Char.isDigit, e.isDigit :=
        List.forall_mem_cons.2 ⟨hd, List.all_eq_true.1 List.all_takeWhile⟩
      have hline : lineEnds (c :: rest.takeWhile Char.isDigit ++ '.' :: d :: behind.takeWhile Char.isDigit) = 0 := by
        rw [lineEnds, List.count_append, ← lineEnds, lineEnds_eq_zero isDigit_newline hwhole, List.count_cons,
          ← lineEnds, lineEnds_eq_zero isDigit_newline hfraction']
        rfl
      have hdigit : whole.peekNext.isDigit := by
        rw [hnext _ heq]
        exact hd
      rw [if_pos ⟨hpoint.2 (by rw [heq]; rfl), hdigit⟩, (hfraction _ heq).advanceWhile asciiClass_isDigit,
        List.takeWhile_cons_of_pos hd, reached_eq (k := .real) (by decide) hnew hline]
      simp [whole, second, found]
    next hd =>
      cases hpiece
      have hdigit : ¬ whole.peekNext.isDigit := by
        rw [hnext _ heq]
        simpa using hd
      rw [if_neg fun h => hdigit h.2, hint]
  next hother =>
    cases hpiece
    rw [if_neg, hint]
    rintro ⟨hdot, hdigit⟩
    obtain ⟨behind, heq⟩ := List.head?_eq_some_iff.1 (hpoint.1 hdot)
    rw [hnext _ heq] at hdigit
    cases behind with
    | nil => cases hdigit
    | cons d behind => exact hother d behind heq

/-- The slice from the start of a lexeme to the current position is its text. -/
theorem slice_start (hbytes : s.bytes = encode (pre ++ (text ++ after))) (hstart : s.start = (encode pre).length)
    (hcurr : s.curr = (encode (pre ++ text)).length) : s.slice s.start s.curr = some (String.ofList text) := by
  rw [hstart, hcurr]
  exact slice_eq hbytes

theorem word_eq (h : At s (pre ++ [c]) rest) (hstart : s.start = (encode pre).length) (hc : startsWord c)
    (hnew : s.literal = none) (hpiece : Scan.word c rest = (.lexeme k text, after)) :
    s.word = some (s.reached pre text (some k)) := by
  cases hpiece
  have hall : ∀ d ∈ c :: rest.takeWhile continuesWord, continuesWord d :=
    List.forall_mem_cons.2 ⟨continuesWord_of_startsWord hc, List.all_eq_true.1 List.all_takeWhile⟩
  let stop : ByteScanner := { s with curr := (encode (pre ++ [c] ++ rest.takeWhile continuesWord)).length }
  have hslice : stop.slice stop.start stop.curr = some (String.ofList (c :: rest.takeWhile continuesWord)) := by
    have hbytes : stop.bytes =
        encode (pre ++ (c :: rest.takeWhile continuesWord ++ rest.dropWhile continuesWord)) := by
      show s.bytes = _
      rw [h.bytes]
      simp
    refine slice_start hbytes hstart ?_
    simp [stop]
  unfold word
  rw [h.advanceWhile asciiClass_continuesWord, reached_eq (ofWord_ne_str _) hnew
    (lineEnds_eq_zero continuesWord_newline hall)]
  show (stop.slice stop.start stop.curr >>= fun text => some (stop.found (.ofWord text))) = _
  rw [hslice]
  simp [stop, found]

theorem illegal_eq {bs : List UInt8} (hbytes : s.bytes = encode (pre ++ c :: rest))
    (hstart : s.start = (encode pre).length) (hbehind : s.bytes.drop s.curr = bs ++ encode rest)
    (hbs : ∀ b ∈ bs, isContinuation b) (hcurr : s.curr + bs.length = (encode (pre ++ [c])).length) :
    s.illegal = some { s with curr := (encode (pre ++ [c])).length, pending := some .illegal } := by
  have hrun : (s.bytes.drop s.curr).takeWhile isContinuation = bs := by
    rw [hbehind, List.takeWhile_append_of_pos hbs]
    cases heq : encode rest with
    | nil => rw [List.takeWhile_nil, List.append_nil]
    | cons b behind =>
      have hb : isContinuation b = false := encode_head (by rw [heq]; rfl : (encode rest).head? = some b)
      rw [List.takeWhile_cons_of_neg (by simp [hb]), List.append_nil]
  let stop : ByteScanner := { s with curr := (encode (pre ++ [c])).length }
  have hslice : stop.slice stop.start stop.curr = some (String.ofList [c]) :=
    slice_start (show stop.bytes = encode (pre ++ ([c] ++ rest)) from hbytes) hstart rfl
  unfold illegal
  rw [advanceWhile_eq, hrun, hcurr]
  show (stop.slice stop.start stop.curr >>= fun _ => some (stop.found .illegal)) = _
  rw [hslice]
  rfl

theorem string_eq (h : At s (pre ++ ['"']) rest) (hpiece : Scan.string rest = (.lexeme k text, after))
    (hnew : s.literal = none) : s.string = some (s.reached pre text (some k)) := by
  let inside := rest.takeWhile (· != '"')
  have hsplit : inside ++ rest.dropWhile (· != '"') = rest := List.takeWhile_append_dropWhile
  have hfind : s.search "\"" = some (if '"' ∈ rest then some (encode inside).length else none) := by
    rw [h.search, ← find_char (by decide)]
    rfl
  have hbytes : s.bytes = encode (pre ++ ['"'] ++ (inside ++ rest.dropWhile (· != '"'))) := by rw [hsplit, h.bytes]
  have hcount := countLines_eq hbytes
  have hslice := slice_eq hbytes
  have hstop : s.curr + (encode inside).length = (encode (pre ++ ['"'] ++ inside)).length := by
    rw [h.curr, encode_append (pre ++ ['"']), List.length_append]
  unfold ByteScanner.string
  rw [hfind]
  unfold Scan.string at hpiece
  split at hpiece
  next q behind heq =>
    cases hpiece
    have hmem : '"' ∈ rest := by
      have hq := List.head?_dropWhile_not (· != '"') rest
      rw [heq] at hq
      have hq : q = '"' := by simpa using hq
      rw [← List.takeWhile_append_dropWhile (p := (· != '"')) (l := rest), heq, hq]
      simp
    have hline : lineEnds ('"' :: inside ++ ['"']) = lineEnds inside := by simp [lineEnds]
    have hliteral : Scan.literal .str ('"' :: inside ++ ['"']) = String.ofList inside := by simp [Scan.literal]
    have hcurr : (encode (pre ++ ['"'] ++ inside)).length + 1 = (encode (pre ++ ('"' :: inside ++ ['"']))).length := by
      have : pre ++ ('"' :: inside ++ ['"']) = pre ++ ['"'] ++ inside ++ ['"'] := by simp
      rw [this, encode_append _ ['"'], List.length_append]
      rfl
    rw [if_pos hmem]
    simp only [Option.bind_eq_bind, Option.bind_some, h.curr] at hcount hslice hstop ⊢
    rw [hstop, hcount, Option.bind_some, hslice, Option.bind_some, hcurr, reached, hline, hliteral, if_pos rfl]
  next heq =>
    cases hpiece
    have hinside : inside = rest := by rw [← hsplit, heq, List.append_nil]
    have hmem : '"' ∉ rest := by
      intro hmem
      rw [← hinside] at hmem
      cases List.all_eq_true.1 List.all_takeWhile _ hmem
    have hline : lineEnds ('"' :: rest) = lineEnds rest := by simp [lineEnds]
    have hcurr : s.bytes.length = (encode (pre ++ '"' :: rest)).length := by
      rw [h.bytes]
      simp
    have hall : pre ++ ['"'] ++ rest = pre ++ '"' :: rest := by simp
    rw [hinside, hall] at hcount
    rw [if_neg hmem]
    simp only [Option.bind_eq_bind, Option.bind_some, h.curr, hcurr] at hcount ⊢
    rw [hcount, Option.bind_some, reached, hline, if_neg (by decide), hnew]

/-! ## Operators and comments -/

theorem found_eq (h : At s (pre ++ [c]) rest) (hone : singleKind c = some one) (hnew : s.literal = none) :
    s.found one = s.reached pre [c] (some one) := by
  obtain ⟨-, -, -, -, hline, hstr⟩ := symbol_classes hone
  have hline : lineEnds [c] = 0 := by
    rw [lineEnds, List.count_eq_zero, List.mem_singleton]
    exact hline.symm
  rw [reached_eq hstr hnew hline, ← h.curr]
  rfl

theorem operator_eq (h : At s (pre ++ [c]) rest) (htwo : doubleKind c d = some two) (hone : singleKind c = some one)
    (hnew : s.literal = none) (hpiece : symbol c rest = (.lexeme k text, after)) :
    s.operator d two one = s.reached pre text (some k) := by
  have hsecond := htwo
  have hclasses : Ascii d ∧ d ≠ '\x00' ∧ two ≠ .str ∧ lineEnds [c, d] = 0 := by
    unfold doubleKind at htwo
    split at htwo
    case h_5 => cases htwo
    all_goals
      cases htwo
      decide
  obtain ⟨hd, hzero, htwo', hline⟩ := hclasses
  unfold operator
  rw [h.matchByte hd hzero]
  cases rest with
  | nil =>
    cases hpiece
    rw [if_neg nofun, hone]
    exact found_eq h hone hnew
  | cons e rest =>
    unfold symbol at hpiece
    by_cases he : e = d
    · subst he
      simp only [htwo] at hpiece
      cases hpiece
      have hcurr : s.curr + 1 = (encode (pre ++ [c] ++ [e])).length := (h.second hd).curr
      rw [if_pos List.head?_cons, reached_eq htwo' hnew hline]
      simp only [found, hcurr, List.append_assoc, List.cons_append, List.nil_append]
    · simp only [doubleKind_eq_none htwo he] at hpiece
      cases hpiece
      rw [if_neg (by simpa using he), hone]
      exact found_eq h hone hnew

/-- Where the line of a comment ends. -/
theorem lineComment_eq (h : At s pre rest) :
    ((ByteScanner.find [byte '\n'] (encode rest)).map (s.curr + ·)).getD s.bytes.length =
      (encode (pre ++ rest.takeWhile (· != '\n'))).length := by
  rw [find_char (by decide), encode_append, List.length_append, ← h.curr]
  split
  next => rfl
  next hmem =>
    have hne : ∀ c ∈ rest, (c != '\n') = true := by
      intro c hc
      rw [bne_iff_ne]
      rintro rfl
      exact hmem hc
    have hall : (rest ++ []).takeWhile (· != '\n') = rest ++ [].takeWhile (· != '\n') :=
      List.takeWhile_append_of_pos hne
    rw [List.takeWhile_nil, List.append_nil] at hall
    rw [hall]
    exact h.length

/-- Where a block comment ends. -/
theorem blockComment_eq (h : At s pre rest) :
    ((ByteScanner.find [byte '*', byte '/'] (encode rest)).map (s.curr + · + 2)).getD s.bytes.length =
      (encode (pre ++ (splitBlockComment rest).1)).length := by
  rw [encode_append, List.length_append, ← find_blockEnd, ← h.curr, h.length]
  cases ByteScanner.find [byte '*', byte '/'] (encode rest) with
  | none => rfl
  | some n => rfl

/-- Two slashes begin a comment up to the end of the line. -/
theorem slash_lineComment (h : At s (pre ++ ['/']) ('/' :: rest)) (hnew : s.literal = none)
    (hpending : s.pending = none) :
    s.slash = some (s.reached pre ('/' :: '/' :: rest.takeWhile (· != '\n')) none) := by
  have hslash := h.matchByte (d := '/') (by decide) (by decide)
  have hat := h.second (by decide)
  have hstop := lineComment_eq hat
  have htext : pre ++ ['/'] ++ ['/'] ++ rest.takeWhile (· != '\n') =
      pre ++ '/' :: '/' :: rest.takeWhile (· != '\n') := by
    simp
  have hends : lineEnds ('/' :: '/' :: rest.takeWhile (· != '\n')) = 0 := by
    have hnone : lineEnds (rest.takeWhile (· != '\n')) = 0 :=
      lineEnds_eq_zero (p := (· != '\n')) rfl (List.all_eq_true.1 List.all_takeWhile)
    simpa [lineEnds] using hnone
  have hfind : s.second.search "\n" = some (find [byte '\n'] (encode rest)) := hat.search "\n"
  have hreached : s.reached pre ('/' :: '/' :: rest.takeWhile (· != '\n')) none =
      { s with curr := (encode (pre ++ '/' :: '/' :: rest.takeWhile (· != '\n'))).length } := by
    rw [reached, hends, if_neg (by decide), ← hnew, ← hpending]
    rfl
  unfold slash
  rw [htext] at hstop
  rw [hslash, if_pos List.head?_cons, hreached, ← hstop]
  show (s.second.search "\n" >>= _) = _
  rw [hfind]
  cases find [byte '\n'] (encode rest) with
  | none => rfl
  | some n => rfl

/-- A slash and a star begin a comment up to the next star and slash. -/
theorem slash_blockComment (h : At s (pre ++ ['/']) ('*' :: rest)) (hnew : s.literal = none)
    (hpending : s.pending = none) :
    s.slash = some (s.reached pre ('/' :: '*' :: (splitBlockComment rest).1) none) := by
  have hslash := h.matchByte (d := '/') (by decide) (by decide)
  have hstar := h.matchByte (d := '*') (by decide) (by decide)
  have hline : ('*' :: rest).head? ≠ some '/' := by simp
  have hat := h.second (by decide)
  have hstop := blockComment_eq hat
  have hfind : s.second.search "*/" = some (find [byte '*', byte '/'] (encode rest)) := hat.search "*/"
  have htext : pre ++ ['/'] ++ ['*'] ++ (splitBlockComment rest).1 =
      pre ++ '/' :: '*' :: (splitBlockComment rest).1 := by
    simp
  have hends : lineEnds ('/' :: '*' :: (splitBlockComment rest).1) = lineEnds (splitBlockComment rest).1 := by
    simp [lineEnds]
  have hbytes : s.second.bytes =
      encode (pre ++ ['/'] ++ ['*'] ++ ((splitBlockComment rest).1 ++ (splitBlockComment rest).2)) := by
    rw [splitBlockComment_append]
    exact hat.bytes
  have hcount := countLines_eq hbytes
  have hreached : s.reached pre ('/' :: '*' :: (splitBlockComment rest).1) none =
      { s with
        curr := (encode (pre ++ '/' :: '*' :: (splitBlockComment rest).1)).length
        line := s.line + lineEnds (splitBlockComment rest).1 } := by
    rw [reached, hends, if_neg (by decide), ← hnew, ← hpending]
  unfold slash
  rw [htext] at hstop hcount
  rw [← hat.curr, ← hstop] at hcount
  rw [hslash, if_neg hline, hreached, ← hstop]
  simp only [hstar, List.head?_cons, if_true]
  show (s.second.search "*/" >>= _) = _
  rw [hfind]
  cases hlength : find [byte '*', byte '/'] (encode rest) with
  | none =>
    rw [hlength, Option.map_none, Option.getD_none] at hcount
    show (s.second.countLines s.second.curr s.second.bytes.length >>= _) = _
    rw [hcount]
    rfl
  | some n =>
    rw [hlength, Option.map_some, Option.getD_some] at hcount
    show (s.second.countLines s.second.curr (s.second.curr + n + 2) >>= _) = _
    rw [hcount]
    rfl

/-- A comment, or the division sign. -/
theorem slash_eq (h : At s (pre ++ ['/']) rest) (hnew : s.literal = none) (hpending : s.pending = none) :
    (∃ text after, firstPiece '/' rest = (.gap text, after) ∧ s.slash = some (s.reached pre text none)) ∨
      (firstPiece '/' rest = (.lexeme .slash ['/'], rest) ∧ s.slash = some (s.reached pre ['/'] (some .slash))) := by
  by_cases hline : rest.head? = some '/'
  · obtain ⟨rest, rfl⟩ := List.head?_eq_some_iff.1 hline
    exact .inl ⟨_, _, rfl, slash_lineComment h hnew hpending⟩
  by_cases hblock : rest.head? = some '*'
  · obtain ⟨rest, rfl⟩ := List.head?_eq_some_iff.1 hblock
    exact .inl ⟨_, _, rfl, slash_blockComment h hnew hpending⟩
  have hslash := h.matchByte (d := '/') (by decide) (by decide)
  have hstar := h.matchByte (d := '*') (by decide) (by decide)
  have hfound : s.found .slash = s.reached pre ['/'] (some .slash) := found_eq h rfl hnew
  refine .inr ⟨firstPiece_slash hline hblock, ?_⟩
  unfold slash
  rw [hslash, if_neg hline]
  simp only [hstar, if_neg hblock, hfound]

/-! ## The next lexeme, or layout -/

/-- A token of the given kind, or layout, with its tokens: one, or none. -/
structure Lexed (cs text after : List Char) (kind : Option TokenKind) : Prop where
  split : cs = text ++ after
  nonempty : text ≠ []
  tokens : ∀ line, tokensAt line cs =
    kind.toList.map (fun k => ⟨k, Scan.literal k text, line⟩) ++ tokensAt (line + lineEnds text) after

theorem Lexed.of_piece {piece : Piece} (h : firstPiece c rest = (piece, after)) :
    Lexed (c :: rest) piece.text after (match piece with | .gap _ => none | .lexeme k _ => some k) := by
  have hsplit := firstPiece_append c rest
  have hnonempty := firstPiece_text_ne_nil c rest
  rw [h] at hsplit hnonempty
  refine ⟨hsplit.symm, hnonempty, fun line => ?_⟩
  cases piece with
  | gap text => exact tokensAt_gap h
  | lexeme k text => exact tokensAt_lexeme h

theorem Lexed.blank (hc : isBlank c) : Lexed (c :: rest) [c] rest none :=
  ⟨rfl, nofun, fun line => tokensAt_blank hc line rest⟩

/-- What the scanner finds behind the first byte of `c`, when all is well. -/
def Finds (s : ByteScanner) (pre : List Char) (c : Char) (rest : List Char) (result : Option ByteScanner) : Prop :=
  ∃ text after kind, Lexed (c :: rest) text after kind ∧ result = some (s.reached pre text kind)

theorem Finds.lexeme {result : Option ByteScanner} (hpiece : firstPiece c rest = (.lexeme k text, after))
    (hresult : result = some (s.reached pre text (some k))) : Finds s pre c rest result :=
  ⟨text, after, some k, .of_piece hpiece, hresult⟩

/-- An operator of one character or of two. -/
theorem finds_operator (h : At s (pre ++ [c]) rest) (htwo : doubleKind c d = some two) (hone : singleKind c = some one)
    (hslash : c ≠ '/') (hnew : s.literal = none) : Finds s pre c rest (some (s.operator d two one)) := by
  obtain ⟨hblank, hquote, hdigit, hword, -⟩ := symbol_classes hone
  obtain ⟨k, text, after, hpiece⟩ := symbol_lexeme c rest
  have hfirst : firstPiece c rest = symbol c rest :=
    firstPiece_symbol hblank (by simpa using hquote) hdigit hword hslash
  exact .lexeme (hfirst.trans hpiece) (congrArg some (operator_eq h htwo hone hnew hpiece))

theorem finds_blank (h : At s (pre ++ [c]) rest) (hc : isBlank c) (hnew : s.literal = none)
    (hpending : s.pending = none) :
    Finds s pre c rest (some { s with line := s.line + lineEnds [c] }) := by
  refine ⟨[c], rest, none, .blank hc, ?_⟩
  rw [reached, if_neg nofun, ← h.curr, ← hnew, ← hpending]

/-- A stray character is taken with all its bytes. -/
theorem finds_stray {bs : List UInt8} (hbytes : s.bytes = encode (pre ++ c :: rest))
    (hstart : s.start = (encode pre).length) (hbehind : s.bytes.drop s.curr = bs ++ encode rest)
    (hbs : ∀ b ∈ bs, isContinuation b) (hcurr : s.curr + bs.length = (encode (pre ++ [c])).length)
    (hnew : s.literal = none) (hblank : isBlank c = false)
    (hfirst : firstPiece c rest = (.lexeme .illegal [c], rest)) :
    Finds s pre c rest s.illegal := by
  have hline : lineEnds [c] = 0 := by
    rw [lineEnds, List.count_eq_zero, List.mem_singleton]
    rintro rfl
    cases hblank
  refine .lexeme hfirst ?_
  rw [illegal_eq hbytes hstart hbehind hbs hcurr, reached_eq (k := .illegal) (by decide) hnew hline]

/-- Behind an ASCII character, the scanner finds what the text has there. -/
theorem finds_behind (h : At s (pre ++ [c]) rest) (hstart : s.start = (encode pre).length)
    (hnew : s.literal = none) (hpending : s.pending = none) : Finds s pre c rest (s.behind c) := by
  unfold behind
  split
  next => exact finds_operator h rfl rfl (by decide) hnew
  next => exact finds_operator h rfl rfl (by decide) hnew
  next => exact finds_operator h rfl rfl (by decide) hnew
  next => exact finds_operator h rfl rfl (by decide) hnew
  next => exact finds_blank h rfl hnew hpending
  next => exact finds_blank h rfl hnew hpending
  next => exact finds_blank h rfl hnew hpending
  next => exact finds_blank h rfl hnew hpending
  next =>
    rcases slash_eq h hnew hpending with ⟨text, after, hpiece, hresult⟩ | ⟨hpiece, hresult⟩
    · exact ⟨text, after, none, .of_piece hpiece, hresult⟩
    · exact .lexeme hpiece hresult
  next =>
    obtain ⟨k, text, after, hpiece⟩ := string_lexeme rest
    exact .lexeme hpiece (string_eq h hpiece hnew)
  next hplus hminus hbang hassign hspace hreturn htab hline hslash hquote =>
    split
    next hdigit =>
      obtain ⟨k, text, after, hpiece⟩ := number_lexeme c rest
      exact .lexeme ((firstPiece_digit hdigit).trans hpiece) (congrArg some (number_eq h hdigit hnew hpiece))
    next hdigit =>
    split
    next hword => exact .lexeme (firstPiece_word hword) (word_eq h hstart hword hnew rfl)
    next hword =>
    have hblank : isBlank c = false := by
      simp only [isBlank, Bool.or_eq_false_iff, beq_eq_false_iff_ne]
      exact ⟨⟨⟨hspace, htab⟩, hreturn⟩, hline⟩
    have hdigit : c.isDigit = false := by simpa using hdigit
    have hword : startsWord c = false := by simpa using hword
    split
    next k hsingle =>
      have hdouble (d : Char) : doubleKind c d = none := by
        unfold doubleKind
        split
        · exact absurd rfl hplus
        · exact absurd rfl hminus
        · exact absurd rfl hbang
        · exact absurd rfl hassign
        · rfl
      have hpiece : symbol c rest = (.lexeme k [c], rest) := by
        unfold symbol
        cases rest with
        | nil => simp [hsingle]
        | cons d rest => simp [hdouble, hsingle]
      exact .lexeme ((firstPiece_symbol hblank hquote hdigit hword hslash).trans hpiece)
        (congrArg some (found_eq h hsingle hnew))
    next hsingle =>
      have hbytes : s.bytes = encode (pre ++ c :: rest) := by
        rw [h.bytes]
        simp
      have hbs : ∀ b ∈ ([] : List UInt8), isContinuation b := nofun
      have hpiece : firstPiece c rest = (.lexeme .illegal [c], rest) :=
        firstPiece_stray hblank hquote hdigit hword hsingle
      exact finds_stray hbytes hstart h.drop hbs h.curr hnew hblank hpiece

/-- No byte of a longer character has a meaning. -/
theorem behind_other {e : Char} (he : ¬ Ascii e) (s : ByteScanner) : s.behind e = s.illegal := by
  unfold behind
  split
  iterate 10 next => exact absurd (by decide) he
  split
  next hdigit => exact absurd (asciiClass_isDigit e hdigit) he
  split
  next hword => exact absurd (asciiClass_continuesWord e (continuesWord_of_startsWord hword)) he
  split
  next hsingle => exact absurd (ascii_singleKind hsingle) he
  next => rfl

theorem At.advance {b : UInt8} {bs : List UInt8} (h : At s pre (c :: rest)) (hb : String.utf8EncodeChar c = b :: bs) :
    s.advance = some (.ofUInt8 b, s.second) := by
  have hget : s.bytes[s.curr]? = some b := by
    rw [← List.head?_drop, h.drop, encode_cons, hb]
    rfl
  unfold ByteScanner.advance
  rw [hget]
  rfl

theorem scanToken_eq (h : At s pre (c :: rest)) (hstart : s.start = s.curr) (hnew : s.literal = none)
    (hpending : s.pending = none) : Finds s pre c rest s.scanToken := by
  have hstart : s.second.start = (encode pre).length := hstart.trans h.curr
  by_cases hc : Ascii c
  · have hscan : s.scanToken = s.second.behind c := by
      unfold scanToken
      rw [h.advance (utf8EncodeChar_ascii hc), ofUInt8_ascii hc]
      rfl
    rw [hscan]
    exact finds_behind (h.second hc) hstart hnew hpending
  · obtain ⟨b, bs, hb, hlead, hbs⟩ := utf8EncodeChar_multiple hc
    have he : ¬ Ascii (Char.ofUInt8 b) := by
      intro he
      have he : b.toNat < 128 := he
      omega
    have hscan : s.scanToken = s.second.illegal := by
      unfold scanToken
      rw [h.advance hb]
      exact behind_other he s.second
    have hbytes : s.second.bytes = encode (pre ++ c :: rest) := h.bytes
    have hbehind : s.second.bytes.drop s.second.curr = bs ++ encode rest := by
      show s.bytes.drop (s.curr + 1) = _
      rw [← List.drop_drop, h.drop, encode_cons, hb]
      rfl
    have hcurr : s.second.curr + bs.length = (encode (pre ++ [c])).length := by
      show s.curr + 1 + bs.length = _
      rw [h.curr, encode_append, List.length_append, encode_cons, hb]
      simp only [encode_nil, List.append_nil, List.length_cons]
      omega
    have hblank : isBlank c = false := by
      rw [← Bool.not_eq_true]
      intro h
      simp only [isBlank, Bool.or_eq_true, beq_iff_eq] at h
      rcases h with ((rfl | rfl) | rfl) | rfl
      all_goals exact hc (by decide)
    have hquote : c ≠ '"' := by
      rintro rfl
      exact hc (by decide)
    have hdigit : c.isDigit = false := by
      rw [← Bool.not_eq_true]
      exact fun h => hc (asciiClass_isDigit c h)
    have hword : startsWord c = false := by
      rw [← Bool.not_eq_true]
      exact fun h => hc (asciiClass_continuesWord c (continuesWord_of_startsWord h))
    have hsingle : singleKind c = none := by
      rw [Option.eq_none_iff_forall_ne_some]
      exact fun k h => hc (ascii_singleKind h)
    rw [hscan]
    exact finds_stray hbytes hstart hbehind hbs hcurr hnew hblank (firstPiece_stray hblank hquote hdigit hword hsingle)

/-! ## All tokens -/

/-- The tokens that are still to come: those of the rest of the source, or none. -/
inductive Ready (s : ByteScanner) : List Token → Prop
  | before {pre cs : List Char} : At s pre cs → Ready s (tokensAt s.line cs)
  | done : s.bytes.length < s.curr → Ready s []

/-- A call of `next` as it goes on behind a lexeme or layout. -/
theorem next_of_scanToken (h : s.curr < s.bytes.length)
    (hscan : scanToken { s with start := s.curr, pending := none, literal := none } = some s') :
    s.next =
      match s'.pending with
      | some kind => do
        let text ← s'.text
        some (some ⟨kind, text, s.line⟩, { s' with pending := none, literal := none })
      | none => s'.next := by
  rw [next, dif_pos (Nat.le_of_lt h), if_neg (Nat.ne_of_lt h)]
  split
  next heq =>
    rw [hscan] at heq
    cases heq
  next s₁ heq =>
    rw [hscan] at heq
    cases heq
    rfl

/-- A call of `next` takes the first token there is. -/
theorem next_at (h : At s pre cs) :
    ∃ s', s.next = some ((tokensAt s.line cs).head?, s') ∧ Ready s' (tokensAt s.line cs).tail := by
  induction hn : cs.length using Nat.strongRecOn generalizing s pre cs with
  | ind n ih =>
    cases cs with
    | nil =>
      have hend : s.curr = s.bytes.length := by
        rw [h.length]
        rfl
      rw [next, dif_pos (Nat.le_of_eq hend), if_pos hend, tokensAt_nil]
      exact ⟨_, rfl, .done (by simp [hend])⟩
    | cons c rest =>
      have hmore : s.curr < s.bytes.length := by
        have := List.length_pos_iff.2 (encode_ne_nil (List.cons_ne_nil c rest))
        rw [h.length]
        omega
      let new : ByteScanner := { s with start := s.curr, pending := none, literal := none }
      have hnew : At new pre (c :: rest) := ⟨h.bytes, h.curr⟩
      obtain ⟨text, after, kind, hlexed, hscan⟩ := scanToken_eq hnew rfl rfl rfl
      have hbytes : new.bytes = encode (pre ++ (text ++ after)) := by rw [hnew.bytes, hlexed.split]
      have hbehind : At (new.reached pre text kind) (pre ++ text) after :=
        At.move (s := new) (by rw [← hlexed.split]; exact hnew) rfl rfl
      rw [next_of_scanToken hmore hscan, hlexed.tokens s.line]
      cases kind with
      | none =>
        have hlength : after.length < n := by
          have := List.length_pos_iff.2 hlexed.nonempty
          rw [← hn, hlexed.split, List.length_append]
          omega
        exact ih after.length hlength hbehind rfl
      | some k =>
        have hliteral : (new.reached pre text (some k)).text = some (Scan.literal k text) := by
          by_cases hk : k = .str
          · subst hk
            rfl
          · have hplain : (new.reached pre text (some k)).literal = none := if_neg (by simpa using hk)
            unfold ByteScanner.text
            rw [hplain, Scan.literal, if_neg hk]
            exact slice_start (s := new.reached pre text (some k)) hbytes h.curr rfl
        let emptied : ByteScanner := { new.reached pre text (some k) with pending := none, literal := none }
        have hemptied : At emptied (pre ++ text) after := ⟨hbehind.bytes, hbehind.curr⟩
        refine ⟨emptied, ?_, .before hemptied⟩
        show ((new.reached pre text (some k)).text >>= _) = _
        rw [hliteral]
        rfl

/-- A call of `next` gives the first of the tokens that are to come, if there is one. -/
theorem next_eq {tokens : List Token} (h : Ready s tokens) :
    ∃ s', s.next = some (tokens.head?, s') ∧ Ready s' tokens.tail := by
  cases h with
  | before h => exact next_at h
  | done h =>
    refine ⟨s, ?_, .done h⟩
    rw [next, dif_neg (Nat.not_le_of_lt h)]
    rfl

theorem call_ready {tokens : List Token} (n : Nat) (h : Ready s tokens) : s.call n = some tokens[n]? := by
  induction n generalizing s tokens with
  | zero =>
    obtain ⟨s', hnext, -⟩ := next_eq h
    rw [call, hnext, ← List.head?_eq_getElem?]
    rfl
  | succ n ih =>
    obtain ⟨s', hnext, htail⟩ := next_eq h
    rw [call, hnext]
    show s'.call n = _
    rw [ih htail, List.getElem?_tail]

/-- The calls of `next` give the tokens of the source, one after the other, and nothing behind the last one. No index is
out of range and no slice cuts a character. -/
theorem call_eq (source : String) (n : Nat) : (new source).call n = some (scan source)[n]? := by
  have hat : At (new source) [] source.toList := ⟨toByteArray_eq source, rfl⟩
  exact call_ready n (.before hat)

end ByteScanner

end Pron

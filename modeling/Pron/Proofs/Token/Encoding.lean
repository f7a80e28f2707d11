import Pron.Proofs.Token.Lexeme
import Pron.Token.ByteScan

/-!
# The bytes of a text

`encode cs` are the bytes of the characters `cs`. An ASCII character is one byte; every other character starts with a
byte from 192 on, and the bytes inside it are from 128 to 191. So ASCII characters are found in the bytes where they are
in the text: `takeWhile_encode`, `find_encode`, and a position between two characters is told from one inside a
character.
-/

namespace Pron

/-- The bytes of characters. -/
def encode (cs : List Char) : List UInt8 := cs.flatMap String.utf8EncodeChar

namespace Encoding

variable {c d : Char} {cs after : List Char} {b : UInt8} {p : Char → Bool}

@[simp] theorem encode_nil : encode [] = [] := rfl

theorem encode_cons : encode (c :: cs) = String.utf8EncodeChar c ++ encode cs := rfl

theorem encode_append (cs after : List Char) : encode (cs ++ after) = encode cs ++ encode after := List.flatMap_append

/-- The bytes of a string are those of its characters. -/
theorem toByteArray_eq (source : String) : source.toByteArray.data.toList = encode source.toList := by
  rw [← String.utf8Encode_toList, List.utf8Encode, List.data_toByteArray, List.toList_toArray]
  rfl

/-- The bytes of characters are read as these characters. -/
theorem fromUTF8?_encode (cs : List Char) : String.fromUTF8? (encode cs).toByteArray = some (String.ofList cs) := by
  have hvalid : (encode cs).toByteArray.IsValidUTF8 := ⟨cs, rfl⟩
  rw [String.fromUTF8?, dif_pos hvalid]
  rfl

/-! ## One character -/

/-- The characters of one byte. -/
def Ascii (c : Char) : Prop := c.toNat < 128

instance : DecidablePred Ascii := fun c => inferInstanceAs (Decidable (c.toNat < 128))

theorem isContinuation_iff : ByteScanner.isContinuation b ↔ 128 ≤ b.toNat ∧ b.toNat < 192 := by
  have hall : ∀ n : Fin 256, ByteScanner.isContinuation (.ofNat n.val) = decide (128 ≤ n.val ∧ n.val < 192) := by
    decide +kernel
  have := hall ⟨b.toNat, b.toNat_lt⟩
  rw [UInt8.ofNat_toNat] at this
  rw [this, decide_eq_true_iff]

theorem toNat_ofUInt8 (b : UInt8) : (Char.ofUInt8 b).toNat = b.toNat := rfl

theorem utf8EncodeChar_ascii (hc : Ascii c) : String.utf8EncodeChar c = [.ofNat c.toNat] := by
  exact if_pos (Nat.le_of_lt_succ hc)

theorem ofUInt8_ascii (hc : Ascii c) : Char.ofUInt8 (.ofNat c.toNat) = c := by
  rw [← Char.toNat_inj, toNat_ofUInt8, UInt8.toNat_ofNat', Nat.mod_eq_of_lt (Nat.lt_trans hc (by decide))]

/-- The first byte of a longer character is no continuation, the others are. -/
theorem utf8EncodeChar_multiple (hc : ¬ Ascii c) : ∃ b bs, String.utf8EncodeChar c = b :: bs ∧ 192 ≤ b.toNat ∧
    ∀ x ∈ bs, ByteScanner.isContinuation x := by
  have hlead (n k a : Nat) (hk : 0 < k) (ha : 192 ≤ a) (hmax : a + k ≤ 256) :
      192 ≤ (UInt8.ofNat (n % k + a)).toNat := by
    have := Nat.mod_lt n hk
    rw [UInt8.toNat_ofNat', Nat.mod_eq_of_lt (by omega)]
    omega
  have htail (n : Nat) : ByteScanner.isContinuation (.ofNat (n % 64 + 128)) := by
    rw [isContinuation_iff, UInt8.toNat_ofNat']
    omega
  simp only [String.utf8EncodeChar]
  split
  next h => exact absurd (Nat.lt_succ_of_le h) hc
  split
  next => exact ⟨_, _, rfl, hlead _ 32 192 (by decide) (by decide) (by decide),
    List.forall_mem_cons.2 ⟨htail _, List.forall_mem_nil _⟩⟩
  split
  next => exact ⟨_, _, rfl, hlead _ 16 224 (by decide) (by decide) (by decide),
    List.forall_mem_cons.2 ⟨htail _, List.forall_mem_cons.2 ⟨htail _, List.forall_mem_nil _⟩⟩⟩
  next => exact ⟨_, _, rfl, hlead _ 8 240 (by decide) (by decide) (by decide),
    List.forall_mem_cons.2 ⟨htail _, List.forall_mem_cons.2 ⟨htail _,
      List.forall_mem_cons.2 ⟨htail _, List.forall_mem_nil _⟩⟩⟩⟩

/-- The first byte of a character is no continuation. -/
theorem encode_head (hb : (encode cs).head? = some b) : ByteScanner.isContinuation b = false := by
  cases cs with
  | nil => cases hb
  | cons c cs =>
    rw [← Bool.not_eq_true, isContinuation_iff]
    rw [encode_cons] at hb
    by_cases hc : Ascii c
    · rw [utf8EncodeChar_ascii hc] at hb
      cases hb
      rw [UInt8.toNat_ofNat', Nat.mod_eq_of_lt (Nat.lt_trans hc (by decide))]
      exact fun h => Nat.not_le_of_lt hc h.1
    · obtain ⟨lead, bs, heq, hlead, -⟩ := utf8EncodeChar_multiple hc
      rw [heq] at hb
      cases hb
      omega

theorem encode_ne_nil (hcs : cs ≠ []) : encode cs ≠ [] := by
  cases cs with
  | nil => exact absurd rfl hcs
  | cons c cs => simp [encode_cons]

/-! ## ASCII characters among the bytes -/

/-- A class of ASCII characters. -/
def AsciiClass (p : Char → Bool) : Prop := ∀ c, p c → Ascii c

/-- No byte of a longer character is in a class of ASCII characters. -/
theorem class_eq_false (hp : AsciiClass p) (hc : ¬ Ascii c) (hb : b ∈ String.utf8EncodeChar c) :
    p (.ofUInt8 b) = false := by
  rw [← Bool.not_eq_true]
  intro h
  have hsmall : b.toNat < 128 := hp _ h
  obtain ⟨lead, bs, heq, hlead, hbs⟩ := utf8EncodeChar_multiple hc
  rw [heq] at hb
  rcases List.mem_cons.1 hb with rfl | hb
  · omega
  · have := (isContinuation_iff.1 (hbs b hb)).1
    omega

/-- A run of ASCII characters is as long in the bytes as it is in the text. -/
theorem takeWhile_encode (hp : AsciiClass p) (cs : List Char) :
    (encode cs).takeWhile (fun b => p (.ofUInt8 b)) = encode (cs.takeWhile p) := by
  induction cs with
  | nil => rfl
  | cons c cs ih =>
    rw [encode_cons]
    by_cases hc : Ascii c
    · rw [utf8EncodeChar_ascii hc]
      simp only [List.cons_append, List.nil_append, List.takeWhile_cons, ofUInt8_ascii hc]
      split
      · rw [ih, encode_cons, utf8EncodeChar_ascii hc]
        rfl
      · rfl
    · have hnot : p c = false := by
        rw [← Bool.not_eq_true]
        exact fun h => hc (hp c h)
      have hbytes := fun b => class_eq_false (b := b) hp hc
      obtain ⟨lead, bs, heq, -⟩ := utf8EncodeChar_multiple hc
      rw [heq] at hbytes ⊢
      rw [List.cons_append, List.takeWhile_cons_of_neg (by simp [hbytes lead]),
        List.takeWhile_cons_of_neg (by simp [hnot])]
      rfl

/-- The byte of an ASCII character. -/
def byte (c : Char) : UInt8 := .ofNat c.toNat

theorem utf8EncodeChar_byte (hc : Ascii c) : String.utf8EncodeChar c = [byte c] := utf8EncodeChar_ascii hc

theorem byte_inj (hc : Ascii c) (hd : Ascii d) : byte c = byte d ↔ c = d := by
  refine ⟨fun h => ?_, fun h => by rw [h]⟩
  rw [← ofUInt8_ascii hc, ← ofUInt8_ascii hd]
  exact congrArg Char.ofUInt8 h

theorem byte_not_mem (hd : Ascii d) (hc : ¬ Ascii c) : byte d ∉ String.utf8EncodeChar c := by
  intro hmem
  have hclass : AsciiClass (· == d) := by
    intro e he
    rwa [beq_iff_eq.1 he]
  have := class_eq_false hclass hc hmem
  rw [byte, ofUInt8_ascii hd, beq_self_eq_true] at this
  cases this

theorem byte_not_mem_of_ne (hd : Ascii d) (hne : c ≠ d) : byte d ∉ String.utf8EncodeChar c := by
  by_cases hc : Ascii c
  · rw [utf8EncodeChar_byte hc, List.mem_singleton, byte_inj hd hc]
    exact hne.symm
  · exact byte_not_mem hd hc

theorem count_encode (cs : List Char) : (encode cs).count (byte '\n') = Scan.lineEnds cs := by
  induction cs with
  | nil => rfl
  | cons c cs ih =>
    rw [encode_cons, List.count_append, ih, Scan.lineEnds, Scan.lineEnds, List.count_cons, Nat.add_comm]
    congr 1
    have hline : Ascii '\n' := by decide
    by_cases hc : Ascii c
    · rw [utf8EncodeChar_byte hc, List.count_singleton]
      simp only [beq_iff_eq, byte_inj hc hline]
    · rw [List.count_eq_zero.2 (byte_not_mem hline hc), if_neg]
      rw [beq_iff_eq]
      rintro rfl
      exact hc hline

/-! ## Searching -/

theorem find_append_of_not_mem {needle xs : List UInt8} {x : UInt8} (hx : needle.head? = some x) (hxs : x ∉ xs)
    (ys : List UInt8) :
    ByteScanner.find needle (xs ++ ys) = (ByteScanner.find needle ys).map (· + xs.length) := by
  induction xs with
  | nil => simp
  | cons b xs ih =>
    obtain ⟨hb, hxs⟩ := not_or.1 (mt List.mem_cons.2 hxs)
    cases needle with
    | nil => cases hx
    | cons n needle =>
      cases hx
      rw [List.cons_append, ByteScanner.find, List.isPrefixOf_cons_cons, beq_false_of_ne hb, Bool.false_and,
        if_neg nofun, ih hxs, Option.map_map]
      rfl

/-- An ASCII character is found where it is in the text. -/
theorem find_char (hd : Ascii d) (cs : List Char) : ByteScanner.find [byte d] (encode cs) =
    if d ∈ cs then some (encode (cs.takeWhile (· != d))).length else none := by
  induction cs with
  | nil => rfl
  | cons c cs ih =>
    rw [encode_cons]
    by_cases heq : c = d
    · subst heq
      rw [utf8EncodeChar_byte hd]
      simp [ByteScanner.find]
    · rw [find_append_of_not_mem rfl (byte_not_mem_of_ne hd heq), ih]
      have hmem : d ∈ c :: cs ↔ d ∈ cs := by simp [Ne.symm heq]
      rw [List.takeWhile_cons_of_pos (by simpa using heq)]
      simp only [hmem, encode_cons, List.length_append]
      split
      · simp [Nat.add_comm]
      · rfl

/-- The bytes start with an ASCII character only where the text does. -/
theorem head_ne (hd : Ascii d) (hcs : cs.head? ≠ some d) : (encode cs).head? ≠ some (byte d) := by
  cases cs with
  | nil => nofun
  | cons c cs =>
    have hne : c ≠ d := by simpa using hcs
    have hmem := byte_not_mem_of_ne hd hne
    have hnonempty : String.utf8EncodeChar c ≠ [] := String.utf8EncodeChar_ne_nil
    rw [encode_cons]
    cases heq : String.utf8EncodeChar c with
    | nil => exact absurd heq hnonempty
    | cons b bs =>
      rw [heq] at hmem
      rintro ⟨⟩
      exact hmem (List.mem_cons_self ..)

/-- The end of a block comment is found where it is in the text; a comment that is not closed goes to the end. -/
theorem find_blockEnd (cs : List Char) :
    ((ByteScanner.find [byte '*', byte '/'] (encode cs)).map (· + 2)).getD (encode cs).length =
      (encode (Scan.splitBlockComment cs).1).length := by
  have hstar : Ascii '*' := by decide
  have hslash : Ascii '/' := by decide
  fun_induction Scan.splitBlockComment cs with
  | case1 rest => rfl
  | case2 c rest hother inside after hsplit ih =>
    rw [hsplit] at ih
    -- The comment does not end at `c`, whose bytes are passed over.
    have hpass : ByteScanner.find [byte '*', byte '/'] (String.utf8EncodeChar c ++ encode rest) =
        (ByteScanner.find [byte '*', byte '/'] (encode rest)).map (· + (String.utf8EncodeChar c).length) := by
      by_cases hc : c = '*'
      · have hrest : rest.head? ≠ some '/' := by
          intro hhead
          obtain ⟨behind, rfl⟩ := List.head?_eq_some_iff.1 hhead
          exact hother behind hc rfl
        have hbytes := head_ne hslash hrest
        rw [hc, utf8EncodeChar_byte hstar, List.cons_append, List.nil_append, ByteScanner.find, if_neg]
        · rfl
        · cases heq : encode rest with
          | nil => simp [List.isPrefixOf]
          | cons b bs =>
            rw [heq] at hbytes
            simp only [List.isPrefixOf, beq_self_eq_true, Bool.true_and, Bool.and_true, beq_iff_eq]
            rintro rfl
            exact hbytes rfl
      · exact find_append_of_not_mem rfl (byte_not_mem_of_ne hstar hc) _
    rw [encode_cons, encode_cons, hpass, List.length_append, List.length_append, ← ih]
    cases ByteScanner.find [byte '*', byte '/'] (encode rest) with
    | none => rfl
    | some n =>
      simp only [Option.map_some, Option.getD_some]
      omega
  | case3 => rfl

end Encoding

end Pron

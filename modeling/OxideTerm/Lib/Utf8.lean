import OxideTerm.Lib.Bytes
import OxideTerm.Lib.Text

/-!
# Text as bytes

The bytes of a text in UTF-8, and the text of any bytes, where a replacement character stands for
each part that is not a character.
-/

namespace OxideTerm.Lib.Text

/-- `str::as_bytes`. -/
def utf8Bytes (text : List Char) : Bytes := text.flatMap String.utf8EncodeChar

/-- How many bytes follow the first byte of a character, and which may come second. -/
def utf8Lead (first : UInt8) : Option (Nat × UInt8 × UInt8) :=
  if 0xc2 ≤ first ∧ first ≤ 0xdf then some (1, 0x80, 0xbf)
  else if first = 0xe0 then some (2, 0xa0, 0xbf)
  else if first = 0xed then some (2, 0x80, 0x9f)
  else if 0xe1 ≤ first ∧ first ≤ 0xef then some (2, 0x80, 0xbf)
  else if first = 0xf0 then some (3, 0x90, 0xbf)
  else if 0xf1 ≤ first ∧ first ≤ 0xf3 then some (3, 0x80, 0xbf)
  else if first = 0xf4 then some (3, 0x80, 0x8f)
  else none

/-- How many bytes that are no character are replaced together. -/
def invalidLength : Bytes → Nat
  | first :: second :: rest =>
    match utf8Lead first with
    | none => 1
    | some (more, low, high) =>
      if second < low ∨ high < second then 1
      else 2 + ((rest.take (more - 2)).takeWhile fun byte => 0x80 ≤ byte ∧ byte ≤ 0xbf).length
  | _ => 1

/-- The first character, and how many bytes stand for it. -/
def lossyChar (bytes : Bytes) : Char × Nat :=
  match bytes.toByteArray.utf8DecodeChar? 0 with
  | some c => (c, c.utf8Size)
  | none => (Char.ofNat 0xfffd, invalidLength bytes)

def fromUtf8LossyFrom : Nat → Bytes → List Char
  | 0, _ => []
  | _ + 1, [] => []
  | rounds + 1, bytes =>
    (lossyChar bytes).1 :: fromUtf8LossyFrom rounds (bytes.drop (lossyChar bytes).2)

/-- `String::from_utf8_lossy`. -/
def fromUtf8Lossy (bytes : Bytes) : List Char := fromUtf8LossyFrom bytes.length bytes

theorem utf8Bytes_cons (c : Char) (text : List Char) :
    utf8Bytes (c :: text) = String.utf8EncodeChar c ++ utf8Bytes text := List.flatMap_cons

theorem lossyChar_utf8 (c : Char) (rest : Bytes) :
    lossyChar (String.utf8EncodeChar c ++ rest) = (c, c.utf8Size) := by
  have hdecode : (String.utf8EncodeChar c ++ rest).toByteArray.utf8DecodeChar? 0 = some c := by
    rw [List.toByteArray_append]
    exact ByteArray.utf8DecodeChar?_utf8EncodeChar_append
  rw [lossyChar, hdecode]

theorem fromUtf8LossyFrom_utf8Bytes :
    ∀ (text : List Char) (rounds : Nat), (utf8Bytes text).length ≤ rounds →
      fromUtf8LossyFrom rounds (utf8Bytes text) = text
  | [], 0, _ => rfl
  | [], _ + 1, _ => rfl
  | c :: text, rounds, hrounds => by
    have hsize : (String.utf8EncodeChar c).length = c.utf8Size := String.length_utf8EncodeChar c
    have hpos : 0 < c.utf8Size := c.utf8Size_pos
    rw [utf8Bytes_cons, List.length_append] at hrounds
    rw [utf8Bytes_cons]
    obtain ⟨rounds, rfl⟩ : ∃ k, rounds = k + 1 := ⟨rounds - 1, by omega⟩
    obtain ⟨byte, bytes, hbytes⟩ := List.exists_cons_of_length_pos (hsize ▸ hpos)
    have hchar := lossyChar_utf8 c (utf8Bytes text)
    have hdrop : (String.utf8EncodeChar c ++ utf8Bytes text).drop c.utf8Size = utf8Bytes text := by
      rw [← hsize, List.drop_left]
    rw [hbytes, List.cons_append] at hchar hdrop ⊢
    rw [fromUtf8LossyFrom, hchar, hdrop,
      fromUtf8LossyFrom_utf8Bytes text rounds (by omega)]
    exact List.cons_ne_nil _ _

/-- **Reading back a text.** -/
theorem fromUtf8Lossy_utf8Bytes (text : List Char) : fromUtf8Lossy (utf8Bytes text) = text :=
  fromUtf8LossyFrom_utf8Bytes text _ (Nat.le_refl _)

/-- The text that is written as these bytes, if there is one. -/
def ofUtf8 (bytes : Bytes) : Option (List Char) :=
  if utf8Bytes (fromUtf8Lossy bytes) = bytes then some (fromUtf8Lossy bytes) else none

theorem utf8Bytes_ne_nil {text : List Char} (h : text ≠ []) : utf8Bytes text ≠ [] := by
  obtain ⟨c, rest, rfl⟩ := List.exists_cons_of_ne_nil h
  rw [utf8Bytes_cons, ne_eq, List.append_eq_nil_iff, not_and_or]
  refine .inl fun h => ?_
  have hlength := String.length_utf8EncodeChar c
  rw [h] at hlength
  exact absurd hlength (Nat.ne_of_lt c.utf8Size_pos)

/-! ## Bytes of one character -/

theorem ofNat_ne_ofNat {m n : Nat} (hne : m ≠ n) (hm : m < 256) (hn : n < 256) :
    UInt8.ofNat m ≠ UInt8.ofNat n := by
  intro h
  have hvalue := congrArg UInt8.toNat h
  rw [UInt8.toNat_ofNat_of_lt' hm, UInt8.toNat_ofNat_of_lt' hn] at hvalue
  exact hne hvalue

/-- Only one character has an ASCII byte among its bytes. -/
theorem ascii_notMem_utf8EncodeChar {n : Nat} (hn : n < 128) {c : Char} (hc : c ≠ Char.ofNat n) :
    UInt8.ofNat n ∉ String.utf8EncodeChar c := by
  have hne : n ≠ c.val.toNat := by
    rintro rfl
    exact hc (Char.ofNat_toNat c).symm
  have hbyte : ∀ m, n ≠ m → m < 256 → UInt8.ofNat n ≠ UInt8.ofNat m := fun m hm hlt =>
    ofNat_ne_ofNat hm (by omega) hlt
  unfold String.utf8EncodeChar
  simp only
  -- The first byte of a longer character and each that follows it have their high bit.
  split
  · next hone =>
    rw [List.mem_singleton]
    exact hbyte _ hne (by omega)
  · split
    · simp only [List.mem_cons, List.not_mem_nil, or_false, not_or]
      exact ⟨hbyte _ (by omega) (by omega), hbyte _ (by omega) (by omega)⟩
    · split
      · simp only [List.mem_cons, List.not_mem_nil, or_false, not_or]
        exact ⟨hbyte _ (by omega) (by omega), hbyte _ (by omega) (by omega),
          hbyte _ (by omega) (by omega)⟩
      · simp only [List.mem_cons, List.not_mem_nil, or_false, not_or]
        exact ⟨hbyte _ (by omega) (by omega), hbyte _ (by omega) (by omega),
          hbyte _ (by omega) (by omega), hbyte _ (by omega) (by omega)⟩

/-- **A text has an ASCII byte only if it has this character.** -/
theorem ascii_notMem_utf8Bytes {n : Nat} (hn : n < 128) {text : List Char}
    (h : Char.ofNat n ∉ text) : UInt8.ofNat n ∉ utf8Bytes text := by
  intro hmem
  obtain ⟨c, hc, hbyte⟩ := List.mem_flatMap.mp hmem
  exact ascii_notMem_utf8EncodeChar hn (fun heq => h (heq ▸ hc)) hbyte

/-! ## Zero bytes -/

/-- A text has a zero byte only if it has the character zero. -/
theorem zero_notMem_utf8Bytes {text : List Char} (h : Char.ofNat 0 ∉ text) :
    (0 : UInt8) ∉ utf8Bytes text :=
  ascii_notMem_utf8Bytes (by decide) h

/-- Decoding makes the character zero of no other byte. -/
theorem lossyChar_ne_zero {bytes : Bytes} (h : (0 : UInt8) ∉ bytes) :
    (lossyChar bytes).1 ≠ Char.ofNat 0 := by
  unfold lossyChar
  split
  · next c hc =>
    rintro rfl
    obtain ⟨rest, hrest⟩ := ByteArray.exists_of_utf8DecodeChar?_eq_some hc
    have hzero : String.utf8EncodeChar (Char.ofNat 0) = [0] := by decide
    have hlist := congrArg (fun b : ByteArray => b.data.toList) hrest
    simp only [ByteArray.data_append, Array.toList_append, List.data_toByteArray, hzero] at hlist
    rw [hlist] at h
    exact h (List.mem_append_left _ List.mem_cons_self)
  · show Char.ofNat 0xfffd ≠ Char.ofNat 0
    decide

theorem zero_notMem_fromUtf8LossyFrom :
    ∀ (rounds : Nat) {bytes : Bytes}, (0 : UInt8) ∉ bytes →
      Char.ofNat 0 ∉ fromUtf8LossyFrom rounds bytes
  | 0, _, _ => List.not_mem_nil
  | _ + 1, [], _ => List.not_mem_nil
  | rounds + 1, byte :: bytes, h => by
    rw [fromUtf8LossyFrom, List.mem_cons, not_or]
    · refine ⟨fun heq => lossyChar_ne_zero h heq.symm, zero_notMem_fromUtf8LossyFrom rounds ?_⟩
      exact fun hmem => h (List.mem_of_mem_drop hmem)
    · exact List.cons_ne_nil _ _

theorem zero_notMem_fromUtf8Lossy {bytes : Bytes} (h : (0 : UInt8) ∉ bytes) :
    Char.ofNat 0 ∉ fromUtf8Lossy bytes := zero_notMem_fromUtf8LossyFrom _ h

theorem takeWhile_ne_zero {name rest : Bytes} (hname : (0 : UInt8) ∉ name) :
    (name ++ [0] ++ rest).takeWhile (· ≠ 0) = name := by
  rw [List.append_assoc, List.takeWhile_append_of_pos]
  · simp
  · intro byte hbyte
    simpa using fun h : byte = 0 => hname (h ▸ hbyte)

/-! ## Words -/

/-- `char::is_whitespace`. -/
def isWhitespace (c : Char) : Bool :=
  (9 ≤ c.toNat ∧ c.toNat ≤ 13) ∨ (0x2000 ≤ c.toNat ∧ c.toNat ≤ 0x200a) ∨
    c.toNat ∈ [0x20, 0x85, 0xa0, 0x1680, 0x2028, 0x2029, 0x202f, 0x205f, 0x3000]

/-- The first part of `str::split_whitespace`. -/
def firstWord (text : List Char) : Option (List Char) :=
  match (text.dropWhile isWhitespace).takeWhile fun c => !isWhitespace c with
  | [] => none
  | word => some word

theorem firstWord_of_forall {word : List Char} (hword : word ≠ [])
    (hchars : ∀ c ∈ word, isWhitespace c = false) : firstWord word = some word := by
  obtain ⟨c, rest, rfl⟩ := List.exists_cons_of_ne_nil hword
  have hdrop : (c :: rest).dropWhile isWhitespace = c :: rest := by
    rw [List.dropWhile_cons, hchars c List.mem_cons_self]
    rfl
  have htake : (c :: rest).takeWhile (fun c => !isWhitespace c) = c :: rest := by
    rw [List.takeWhile_eq_self_iff]
    intro x hx
    rw [hchars x hx]
    rfl
  rw [firstWord, hdrop, htake]

theorem isWhitespace_of_isDigit {c : Char} (h : c.isDigit = true) : isWhitespace c = false := by
  have hrange : 48 ≤ c.toNat ∧ c.toNat ≤ 57 := by
    rw [Char.isDigit, Bool.and_eq_true, decide_eq_true_eq, decide_eq_true_eq] at h
    exact ⟨UInt32.le_iff_toNat_le.mp h.1, UInt32.le_iff_toNat_le.mp h.2⟩
  rw [isWhitespace, decide_eq_false_iff_not]
  simp only [List.mem_cons, List.not_mem_nil, or_false]
  omega

end OxideTerm.Lib.Text

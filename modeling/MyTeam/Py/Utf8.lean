import Mathlib.Data.List.Basic

/-!
# Decoding UTF-8 with replacement

`bytes.decode("utf-8", "replace")`: each longest start of a character that is not continued, and each
byte that cannot start one, gives a replacement character. A text that is cut into slices is
decoded to the same characters if every cut is between two characters, and a slice that starts within
a character gives more characters than it adds to the text.
-/

namespace MyTeam.Py.Utf8

/-- U+FFFD. -/
def replacement : Char := Char.ofNat 0xFFFD

/-- The start of a character: its bits so far, how many bytes are missing, and the range of the next one. -/
structure Partial where
  bits : ℕ
  missing : ℕ
  low : ℕ := 0x80
  high : ℕ := 0xBF

/-- What the first byte of a character says. -/
inductive Lead where
  | complete (c : Char)
  | opens (p : Partial)
  | invalid

/-- Read a first byte. The second byte is restricted after some, which excludes what is too long, a surrogate or too
large. -/
def lead (b : ℕ) : Lead :=
  if b < 0x80 then .complete (Char.ofNat b)
  else if b < 0xC2 then .invalid
  else if b < 0xE0 then .opens { bits := b % 32, missing := 1 }
  else if b = 0xE0 then .opens { bits := b % 16, missing := 2, low := 0xA0 }
  else if b = 0xED then .opens { bits := b % 16, missing := 2, high := 0x9F }
  else if b < 0xF0 then .opens { bits := b % 16, missing := 2 }
  else if b = 0xF0 then .opens { bits := b % 8, missing := 3, low := 0x90 }
  else if b < 0xF4 then .opens { bits := b % 8, missing := 3 }
  else if b = 0xF4 then .opens { bits := b % 8, missing := 3, high := 0x8F }
  else .invalid

/-- Decode, after the start of a character if there is one. -/
def decodeFrom : Option Partial → List UInt8 → List Char
  | none, [] => []
  | some _, [] => [replacement]
  | none, b :: rest =>
    match lead b.toNat with
    | .complete c => c :: decodeFrom none rest
    | .opens p => decodeFrom (some p) rest
    | .invalid => replacement :: decodeFrom none rest
  | some p, b :: rest =>
    if p.low ≤ b.toNat ∧ b.toNat ≤ p.high then
      if p.missing = 1 then Char.ofNat (p.bits * 64 + b.toNat % 64) :: decodeFrom none rest
      else decodeFrom (some { bits := p.bits * 64 + b.toNat % 64, missing := p.missing - 1 }) rest
    else
      replacement :: match lead b.toNat with
        | .complete c => c :: decodeFrom none rest
        | .opens p => decodeFrom (some p) rest
        | .invalid => replacement :: decodeFrom none rest

/-- Decode bytes. -/
def decode (bytes : List UInt8) : List Char := decodeFrom none bytes

/-- Encode a text. -/
def encode (text : List Char) : List UInt8 := text.flatMap String.utf8EncodeChar

/-- What the bytes of a character are read as, from its start or from within it. -/
inductive Spells (c : Char) : Option Partial → List UInt8 → Prop where
  | complete {b : UInt8} (first : lead b.toNat = .complete c) : Spells c none [b]
  | opens {b : UInt8} {rest : List UInt8} {p : Partial} (first : lead b.toNat = .opens p)
      (spells : Spells c (some p) rest) :
      Spells c none (b :: rest)
  | next {b : UInt8} {rest : List UInt8} {p : Partial} (within : p.low ≤ b.toNat ∧ b.toNat ≤ p.high)
      (more : p.missing ≠ 1)
      (spells : Spells c (some { bits := p.bits * 64 + b.toNat % 64, missing := p.missing - 1 }) rest) :
      Spells c (some p) (b :: rest)
  | last {b : UInt8} {p : Partial} (within : p.low ≤ b.toNat ∧ b.toNat ≤ p.high) (done : p.missing = 1)
      (value : Char.ofNat (p.bits * 64 + b.toNat % 64) = c) : Spells c (some p) [b]

/-- The first of three bytes. -/
theorem lead_of_three {b : ℕ} (hlow : 0xE0 ≤ b) (hhigh : b < 0xF0) :
    ∃ low high, lead b = .opens ⟨b % 16, 2, low, high⟩ ∧ (low = 0x80 ∨ b = 0xE0 ∧ low = 0xA0) ∧
    (high = 0xBF ∨ b = 0xED ∧ high = 0x9F) := by
  unfold lead
  rw [if_neg (by omega), if_neg (by omega), if_neg (by omega)]
  split
  next hfirst => exact ⟨_, _, rfl, Or.inr ⟨hfirst, rfl⟩, Or.inl rfl⟩
  next =>
    split
    next hsurrogates => exact ⟨_, _, rfl, Or.inl rfl, Or.inr ⟨hsurrogates, rfl⟩⟩
    next => exact ⟨_, _, rfl, Or.inl rfl, Or.inl rfl⟩

/-- The first of four bytes. -/
theorem lead_of_four {b : ℕ} (hlow : 0xF0 ≤ b) (hhigh : b ≤ 0xF4) :
    ∃ low high, lead b = .opens ⟨b % 8, 3, low, high⟩ ∧ (low = 0x80 ∨ b = 0xF0 ∧ low = 0x90) ∧
    (high = 0xBF ∨ b = 0xF4 ∧ high = 0x8F) := by
  unfold lead
  rw [if_neg (by omega), if_neg (by omega), if_neg (by omega), if_neg (by omega), if_neg (by omega), if_neg (by omega)]
  split
  next hfirst => exact ⟨_, _, rfl, Or.inr ⟨hfirst, rfl⟩, Or.inl rfl⟩
  next =>
    split
    next => exact ⟨_, _, rfl, Or.inl rfl, Or.inl rfl⟩
    next => exact ⟨_, _, if_pos (by omega), Or.inl rfl, Or.inr ⟨by omega, rfl⟩⟩

/-- The bytes of a character spell it. -/
theorem spells_encodeChar (c : Char) : Spells c none (String.utf8EncodeChar c) := by
  have hvalid : c.val.toNat < 0xD800 ∨ 0xDFFF < c.val.toNat ∧ c.val.toNat < 0x110000 := c.valid
  have hc : Char.ofNat c.val.toNat = c := Char.ofNat_toNat c
  have hbyte (n : ℕ) (h : n < 256) : (UInt8.ofNat n).toNat = n := by
    rw [UInt8.toNat_ofNat', Nat.mod_eq_of_lt h]
  unfold String.utf8EncodeChar
  dsimp only
  generalize c.val.toNat = v at hvalid hc
  have hlast : (UInt8.ofNat (v % 64 + 0x80)).toNat = v % 64 + 0x80 := hbyte _ (by omega)
  have hsecond : (UInt8.ofNat (v / 64 % 64 + 0x80)).toNat = v / 64 % 64 + 0x80 := hbyte _ (by omega)
  have hthird : (UInt8.ofNat (v / 4096 % 64 + 0x80)).toNat = v / 4096 % 64 + 0x80 := hbyte _ (by omega)
  split
  next hone =>
    refine .complete ?_
    rw [hbyte v (by omega), lead, if_pos (by omega), hc]
  next hmore =>
    split
    next htwo =>
      have hfirst : (UInt8.ofNat (v / 64 % 32 + 0xC0)).toNat = v / 64 % 32 + 0xC0 := hbyte _ (by omega)
      refine .opens (p := { bits := (v / 64 % 32 + 0xC0) % 32, missing := 1 }) ?_ (.last ?_ rfl ?_)
      · rw [hfirst, lead, if_neg (by omega), if_neg (by omega), if_pos (by omega)]
      · rw [hlast]
        dsimp only
        omega
      · rw [hlast, ← hc]
        congr 1
        dsimp only
        omega
    next hlong =>
      split
      next hthree =>
        have hfirst : (UInt8.ofNat (v / 4096 % 16 + 0xE0)).toNat = v / 4096 % 16 + 0xE0 := hbyte _ (by omega)
        obtain ⟨low, high, hlead, hlow, hhigh⟩ := lead_of_three (b := v / 4096 % 16 + 0xE0) (by omega) (by omega)
        refine .opens (by rw [hfirst, hlead]) (.next ?_ (by simp) (.last ?_ rfl ?_))
        · rw [hsecond]
          dsimp only
          omega
        · rw [hlast]
          dsimp only
          omega
        · rw [hlast, hsecond, ← hc]
          congr 1
          dsimp only
          omega
      next hfour =>
        have hfirst : (UInt8.ofNat (v / 262144 % 8 + 0xF0)).toNat = v / 262144 % 8 + 0xF0 := hbyte _ (by omega)
        obtain ⟨low, high, hlead, hlow, hhigh⟩ := lead_of_four (b := v / 262144 % 8 + 0xF0) (by omega) (by omega)
        refine .opens (by rw [hfirst, hlead]) (.next ?_ (by simp) (.next ?_ (by simp) (.last ?_ rfl ?_)))
        · rw [hthird]
          dsimp only
          omega
        · rw [hsecond]
          dsimp only
          omega
        · rw [hlast]
          dsimp only
          omega
        · rw [hlast, hsecond, hthird, ← hc]
          congr 1
          dsimp only
          omega

variable {c : Char} {start : Option Partial} {bytes rest : List UInt8} {text : List Char}

/-- A character is read back, and what follows after it. -/
theorem Spells.decodeFrom (h : Spells c start bytes) :
    decodeFrom start (bytes ++ rest) = c :: decodeFrom none rest := by
  induction h with
  | complete first => simp [Utf8.decodeFrom, first]
  | opens first spells ih => simp only [List.cons_append, Utf8.decodeFrom, first, ih]
  | next within more spells ih => rw [List.cons_append, Utf8.decodeFrom, if_pos within, if_neg more, ih]
  | last within done value =>
    rw [List.cons_append, Utf8.decodeFrom, if_pos within, if_pos done, value, List.nil_append]

/-- The start of a character gives one replacement character. -/
theorem Spells.decodeFrom_take (h : Spells c start bytes) {n : ℕ} (hn : n < bytes.length)
    (hstart : start = none → 0 < n) :
    Utf8.decodeFrom start (bytes.take n) = [replacement] := by
  induction h generalizing n with
  | complete first =>
    rw [List.length_singleton] at hn
    exact absurd (hstart rfl) (by omega)
  | @opens b tail p first spells ih =>
    obtain ⟨m, rfl⟩ := Nat.exists_eq_add_one.mpr (hstart rfl)
    simp only [List.take_succ_cons, Utf8.decodeFrom, first]
    exact ih (Nat.lt_of_succ_lt_succ hn) (fun h => by cases h)
  | @next b tail p within more spells ih =>
    cases n with
    | zero => rfl
    | succ m =>
      rw [List.take_succ_cons, Utf8.decodeFrom, if_pos within, if_neg more]
      exact ih (Nat.lt_of_succ_lt_succ hn) (fun h => by cases h)
  | last within done value =>
    rw [List.length_singleton, Nat.lt_one_iff] at hn
    rw [hn]
    rfl

/-- The bytes of a character after the first cannot start one. -/
theorem lead_of_mem_tail {b : UInt8} (h : b ∈ (String.utf8EncodeChar c).tail) : lead b.toNat = .invalid := by
  have hinvalid (n : ℕ) : lead (UInt8.ofNat (n % 64 + 0x80)).toNat = .invalid := by
    rw [UInt8.toNat_ofNat', Nat.mod_eq_of_lt (by omega), lead, if_neg (by omega), if_pos (by omega)]
  unfold String.utf8EncodeChar at h
  dsimp only at h
  split at h
  · cases h
  split at h
  · obtain rfl := List.mem_singleton.mp h
    exact hinvalid _
  split at h
  all_goals
    simp only [List.tail_cons, List.mem_cons, List.not_mem_nil, or_false] at h
    rcases h with rfl | rfl | rfl <;> exact hinvalid _

/-- Bytes that cannot start a character. -/
theorem decode_append_of_invalid (h : ∀ b ∈ bytes, lead b.toNat = .invalid) :
    decode (bytes ++ rest) = List.replicate bytes.length replacement ++ decode rest := by
  induction bytes with
  | nil => rfl
  | cons b bytes ih =>
    have hrest : Utf8.decodeFrom none (bytes ++ rest) = _ := ih fun x hx => h x (List.mem_cons_of_mem _ hx)
    rw [decode, List.cons_append, Utf8.decodeFrom, h b List.mem_cons_self]
    dsimp only
    rw [hrest, List.length_cons, List.replicate_succ, List.cons_append]

/-- An encoded text is read back, and what follows after it. -/
theorem decode_encode_append : decode (encode text ++ rest) = text ++ decode rest := by
  induction text with
  | nil => rfl
  | cons c text ih =>
    have hfirst : decode (String.utf8EncodeChar c ++ (encode text ++ rest)) = c :: decode (encode text ++ rest) :=
      (spells_encodeChar c).decodeFrom
    have hcons : encode (c :: text) = String.utf8EncodeChar c ++ encode text := List.flatMap_cons
    rw [hcons, List.append_assoc, hfirst, List.cons_append, ih]

/-- An encoded text is read back. -/
theorem decode_encode : decode (encode text) = text := by
  have hread : decode (encode text ++ []) = text ++ [] := decode_encode_append
  rwa [List.append_nil, List.append_nil] at hread

/-- A position between two characters of an encoded text. -/
def Boundary (text : List Char) (position : ℕ) : Prop :=
  ∃ before after, text = before ++ after ∧ (encode before).length = position

/-- A position within a character of an encoded text. -/
structure Within (text : List Char) (position : ℕ) (before : List Char) (c : Char) (after : List Char) : Prop where
  text : text = before ++ c :: after
  start : (encode before).length < position
  stop : position < (encode before).length + (String.utf8EncodeChar c).length

/-- Texts are encoded one after the other. -/
theorem encode_append {before after : List Char} : encode (before ++ after) = encode before ++ encode after :=
  List.flatMap_append

/-- A position is between two characters or within one. -/
theorem boundary_or_within {position : ℕ} (h : position ≤ (encode text).length) :
    Boundary text position ∨ ∃ before c after, Within text position before c after := by
  induction text generalizing position with
  | nil => exact Or.inl ⟨[], [], rfl, (Nat.le_zero.mp h).symm⟩
  | cons c text ih =>
    have hlength : (encode (c :: text)).length = (String.utf8EncodeChar c).length + (encode text).length := by
      rw [encode, List.flatMap_cons, List.length_append]
      rfl
    have hcons (before : List Char) :
        (encode (c :: before)).length = (String.utf8EncodeChar c).length + (encode before).length := by
      rw [encode, List.flatMap_cons, List.length_append]
      rfl
    rcases Nat.eq_zero_or_pos position with rfl | hpositive
    · exact Or.inl ⟨[], _, rfl, rfl⟩
    by_cases hinside : position < (String.utf8EncodeChar c).length
    · exact Or.inr ⟨[], c, text, rfl, hpositive, by simpa [encode] using hinside⟩
    · rcases @ih (position - (String.utf8EncodeChar c).length) (by omega) with
        ⟨before, after, rfl, hbefore⟩ | ⟨before, d, after, rfl, hstart, hstop⟩
      · exact Or.inl ⟨c :: before, after, rfl, by rw [hcons]; omega⟩
      · exact Or.inr ⟨c :: before, d, after, rfl, by rw [hcons]; omega, by rw [hcons]; omega⟩

/-- A slice that starts between two characters is decoded to what it adds to the text. -/
theorem decode_take_of_boundary {first last : ℕ} (h : Boundary text first) (hle : first ≤ last) :
    decode ((encode text).take last) =
      decode ((encode text).take first) ++ decode (((encode text).take last).drop first) := by
  obtain ⟨before, after, rfl, rfl⟩ := h
  have htake : (encode (before ++ after)).take last =
      encode before ++ (encode after).take (last - (encode before).length) := by
    rw [encode_append, List.take_append, List.take_of_length_le hle]
  have hfirst : (encode (before ++ after)).take (encode before).length = encode before := by
    rw [encode_append, List.take_left]
  rw [htake, hfirst, List.drop_left, decode_encode_append, decode_encode]

/-- A slice that starts within a character is decoded to more characters than it adds to the text. -/
theorem length_decode_of_within {first last : ℕ} {before after : List Char} (h : Within text first before c after)
    (hlt : first < last) :
    (decode ((encode text).take last)).length <
      (decode ((encode text).take first)).length + (decode (((encode text).take last).drop first)).length := by
  obtain ⟨rfl, hstart, hstop⟩ := h
  obtain ⟨k, rfl⟩ := Nat.exists_eq_add_of_lt hstart
  obtain ⟨m, rfl⟩ := Nat.exists_eq_add_of_lt hlt
  have hsplit : encode (before ++ c :: after) = encode before ++ (String.utf8EncodeChar c ++ encode after) := by
    rw [encode_append]
    rfl
  have htake (n : ℕ) : (encode (before ++ c :: after)).take ((encode before).length + n) =
      encode before ++ (String.utf8EncodeChar c ++ encode after).take n := by
    rw [hsplit, List.take_length_add_append]
  have hpart (n : ℕ) (hpositive : 0 < n) (hn : n < (String.utf8EncodeChar c).length) :
      decode ((String.utf8EncodeChar c ++ encode after).take n) = [replacement] := by
    rw [List.take_append_of_le_length (Nat.le_of_lt hn)]
    exact (spells_encodeChar c).decodeFrom_take hn fun _ => hpositive
  have hinvalid (n : ℕ) : ∀ b ∈ ((String.utf8EncodeChar c).take n).drop (k + 1), lead b.toNat = .invalid := by
    intro b hb
    rw [List.drop_take] at hb
    have hdrop : b ∈ (String.utf8EncodeChar c).tail.drop k := by
      rw [List.drop_tail]
      exact List.mem_of_mem_take hb
    exact lead_of_mem_tail (List.mem_of_mem_drop hdrop)
  have hcut : (encode before).length + k + 1 = (encode before).length + (k + 1) := Nat.add_assoc _ _ _
  have hend : (encode before).length + (k + 1) + m + 1 = (encode before).length + (k + m + 2) := by omega
  rw [hcut] at hstop ⊢
  rw [hend, htake, htake, decode_encode_append, decode_encode_append, hpart (k + 1) (Nat.succ_pos k) (by omega),
    List.drop_length_add_append]
  by_cases hinside : k + m + 2 < (String.utf8EncodeChar c).length
  · -- the slice ends within the same character
    have hslice := @decode_append_of_invalid _ [] (hinvalid (k + m + 2))
    rw [hpart (k + m + 2) (Nat.succ_pos _) hinside, List.take_append_of_le_length (Nat.le_of_lt hinside)]
    rw [List.append_nil] at hslice
    simp only [hslice, List.length_append, List.length_drop, List.length_take, List.length_replicate,
      List.length_singleton]
    omega
  · -- the slice goes on after the character
    have hwhole : (String.utf8EncodeChar c ++ encode after).take (k + m + 2) =
        String.utf8EncodeChar c ++ (encode after).take (k + m + 2 - (String.utf8EncodeChar c).length) := by
      rw [List.take_append, List.take_of_length_le (Nat.le_of_not_lt hinside)]
    have hslice := @decode_append_of_invalid _ ((encode after).take (k + m + 2 - (String.utf8EncodeChar c).length))
      (hinvalid (String.utf8EncodeChar c).length)
    have hread := @Spells.decodeFrom _ _ _ ((encode after).take (k + m + 2 - (String.utf8EncodeChar c).length))
      (spells_encodeChar c)
    rw [List.take_length] at hslice
    rw [hwhole, List.drop_append_of_le_length (by omega), hslice, decode, hread]
    simp only [decode, List.length_append, List.length_cons, List.length_drop, List.length_replicate, List.length_nil]
    omega

end MyTeam.Py.Utf8

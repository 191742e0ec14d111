import Mathlib.Tactic.Common
import Scriptlet.Text.Utf8

/-!
# Decoding accepts exactly what encoding gives

Bytes are a text exactly if they are the bytes of its characters one after the other
(`decode_eq_ok_iff`). How a character is written is taken from the standard library.
-/

namespace Scriptlet.Text.Utf8

/-- The bytes of a character. -/
def encodeChar (c : Char) : List Nat := (String.utf8EncodeChar c).map (·.toNat)

/-- The bytes of a text. -/
def encode (cs : List Char) : List Nat := cs.flatMap encodeChar

variable {b x y z code length low high good : Nat} {rest after : List Nat}

/-! ## First and second bytes -/

/-- A byte begins a character of so many bytes. -/
def Begins (b length : Nat) : Prop :=
  length = 1 ∧ b < 0x80 ∨ length = 2 ∧ 0xc2 ≤ b ∧ b < 0xe0 ∨
    length = 3 ∧ 0xe0 ≤ b ∧ b < 0xf0 ∨ length = 4 ∧ 0xf0 ≤ b ∧ b ≤ 0xf4

/-- A byte may stand second in a character that begins with `b`. -/
def Follows (b x : Nat) : Prop :=
  0x80 ≤ x ∧ x ≤ 0xbf ∧ (b = 0xe0 → 0xa0 ≤ x) ∧ (b = 0xed → x ≤ 0x9f) ∧ (b = 0xf0 → 0x90 ≤ x) ∧
    (b = 0xf4 → x ≤ 0x8f)

theorem begins_of_lead? (h : lead? b = some (length, low, high)) :
    Begins b length ∧ (1 < length → ∀ x, (low ≤ x ∧ x ≤ high) ↔ Follows b x) := by
  unfold lead? at h
  unfold Begins Follows
  repeat' split at h
  all_goals cases h
  all_goals exact ⟨by omega, fun _ x => by omega⟩

theorem exists_lead? (h : Begins b length) : ∃ low high, lead? b = some (length, low, high) := by
  unfold lead?
  rcases h with ⟨rfl, h⟩ | ⟨rfl, h⟩ | ⟨rfl, h⟩ | ⟨rfl, h⟩
  · exact ⟨_, _, if_pos h⟩
  · rw [if_neg (by omega), if_neg (by omega), if_pos (by omega)]
    exact ⟨_, _, rfl⟩
  · rw [if_neg (by omega), if_neg (by omega), if_neg (by omega)]
    by_cases he0 : b = 0xe0
    · exact ⟨_, _, if_pos he0⟩
    by_cases hed : b = 0xed
    · exact ⟨_, _, by rw [if_neg he0, if_pos hed]⟩
    · exact ⟨_, _, by rw [if_neg he0, if_neg hed, if_pos h.2]⟩
  · rw [if_neg (by omega), if_neg (by omega), if_neg (by omega), if_neg (by omega),
      if_neg (by omega), if_neg (by omega)]
    by_cases hf0 : b = 0xf0
    · exact ⟨_, _, if_pos hf0⟩
    by_cases hlt : b < 0xf4
    · exact ⟨_, _, by rw [if_neg hf0, if_pos hlt]⟩
    · exact ⟨_, _, by rw [if_neg hf0, if_neg hlt, if_pos (by omega)]⟩

/-! ## One character -/

theorem toNat_lt (c : Char) : c.toNat < 0x110000 := by
  have hvalid : c.toNat.isValidChar := c.valid
  unfold Nat.isValidChar at hvalid
  omega

/-- How a character is written, by the size of its number. -/
theorem encodeChar_eq (c : Char) : encodeChar c =
    if c.toNat ≤ 0x7f then [c.toNat]
    else if c.toNat ≤ 0x7ff then [0xc0 + c.toNat / 0x40, 0x80 + c.toNat % 0x40]
    else if c.toNat ≤ 0xffff then
      [0xe0 + c.toNat / 0x1000, 0x80 + c.toNat / 0x40 % 0x40, 0x80 + c.toNat % 0x40]
    else
      [0xf0 + c.toNat / 0x40000, 0x80 + c.toNat / 0x1000 % 0x40, 0x80 + c.toNat / 0x40 % 0x40,
        0x80 + c.toNat % 0x40] := by
  have hlt := toNat_lt c
  have byte : ∀ {n}, n < 0x100 → (UInt8.ofNat n).toNat = n := UInt8.toNat_ofNat_of_lt'
  have hval : c.val.toNat = c.toNat := rfl
  unfold encodeChar String.utf8EncodeChar
  simp only [hval]
  split_ifs
  · simp only [List.map_cons, List.map_nil]
    rw [byte (by omega)]
  · simp only [List.map_cons, List.map_nil, List.cons.injEq, and_true]
    rw [byte (by omega), byte (by omega)]
    omega
  · simp only [List.map_cons, List.map_nil, List.cons.injEq, and_true]
    rw [byte (by omega), byte (by omega), byte (by omega)]
    omega
  · simp only [List.map_cons, List.map_nil, List.cons.injEq, and_true]
    rw [byte (by omega), byte (by omega), byte (by omega), byte (by omega)]
    omega

theorem continuation_succ {needed : Nat} {bytes : List Nat} {r : Nat × List Nat}
    (h : continuation (needed + 1) low high code good bytes = .ok r) :
    ∃ x rest, bytes = x :: rest ∧ (low ≤ x ∧ x ≤ high) ∧
      continuation needed 0x80 0xbf (code * 0x40 + x % 0x40) (good + 1) rest = .ok r := by
  cases bytes with
  | nil => cases h
  | cons x rest =>
    rw [continuation] at h
    split at h
    · exact ⟨x, rest, rfl, ‹_›, h⟩
    · cases h

/-- A character of the bytes is read from them. -/
def Reads (b : Nat) (rest : List Nat) (code : Nat) (after : List Nat) : Prop :=
  ∃ length low high, lead? b = some (length, low, high) ∧
    continuation (length - 1) low high (leadBits length b) 1 rest = .ok (code, after)

/-- The bytes of a valid number are those of its character. -/
theorem encodeChar_ofNat (h : code.isValidChar) : encodeChar (Char.ofNat code) =
    if code ≤ 0x7f then [code]
    else if code ≤ 0x7ff then [0xc0 + code / 0x40, 0x80 + code % 0x40]
    else if code ≤ 0xffff then
      [0xe0 + code / 0x1000, 0x80 + code / 0x40 % 0x40, 0x80 + code % 0x40]
    else
      [0xf0 + code / 0x40000, 0x80 + code / 0x1000 % 0x40, 0x80 + code / 0x40 % 0x40,
        0x80 + code % 0x40] := by
  have hnat : (Char.ofNat code).toNat = code := by
    rw [Char.ofNat, dif_pos h]
    rfl
  rw [encodeChar_eq, hnat]

/-- What is read is a character, and the bytes are its own. -/
theorem Reads.spelled (h : Reads b rest code after) :
    code.isValidChar ∧ b :: rest = encodeChar (Char.ofNat code) ++ after := by
  obtain ⟨length, low, high, hlead, h⟩ := h
  obtain ⟨hbegins, hfollows⟩ := begins_of_lead? hlead
  rcases hbegins with ⟨rfl, hb⟩ | ⟨rfl, hb⟩ | ⟨rfl, hb⟩ | ⟨rfl, hb⟩
  · cases h
    have hvalid : b.isValidChar := .inl (by omega)
    refine ⟨hvalid, ?_⟩
    show _ = encodeChar (Char.ofNat b) ++ rest
    rw [encodeChar_ofNat hvalid, if_pos (by omega)]
    rfl
  · obtain ⟨x, rest, rfl, hx, h⟩ := continuation_succ h
    cases h
    rw [hfollows (by omega), Follows] at hx
    have hvalid : (b % 0x20 * 0x40 + x % 0x40).isValidChar := .inl (by omega)
    refine ⟨hvalid, ?_⟩
    show _ = encodeChar (Char.ofNat (b % 0x20 * 0x40 + x % 0x40)) ++ after
    rw [encodeChar_ofNat hvalid, if_neg (by omega), if_pos (by omega)]
    simp only [List.cons_append, List.nil_append, List.cons.injEq, and_true]
    omega
  · obtain ⟨x, rest, rfl, hx, h⟩ := continuation_succ h
    obtain ⟨y, rest, rfl, hy, h⟩ := continuation_succ h
    cases h
    rw [hfollows (by omega), Follows] at hx
    have hvalid : ((b % 0x10 * 0x40 + x % 0x40) * 0x40 + y % 0x40).isValidChar := by
      unfold Nat.isValidChar
      omega
    refine ⟨hvalid, ?_⟩
    show _ = encodeChar (Char.ofNat ((b % 0x10 * 0x40 + x % 0x40) * 0x40 + y % 0x40)) ++ after
    rw [encodeChar_ofNat hvalid, if_neg (by omega), if_neg (by omega), if_pos (by omega)]
    simp only [List.cons_append, List.nil_append, List.cons.injEq, and_true]
    omega
  · obtain ⟨x, rest, rfl, hx, h⟩ := continuation_succ h
    obtain ⟨y, rest, rfl, hy, h⟩ := continuation_succ h
    obtain ⟨z, rest, rfl, hz, h⟩ := continuation_succ h
    cases h
    rw [hfollows (by omega), Follows] at hx
    have hvalid : (((b % 0x08 * 0x40 + x % 0x40) * 0x40 + y % 0x40) * 0x40 +
        z % 0x40).isValidChar := .inr (by omega)
    refine ⟨hvalid, ?_⟩
    show _ = encodeChar (Char.ofNat (((b % 0x08 * 0x40 + x % 0x40) * 0x40 + y % 0x40) * 0x40 +
      z % 0x40)) ++ after
    rw [encodeChar_ofNat hvalid, if_neg (by omega), if_neg (by omega), if_neg (by omega)]
    simp only [List.cons_append, List.nil_append, List.cons.injEq, and_true]
    omega

theorem continuation_cons {needed : Nat} (h : low ≤ x ∧ x ≤ high) :
    continuation (needed + 1) low high code good (x :: rest) =
      continuation needed 0x80 0xbf (code * 0x40 + x % 0x40) (good + 1) rest := by
  rw [continuation, if_pos h]

/-- It is enough to go on from the first byte with what may stand second. -/
theorem reads_of_begins (hb : Begins b length) (h : ∀ low high,
    (1 < length → ∀ x, (low ≤ x ∧ x ≤ high) ↔ Follows b x) →
      continuation (length - 1) low high (leadBits length b) 1 rest = .ok (code, after)) :
    Reads b rest code after := by
  obtain ⟨low, high, hlead⟩ := exists_lead? hb
  exact ⟨length, low, high, hlead, h low high (begins_of_lead? hlead).2⟩

/-- The bytes of a character are read as it, whatever comes after them. -/
theorem reads_encodeChar (c : Char) (after : List Nat) :
    ∃ b rest, encodeChar c ++ after = b :: rest ∧ Reads b rest c.toNat after := by
  have hvalid : c.toNat.isValidChar := c.valid
  unfold Nat.isValidChar at hvalid
  rw [encodeChar_eq]
  generalize c.toNat = v at hvalid
  split_ifs
  · exact ⟨_, _, rfl, reads_of_begins (.inl ⟨rfl, by omega⟩) fun _ _ _ => rfl⟩
  · refine ⟨_, _, rfl, reads_of_begins (.inr (.inl ⟨rfl, by omega⟩)) ?_⟩
    intro low high hfollows
    have hx := (hfollows (by omega) (0x80 + v % 0x40)).mpr (by unfold Follows; omega)
    show continuation 1 low high ((0xc0 + v / 0x40) % 0x20) 1 ((0x80 + v % 0x40) :: after) = _
    rw [continuation_cons hx, continuation]
    congr 2
    omega
  · refine ⟨_, _, rfl, reads_of_begins (.inr (.inr (.inl ⟨rfl, by omega⟩))) ?_⟩
    intro low high hfollows
    have hx := (hfollows (by omega) (0x80 + v / 0x40 % 0x40)).mpr (by unfold Follows; omega)
    show continuation 2 low high ((0xe0 + v / 0x1000) % 0x10) 1
      ((0x80 + v / 0x40 % 0x40) :: (0x80 + v % 0x40) :: after) = _
    rw [continuation_cons hx, continuation_cons (by omega), continuation]
    congr 2
    omega
  · refine ⟨_, _, rfl, reads_of_begins (.inr (.inr (.inr ⟨rfl, by omega⟩))) ?_⟩
    intro low high hfollows
    have hx := (hfollows (by omega) (0x80 + v / 0x1000 % 0x40)).mpr (by unfold Follows; omega)
    show continuation 3 low high ((0xf0 + v / 0x40000) % 0x08) 1
      ((0x80 + v / 0x1000 % 0x40) :: (0x80 + v / 0x40 % 0x40) :: (0x80 + v % 0x40) :: after) = _
    rw [continuation_cons hx, continuation_cons (by omega), continuation_cons (by omega),
      continuation]
    congr 2
    omega

/-! ## Texts -/

/-- The bytes of a text begin with those of its first character. -/
theorem reads_of_encode {tail : List Char} (h : b :: rest = encode tail) :
    ∃ c cs, tail = c :: cs ∧ Reads b rest c.toNat (encode cs) := by
  cases tail with
  | nil => cases h
  | cons c cs =>
    obtain ⟨b', rest', hbytes, hreads⟩ := reads_encodeChar c (encode cs)
    rw [encode, List.flatMap_cons] at h
    obtain ⟨rfl, rfl⟩ := List.cons.inj (h.trans hbytes)
    exact ⟨c, cs, rfl, hreads⟩

theorem Reads.unique {code' : Nat} {after' : List Nat} (h : Reads b rest code after)
    (h' : Reads b rest code' after') : code = code' ∧ after = after' := by
  obtain ⟨length, low, high, hlead, h⟩ := h
  obtain ⟨length', low', high', hlead', h'⟩ := h'
  rw [hlead] at hlead'
  cases hlead'
  rw [h] at h'
  cases h'
  exact ⟨rfl, rfl⟩

/-- From a position on, the rest of the text is found exactly if the rest of the bytes are its
bytes. The induction follows the decoder, a character at a time. -/
theorem decodeFrom_eq_ok_iff {position : Nat} {bytes : List Nat} {found cs : List Char} :
    decodeFrom position bytes found = .ok cs ↔
      ∃ tail, cs = found.reverse ++ tail ∧ bytes = encode tail := by
  fun_induction decodeFrom position bytes found with
  | case1 position found =>
    constructor
    · rintro ⟨⟩
      exact ⟨[], (List.append_nil _).symm, rfl⟩
    · rintro ⟨tail, rfl, htail⟩
      cases tail with
      | nil => rw [List.append_nil]
      | cons c tail =>
        obtain ⟨b, rest, hbytes, -⟩ := reads_encodeChar c (encode tail)
        rw [encode, List.flatMap_cons] at htail
        cases htail.trans hbytes
  | case2 position found b rest hlead =>
    refine iff_of_false nofun ?_
    rintro ⟨tail, -, htail⟩
    obtain ⟨c, cs, -, length, low, high, hlead', -⟩ := reads_of_encode htail
    rw [hlead] at hlead'
    cases hlead'
  | case3 position found b rest length low high hlead reason good h =>
    refine iff_of_false nofun ?_
    rintro ⟨tail, -, htail⟩
    obtain ⟨c, cs, -, length', low', high', hlead', hreads⟩ := reads_of_encode htail
    rw [hlead] at hlead'
    cases hlead'
    rw [h] at hreads
    cases hreads
  | case4 position found b rest length low high hlead code after h ih =>
    have hreads : Reads b rest code after := ⟨length, low, high, hlead, h⟩
    rw [ih, List.reverse_cons]
    constructor
    · rintro ⟨tail, rfl, rfl⟩
      refine ⟨Char.ofNat code :: tail, by simp, ?_⟩
      rw [encode, List.flatMap_cons]
      exact hreads.spelled.2
    · rintro ⟨tail, rfl, htail⟩
      obtain ⟨c, cs, rfl, hreads'⟩ := reads_of_encode htail
      obtain ⟨rfl, rfl⟩ := hreads.unique hreads'
      refine ⟨cs, ?_, rfl⟩
      rw [Char.ofNat_toNat]
      simp

theorem decode_eq_ok_iff {bytes : List Nat} {cs : List Char} :
    decode bytes = .ok cs ↔ bytes = encode cs := by
  rw [decode, decodeFrom_eq_ok_iff]
  simp

end Scriptlet.Text.Utf8

import Mathlib

/-!
# Library — UTF-8

`encode` is the UTF-8 of a text.  `decodeLossy` reads any bytes as a text: where a character
begins it is read, and elsewhere the longest piece that could have begun one is replaced by
U+FFFD.  Bytes that are the UTF-8 of a text are read as that text (`decodeLossy_encode`), and
only these survive the way there and back (`encode_decodeLossy_iff`); `decode` reads nothing else.
-/

namespace Utf8

/-- The UTF-8 of a text. -/
def encode (s : List Char) : List UInt8 := s.flatMap String.utf8EncodeChar

@[simp] theorem encode_nil : encode [] = [] := rfl

@[simp] theorem encode_cons (c : Char) (s : List Char) :
    encode (c :: s) = String.utf8EncodeChar c ++ encode s := rfl

@[simp] theorem encode_append (s t : List Char) : encode (s ++ t) = encode s ++ encode t :=
  List.flatMap_append

theorem toByteArray_encode (s : List Char) : (encode s).toByteArray = s.utf8Encode := rfl

/-- The character the bytes begin with. -/
def decodeHead (l : List UInt8) : Option Char := l.toByteArray.utf8DecodeChar? 0

theorem decodeHead_append (c : Char) (l : List UInt8) :
    decodeHead (String.utf8EncodeChar c ++ l) = some c := by
  rw [decodeHead, List.toByteArray_append]
  exact ByteArray.utf8DecodeChar?_utf8EncodeChar_append

/-! ### Characters of one byte -/

/-- A byte below 0x80 is of the character it stands for only. -/
theorem toNat_eq_of_mem_utf8EncodeChar {c : Char} {b : UInt8} (h : b ∈ String.utf8EncodeChar c)
    (hb : b.toNat < 0x80) : c.toNat = b.toNat := by
  rw [Char.toNat]
  unfold String.utf8EncodeChar at h
  dsimp only at h
  split at h
  · rw [List.mem_singleton] at h
    subst h
    simp only [UInt8.toNat_ofNat'] at hb ⊢
    omega
  · split at h
    · simp only [List.mem_cons, List.not_mem_nil, or_false] at h
      rcases h with rfl | rfl <;> simp [UInt8.toNat_ofNat'] at hb <;> omega
    · split at h
      · simp only [List.mem_cons, List.not_mem_nil, or_false] at h
        rcases h with rfl | rfl | rfl <;> simp [UInt8.toNat_ofNat'] at hb <;> omega
      · simp only [List.mem_cons, List.not_mem_nil, or_false] at h
        rcases h with rfl | rfl | rfl | rfl <;> simp [UInt8.toNat_ofNat'] at hb <;> omega

theorem mem_encode_iff {d : Char} {b : UInt8} (hd : String.utf8EncodeChar d = [b])
    (hb : b.toNat < 0x80) {s : List Char} : b ∈ encode s ↔ d ∈ s := by
  have hdn : d.toNat = b.toNat := toNat_eq_of_mem_utf8EncodeChar (by simp [hd]) hb
  constructor
  · intro h
    obtain ⟨c, hc, h⟩ := List.mem_flatMap.mp h
    have hcn := toNat_eq_of_mem_utf8EncodeChar h hb
    rwa [← Char.ext (UInt32.toNat_inj.mp (hcn.trans hdn.symm))]
  · exact fun h => List.mem_flatMap.mpr ⟨d, h, by simp [hd]⟩

/-- What stands before the first delimiter is the front of the first piece. -/
theorem splitOn_append {α : Type} [BEq α] [LawfulBEq α] {d : α} {l : List α} (h : d ∉ l)
    (s : List α) : (l ++ s).splitOn d = (s.splitOn d).modifyHead (l ++ ·) := by
  induction l with
  | nil => exact (congrFun List.modifyHead_id _).symm
  | cons a l ih =>
      rw [List.mem_cons, not_or] at h
      rw [List.cons_append, List.splitOn_cons_eq_if_modifyHead,
        if_neg (by simpa using Ne.symm h.1), ih h.2]
      cases s.splitOn d <;> rfl

/-- Cutting a text at a character of one byte cuts its UTF-8 at the byte. -/
theorem splitOn_encode {d : Char} {b : UInt8} (hd : String.utf8EncodeChar d = [b])
    (hb : b.toNat < 0x80) (s : List Char) :
    (encode s).splitOn b = (s.splitOn d).map encode := by
  induction s with
  | nil => rfl
  | cons c s ih =>
      rw [List.splitOn_cons_eq_if_modifyHead]
      split
      · rename_i hc
        rw [LawfulBEq.eq_of_beq hc, encode_cons, hd, List.singleton_append,
          List.splitOn_cons_eq_if_modifyHead, if_pos (beq_self_eq_true b), ih, List.map_cons]
        rfl
      · rename_i hc
        have hne : b ∉ String.utf8EncodeChar c := by
          intro h
          have h := (mem_encode_iff (s := [c]) hd hb).mp (by simpa using h)
          rw [List.mem_singleton] at h
          exact hc (by rw [h]; exact beq_self_eq_true c)
        rw [encode_cons, splitOn_append hne, ih]
        cases s.splitOn d <;> rfl

/-! ### Reading any bytes -/

/-- The bytes that continue a character. -/
def isContinuation (b : UInt8) : Bool := 0x80 ≤ b && b ≤ 0xBF

/-- `c` may follow `b` in a character of three or four bytes. -/
def mayFollow (b c : UInt8) : Bool :=
  b = 0xE0 && 0xA0 ≤ c && c ≤ 0xBF || 0xE1 ≤ b && b ≤ 0xEC && isContinuation c ||
  b = 0xED && 0x80 ≤ c && c ≤ 0x9F || 0xEE ≤ b && b ≤ 0xEF && isContinuation c ||
  b = 0xF0 && 0x90 ≤ c && c ≤ 0xBF || 0xF1 ≤ b && b ≤ 0xF3 && isContinuation c ||
  b = 0xF4 && 0x80 ≤ c && c ≤ 0x8F

/-- How many bytes one replacement character stands for, where no character begins. -/
def invalidLength : List UInt8 → Nat
  | b :: c :: rest =>
    if mayFollow b c then if 0xF0 ≤ b && rest.head?.any isContinuation then 3 else 2 else 1
  | _ => 1

/-- What stands for bytes that are no text. -/
def replacement : Char := '\uFFFD'

/-- `fuel` bounds how many characters are read. -/
def decodeLossyAux : (fuel : Nat) → List UInt8 → List Char
  | 0, _ => []
  | _ + 1, [] => []
  | fuel + 1, b :: l =>
    match decodeHead (b :: l) with
    | some c => c :: decodeLossyAux fuel ((b :: l).drop c.utf8Size)
    | none => replacement :: decodeLossyAux fuel ((b :: l).drop (invalidLength (b :: l)))

/-- Any bytes, as a text. -/
def decodeLossy (l : List UInt8) : List Char := decodeLossyAux l.length l

theorem decodeLossyAux_encode (s : List Char) {fuel : Nat} (h : s.length ≤ fuel) :
    decodeLossyAux fuel (encode s) = s := by
  induction s generalizing fuel with
  | nil => cases fuel <;> rfl
  | cons c s ih =>
      obtain ⟨fuel, rfl⟩ := Nat.exists_eq_succ_of_ne_zero (Nat.ne_of_gt (Nat.lt_of_lt_of_le
        (Nat.succ_pos _) h))
      have hhead := decodeHead_append c (encode s)
      have hdrop : (String.utf8EncodeChar c ++ encode s).drop c.utf8Size = encode s := by
        rw [← String.length_utf8EncodeChar]
        exact List.drop_left
      rw [encode_cons]
      cases hl : String.utf8EncodeChar c ++ encode s with
      | nil => exact absurd (List.append_eq_nil_iff.mp hl).1 String.utf8EncodeChar_ne_nil
      | cons b l =>
          rw [hl] at hhead hdrop
          rw [decodeLossyAux, hhead]
          dsimp only
          rw [hdrop, ih (Nat.le_of_succ_le_succ h)]

theorem length_le_encode (s : List Char) : s.length ≤ (encode s).length := by
  induction s with
  | nil => exact Nat.le_refl _
  | cons c s ih =>
      rw [encode_cons, List.length_append, String.length_utf8EncodeChar, List.length_cons]
      have := Char.utf8Size_pos c
      omega

/-- **The UTF-8 of a text is read as the text.** -/
theorem decodeLossy_encode (s : List Char) : decodeLossy (encode s) = s :=
  decodeLossyAux_encode s (length_le_encode s)

theorem encode_injective : Function.Injective encode :=
  Function.LeftInverse.injective decodeLossy_encode

/-- The bytes are the UTF-8 of a text. -/
def Valid (l : List UInt8) : Prop := ∃ s, encode s = l

theorem valid_encode (s : List Char) : Valid (encode s) := ⟨s, rfl⟩

/-- **Bytes survive a repair only if there was nothing to repair.** -/
theorem encode_decodeLossy_iff (l : List UInt8) : encode (decodeLossy l) = l ↔ Valid l := by
  constructor
  · exact fun h => ⟨_, h⟩
  · rintro ⟨s, rfl⟩
    rw [decodeLossy_encode]

theorem append_drop_of_decodeHead {l : List UInt8} {c : Char} (h : decodeHead l = some c) :
    String.utf8EncodeChar c ++ l.drop c.utf8Size = l := by
  obtain ⟨rest, hrest⟩ := ByteArray.exists_of_utf8DecodeChar?_eq_some h
  have hl : l = String.utf8EncodeChar c ++ rest.data.toList := by
    simpa using congrArg (·.data.toList) hrest
  rw [hl, ← String.length_utf8EncodeChar, List.drop_left]

theorem encode_decodeLossyAux {fuel : Nat} {l : List UInt8} (hl : l.length ≤ fuel)
    (h : replacement ∉ decodeLossyAux fuel l) : encode (decodeLossyAux fuel l) = l := by
  fun_induction decodeLossyAux fuel l with
  | case1 l =>
      rw [List.length_eq_zero_iff.mp (Nat.le_zero.mp hl)]
      rfl
  | case2 fuel => rfl
  | case3 fuel b l c hc ih =>
      rw [List.mem_cons, not_or] at h
      have := Char.utf8Size_pos c
      rw [encode_cons, ih (by rw [List.length_drop]; omega) h.2]
      exact append_drop_of_decodeHead hc
  | case4 fuel b l hc ih => exact absurd List.mem_cons_self h

/-- **What was read without a replacement was the UTF-8 of what was read.** -/
theorem encode_decodeLossy {l : List UInt8} (h : replacement ∉ decodeLossy l) :
    encode (decodeLossy l) = l :=
  encode_decodeLossyAux (Nat.le_refl _) h

instance (l : List UInt8) : Decidable (Valid l) :=
  decidable_of_iff _ (encode_decodeLossy_iff l)

/-- The text the bytes are the UTF-8 of, if they are of one. -/
def decode (l : List UInt8) : Option (List Char) :=
  if Valid l then some (decodeLossy l) else none

theorem decode_eq_some {l : List UInt8} {s : List Char} : decode l = some s ↔ encode s = l := by
  rw [decode, Option.ite_none_right_eq_some, Option.some.injEq]
  constructor
  · rintro ⟨hv, rfl⟩
    exact (encode_decodeLossy_iff l).mpr hv
  · rintro rfl
    exact ⟨valid_encode s, decodeLossy_encode s⟩

/-- A broken character is replaced by one U+FFFD, as far as it went. -/
example : decodeLossy [0x61, 0xE2, 0x82, 0x62] = ['a', replacement, 'b'] := by decide +kernel

end Utf8

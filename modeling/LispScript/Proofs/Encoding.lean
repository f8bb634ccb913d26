import LispScript.Text.Glyph

/-!
This module contains the proof that text which consists of code points is the same when it is written
as bytes and read again.
-/

namespace LispScript

namespace Text

variable {c : Char} {a t₁ t₂ t₃ : Nat}

theorem toNat_ofNat {n : Nat} (h : n < 256) : (UInt8.ofNat n).toNat = n := by
  rw [UInt8.toNat_ofNat']
  omega

theorem tail_ofNat {n : Nat} (h : n < 64) : tail (UInt8.ofNat (n + 0x80)) = some n := by
  have hrange : 0x80 ≤ n + 0x80 ∧ n + 0x80 ≤ 0xBF := by omega
  have hn := toNat_ofNat (n := n + 0x80) (by omega)
  simp [tail, UInt8.le_iff_toNat_le, hn, hrange, -UInt8.ofNat_add]

theorem scalar_toNat {least : Nat} (h : least ≤ c.toNat) : scalar least c.toNat = some c := by
  have hvalid : c.toNat.isValidChar := c.valid
  simp [scalar, h, hvalid]

theorem leading_one (hc : c.toNat < 0x80) (rest : List UInt8) :
    leading (UInt8.ofNat c.toNat) rest = some (c, 0) := by
  have hb := toNat_ofNat (n := c.toNat) (by omega)
  unfold leading
  simp only [UInt8.lt_iff_toNat_lt, hb]
  rw [if_pos (by simpa using hc)]
  simp

theorem leading_two (ha : a < 0x20) (h₁ : t₁ < 64) (hc : c.toNat = a * 64 + t₁)
    (hleast : 0x80 ≤ c.toNat) (rest : List UInt8) :
    leading (UInt8.ofNat (a + 0xC0)) (UInt8.ofNat (t₁ + 0x80) :: rest) = some (c, 1) := by
  have hb := toNat_ofNat (n := a + 0xC0) (by omega)
  have ht₁ := tail_ofNat h₁
  have hscalar := scalar_toNat hleast
  rw [hc] at hscalar
  have hlow : ¬ a + 0xC0 < 0x80 := by omega
  have hlead : ¬ a + 0xC0 < 0xC2 := by omega
  have hhigh : a + 0xC0 < 0xE0 := by omega
  simp [leading, UInt8.lt_iff_toNat_lt, hb, hlow, hlead, hhigh, ht₁, hscalar, -UInt8.ofNat_add]

theorem leading_three (ha : a < 0x10) (h₁ : t₁ < 64) (h₂ : t₂ < 64)
    (hc : c.toNat = (a * 64 + t₁) * 64 + t₂) (hleast : 0x800 ≤ c.toNat) (rest : List UInt8) :
    leading (UInt8.ofNat (a + 0xE0)) (UInt8.ofNat (t₁ + 0x80) :: UInt8.ofNat (t₂ + 0x80) :: rest)
      = some (c, 2) := by
  have hb := toNat_ofNat (n := a + 0xE0) (by omega)
  have ht₁ := tail_ofNat h₁
  have ht₂ := tail_ofNat h₂
  have hscalar := scalar_toNat hleast
  rw [hc] at hscalar
  have hlow : ¬ a + 0xE0 < 0xE0 := by omega
  have hlead : ¬ a + 0xE0 < 0x80 ∧ ¬ a + 0xE0 < 0xC2 := by omega
  have hhigh : a + 0xE0 < 0xF0 := by omega
  simp [leading, UInt8.lt_iff_toNat_lt, hb, hlow, hlead, hhigh, ht₁, ht₂, hscalar,
    -UInt8.ofNat_add]

theorem leading_four (ha : a < 5) (h₁ : t₁ < 64) (h₂ : t₂ < 64) (h₃ : t₃ < 64)
    (hc : c.toNat = ((a * 64 + t₁) * 64 + t₂) * 64 + t₃) (hleast : 0x10000 ≤ c.toNat)
    (rest : List UInt8) :
    leading (UInt8.ofNat (a + 0xF0)) (UInt8.ofNat (t₁ + 0x80) :: UInt8.ofNat (t₂ + 0x80) ::
      UInt8.ofNat (t₃ + 0x80) :: rest) = some (c, 3) := by
  have hb := toNat_ofNat (n := a + 0xF0) (by omega)
  have ht₁ := tail_ofNat h₁
  have ht₂ := tail_ofNat h₂
  have ht₃ := tail_ofNat h₃
  have hscalar := scalar_toNat hleast
  rw [hc] at hscalar
  have hlow : ¬ a + 0xF0 < 0xE0 ∧ ¬ a + 0xF0 < 0xF0 := by omega
  have hlead : ¬ a + 0xF0 < 0x80 ∧ ¬ a + 0xF0 < 0xC2 := by omega
  have hhigh : a + 0xF0 < 0xF5 := by omega
  simp [leading, UInt8.lt_iff_toNat_lt, hb, hlow, hlead, hhigh, ht₁, ht₂, ht₃, hscalar,
    -UInt8.ofNat_add]

theorem leading_utf8EncodeChar (c : Char) : ∃ b bs, String.utf8EncodeChar c = b :: bs ∧
    ∀ rest, leading b (bs ++ rest) = some (c, bs.length) := by
  have hvalid : c.toNat.isValidChar := c.valid
  simp only [Nat.isValidChar] at hvalid
  fun_cases String.utf8EncodeChar c with
  | case1 v h =>
    have hv : c.toNat = v := rfl
    refine ⟨_, _, rfl, ?_⟩
    intro rest
    apply leading_one
    omega
  | case2 v h₁ h₂ =>
    have hv : c.toNat = v := rfl
    refine ⟨_, _, rfl, ?_⟩
    intro rest
    apply leading_two <;> omega
  | case3 v h₁ h₂ h₃ =>
    have hv : c.toNat = v := rfl
    refine ⟨_, _, rfl, ?_⟩
    intro rest
    apply leading_three <;> omega
  | case4 v h₁ h₂ h₃ =>
    have hv : c.toNat = v := rfl
    refine ⟨_, _, rfl, ?_⟩
    intro rest
    apply leading_four <;> omega

theorem ofBytes_go_skip (bs rest : List UInt8) (read : Text) :
    ofBytes.go bs.length (bs ++ rest) read = ofBytes.go 0 rest read := by
  induction bs with
  | nil => rfl
  | cons b bs ih =>
    rw [List.length_cons, List.cons_append, ofBytes.go]
    apply ih

theorem ofBytes_go_bytes (cs : List Char) (read : Text) :
    ofBytes.go 0 (bytes (ofChars cs)) read = read.reverse ++ ofChars cs := by
  induction cs generalizing read with
  | nil => simp [bytes, ofChars, ofBytes.go]
  | cons c cs ih =>
    obtain ⟨b, bs, hbytes, hleading⟩ := leading_utf8EncodeChar c
    have hcons : bytes (ofChars (c :: cs)) = b :: (bs ++ bytes (ofChars cs)) := by
      simp [bytes, ofChars, Glyph.bytes, hbytes]
    rw [hcons, ofBytes.go, hleading]
    show ofBytes.go bs.length (bs ++ bytes (ofChars cs)) (.char c :: read) = _
    rw [ofBytes_go_skip, ih]
    simp [ofChars]

theorem ofBytes_bytes (cs : List Char) : ofBytes (bytes (ofChars cs)) = ofChars cs :=
  ofBytes_go_bytes cs []

end Text

end LispScript

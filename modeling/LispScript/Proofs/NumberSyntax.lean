import LispScript.Proofs.Continuation
import LispScript.Proofs.Literal
import Mathlib.Data.List.Induction
import Mathlib.Data.Nat.Digits.Defs

/-!
This module contains the grammar of numbers, and the proof that it decides what a word is: an integer, a real,
a number that is none, or a symbol. The words of integers denote their decimal values, and they are read as
these if the values fit.
-/

namespace LispScript

namespace Word

/-! The grammar. -/

def decimalDigits : List Char :=
  ['0', '1', '2', '3', '4', '5', '6', '7', '8', '9']

/--
The number that the digits denote, where each digit counts ten times as much as the one after it.
-/
def decimalValue (digits : List Char) : Nat :=
  Nat.ofDigits 10 (digits.reverse.map decimalDigits.idxOf)

inductive Sign : List Char → Prop where
  | none : Sign []
  | plus : Sign ['+']
  | minus : Sign ['-']

structure Digits (digits : List Char) : Prop where
  nonempty : digits ≠ []
  decimal : ∀ c ∈ digits, c ∈ decimalDigits

inductive IntegerSyntax : List Char → Prop where
  | mk {sign digits : List Char} (hsign : Sign sign) (hdigits : Digits digits) : IntegerSyntax (sign ++ digits)

inductive RealSyntax : List Char → Prop where
  | mk {sign whole fraction : List Char} (hsign : Sign sign) (hdigits : Digits (whole ++ fraction)) :
      RealSyntax (sign ++ (whole ++ '.' :: fraction))

/--
The word starts like a number: after a sign, if any, there is a digit or a point and a digit.
-/
inductive NumberStart : List Char → Prop where
  | digit {sign rest : List Char} {c : Char} (hsign : Sign sign) (hc : c ∈ decimalDigits) :
      NumberStart (sign ++ c :: rest)
  | point {sign rest : List Char} {c : Char} (hsign : Sign sign) (hc : c ∈ decimalDigits) :
      NumberStart (sign ++ '.' :: c :: rest)

/--
What an integer word denotes.
-/
inductive Denotes : List Char → Int → Prop where
  | unsigned {digits : List Char} (h : Digits digits) : Denotes digits (decimalValue digits)
  | plus {digits : List Char} (h : Digits digits) : Denotes ('+' :: digits) (decimalValue digits)
  | minus {digits : List Char} (h : Digits digits) : Denotes ('-' :: digits) (-decimalValue digits)

variable {sign digits whole fraction body word : List Char} {c : Char}

/-! Digits. -/

theorem forall_decimalDigits {P : Char → Prop} : (∀ c ∈ decimalDigits, P c) ↔
    P '0' ∧ P '1' ∧ P '2' ∧ P '3' ∧ P '4' ∧ P '5' ∧ P '6' ∧ P '7' ∧ P '8' ∧ P '9' := by
  simp [decimalDigits]

theorem isDigit_iff : c.isDigit ↔ c ∈ decimalDigits := by
  constructor
  . intro h
    have hrange : 48 ≤ c.toNat ∧ c.toNat ≤ 57 := by
      simpa [Char.isDigit, UInt32.le_iff_toNat_le] using h
    have hdigits : ∀ n < 10, Char.ofNat (48 + n) ∈ decimalDigits := by
      decide
    have hc := hdigits (c.toNat - 48) (by omega)
    rwa [Nat.add_sub_cancel' hrange.1, Char.ofNat_toNat] at hc
  . have hall : ∀ d ∈ decimalDigits, d.isDigit := forall_decimalDigits.2 (by decide)
    exact hall c

theorem idxOf_decimalDigits (h : c ∈ decimalDigits) : decimalDigits.idxOf c = c.toNat - '0'.toNat := by
  have hall : ∀ d ∈ decimalDigits, decimalDigits.idxOf d = d.toNat - '0'.toNat :=
    forall_decimalDigits.2 (by decide)
  exact hall c h

theorem digitsValue_append_singleton (digits : List Char) (c : Char) :
    Real.digitsValue (digits ++ [c]) = 10 * Real.digitsValue digits + (c.toNat - '0'.toNat) := by
  rw [Real.digitsValue, List.foldl_append]
  rfl

theorem digitsValue_eq (h : ∀ c ∈ digits, c ∈ decimalDigits) :
    Real.digitsValue digits = decimalValue digits := by
  induction digits using List.reverseRecOn with
  | nil => rfl
  | append_singleton digits c ih =>
    rw [List.forall_mem_append, List.forall_mem_singleton] at h
    rw [digitsValue_append_singleton, ih h.1, decimalValue, decimalValue, List.reverse_concat, List.map_cons,
      Nat.ofDigits_cons, idxOf_decimalDigits h.2, Nat.add_comm]

theorem Digits.exists_cons (h : Digits digits) : ∃ c rest, digits = c :: rest ∧ c ∈ decimalDigits := by
  obtain ⟨c, rest, rfl⟩ := List.exists_cons_of_ne_nil h.nonempty
  exact ⟨c, rest, rfl, h.decimal c List.mem_cons_self⟩

theorem point_notMem (h : ∀ c ∈ digits, c ∈ decimalDigits) : '.' ∉ digits :=
  fun hpoint => absurd (h '.' hpoint) (by decide)

/-! Signs. -/

theorem Sign.unsigned (hsign : Sign sign) (hplus : body.head? ≠ some '+') (hminus : body.head? ≠ some '-') :
    Word.unsigned (sign ++ body) = body := by
  cases hsign with
  | none =>
    cases body with
    | nil => rfl
    | cons c rest =>
      rw [List.head?_cons, Ne, Option.some_inj] at hplus hminus
      rw [List.nil_append, unsigned_cons, if_neg (by simp [hplus, hminus])]
  | plus => rfl
  | minus => rfl

theorem exists_sign (word : List Char) : ∃ sign, Sign sign ∧ word = sign ++ unsigned word := by
  unfold unsigned
  split
  . exact ⟨['+'], .plus, rfl⟩
  . exact ⟨['-'], .minus, rfl⟩
  . exact ⟨[], .none, rfl⟩

theorem mem_unsigned (h : c ∈ word) (hplus : c ≠ '+') (hminus : c ≠ '-') : c ∈ unsigned word := by
  obtain ⟨sign, hsign, hword⟩ := exists_sign word
  rw [hword] at h
  refine (List.mem_append.1 h).resolve_left ?_
  cases hsign <;> simp [hplus, hminus]

theorem Sign.unsigned_digits (hsign : Sign sign) (h : Digits digits) :
    Word.unsigned (sign ++ digits) = digits := by
  obtain ⟨c, rest, rfl, hc⟩ := h.exists_cons
  apply hsign.unsigned
  . rintro ⟨⟩
    exact absurd hc (by decide)
  . rintro ⟨⟩
    exact absurd hc (by decide)

theorem Sign.unsigned_real (hsign : Sign sign) (h : Digits (whole ++ fraction)) :
    Word.unsigned (sign ++ (whole ++ '.' :: fraction)) = whole ++ '.' :: fraction := by
  cases whole with
  | nil => apply hsign.unsigned <;> simp
  | cons c rest =>
    have hc := h.decimal c (by simp)
    apply hsign.unsigned
    . rintro ⟨⟩
      exact absurd hc (by decide)
    . rintro ⟨⟩
      exact absurd hc (by decide)

/-! Words. -/

theorem startsNumber_iff : startsNumber (unsigned word) ↔ NumberStart word := by
  constructor
  . intro h
    obtain ⟨sign, hsign, hword⟩ := exists_sign word
    rw [hword]
    cases hbody : unsigned word with
    | nil =>
      rw [hbody] at h
      contradiction
    | cons c rest =>
      rw [hbody, startsNumber_cons, Bool.or_eq_true, Bool.and_eq_true, beq_iff_eq] at h
      rcases h with hdigit | ⟨rfl, hdigit⟩
      . exact .digit hsign (isDigit_iff.1 hdigit)
      . cases rest with
        | nil => contradiction
        | cons d rest => exact .point hsign (isDigit_iff.1 hdigit)
  . intro h
    cases h with
    | @digit sign rest c hsign hc =>
      rw [hsign.unsigned]
      . exact startsNumber_of_isDigit (isDigit_iff.2 hc) rest
      . rintro ⟨⟩
        exact absurd hc (by decide)
      . rintro ⟨⟩
        exact absurd hc (by decide)
    | @point sign rest c hsign hc =>
      rw [hsign.unsigned (by simp) (by simp), startsNumber_cons, Bool.or_eq_true]
      exact .inr (isDigit_iff.2 hc)

/--
The characters of a word are those of numbers.
-/
def Numeric (body : List Char) : Prop :=
  body.all fun c => c == '.' || isNumeral c

theorem numeric_iff : Numeric body ↔ ∀ c ∈ body, c ∈ decimalDigits ∨ c = '.' := by
  simp only [Numeric, List.all_eq_true, Bool.or_eq_true, isNumeral_eq, isDigit_iff, beq_iff_eq, or_comm]

theorem integerSyntax_iff : IntegerSyntax word ↔
    NumberStart word ∧ Numeric (unsigned word) ∧ (unsigned word).count '.' = 0 := by
  constructor
  . rintro ⟨hsign, hdigits⟩
    obtain ⟨c, rest, hcons, hc⟩ := hdigits.exists_cons
    refine ⟨?_, ?_, ?_⟩
    . rw [hcons]
      exact .digit hsign hc
    . rw [hsign.unsigned_digits hdigits, numeric_iff]
      exact fun c hc => .inl (hdigits.decimal c hc)
    . rw [hsign.unsigned_digits hdigits]
      exact List.count_eq_zero.2 (point_notMem hdigits.decimal)
  . rintro ⟨hstart, hnumeric, hcount⟩
    obtain ⟨sign, hsign, hword⟩ := exists_sign word
    rw [hword]
    refine .mk hsign ⟨?_, ?_⟩
    . intro hempty
      rw [← startsNumber_iff, hempty] at hstart
      contradiction
    . intro c hc
      rcases numeric_iff.1 hnumeric c hc with hdigit | rfl
      . exact hdigit
      . exact absurd hc (List.count_eq_zero.1 hcount)

theorem realSyntax_iff : RealSyntax word ↔
    NumberStart word ∧ Numeric (unsigned word) ∧ (unsigned word).count '.' = 1 := by
  constructor
  . rintro ⟨hsign, hdigits⟩
    rename_i sign whole fraction
    obtain ⟨hwhole, hfraction⟩ := List.forall_mem_append.1 hdigits.decimal
    refine ⟨?_, ?_, ?_⟩
    . cases whole with
      | nil =>
        obtain ⟨c, rest, rfl, hc⟩ := hdigits.exists_cons
        exact .point hsign hc
      | cons c rest => exact .digit hsign (hwhole c List.mem_cons_self)
    . rw [hsign.unsigned_real hdigits, numeric_iff]
      intro c hc
      rcases List.mem_append.1 hc with hc | hc
      . exact .inl (hwhole c hc)
      . rcases List.mem_cons.1 hc with rfl | hc
        . exact .inr rfl
        . exact .inl (hfraction c hc)
    . rw [hsign.unsigned_real hdigits, List.count_append, List.count_cons_self,
        List.count_eq_zero.2 (point_notMem hwhole), List.count_eq_zero.2 (point_notMem hfraction)]
  . rintro ⟨hstart, hnumeric, hcount⟩
    obtain ⟨sign, hsign, hword⟩ := exists_sign word
    have hpoint : '.' ∈ unsigned word := List.count_pos_iff.1 (by omega)
    obtain ⟨whole, fraction, hbody⟩ := List.append_of_mem hpoint
    rw [hbody, List.count_append, List.count_cons_self] at hcount
    have hwhole : '.' ∉ whole := List.count_eq_zero.1 (by omega)
    have hfraction : '.' ∉ fraction := List.count_eq_zero.1 (by omega)
    rw [hbody] at hnumeric
    rw [hword, hbody]
    refine .mk hsign ⟨?_, ?_⟩
    . intro hempty
      obtain ⟨rfl, rfl⟩ := List.append_eq_nil_iff.1 hempty
      rw [← startsNumber_iff, hbody] at hstart
      contradiction
    . intro c hc
      rcases numeric_iff.1 hnumeric c (by simp at hc ⊢; tauto) with hdigit | rfl
      . exact hdigit
      . exact absurd hc (by simp [hwhole, hfraction])

theorem IntegerSyntax.exists_denotes (h : IntegerSyntax word) : ∃ n, Denotes word n := by
  obtain ⟨hsign, hdigits⟩ := h
  cases hsign with
  | none => exact ⟨_, .unsigned hdigits⟩
  | plus => exact ⟨_, .plus hdigits⟩
  | minus => exact ⟨_, .minus hdigits⟩

variable {n : Int}

theorem Denotes.syntax (h : Denotes word n) : IntegerSyntax word := by
  cases h with
  | unsigned hdigits => exact .mk .none hdigits
  | plus hdigits => exact .mk .plus hdigits
  | minus hdigits => exact .mk .minus hdigits

theorem Denotes.integerValue_eq (h : Denotes word n) : integerValue word = n := by
  cases h with
  | unsigned hdigits =>
    have hminus : word.head? ≠ some '-' := by
      obtain ⟨c, rest, rfl, hc⟩ := hdigits.exists_cons
      rintro ⟨⟩
      exact absurd hc (by decide)
    have hunsigned : Word.unsigned word = word := Sign.none.unsigned_digits hdigits
    rw [integerValue, hunsigned, digitsValue_eq hdigits.decimal]
    exact if_neg hminus
  | @plus digits hdigits =>
    have hunsigned : Word.unsigned ('+' :: digits) = digits := rfl
    rw [integerValue, hunsigned, digitsValue_eq hdigits.decimal]
    rfl
  | @minus digits hdigits =>
    have hunsigned : Word.unsigned ('-' :: digits) = digits := rfl
    rw [integerValue, hunsigned, digitsValue_eq hdigits.decimal]
    rfl

/-! Classes. -/

theorem classify_integer (h : IntegerSyntax word) :
    classify word = .ok (.integer (String.ofList word)) := by
  obtain ⟨hstart, hnumeric, hcount⟩ := integerSyntax_iff.1 h
  rw [classify, startsNumber_iff.2 hstart, hnumeric, hcount]
  rfl

theorem classify_real (h : RealSyntax word) : classify word = .ok (.real (String.ofList word)) := by
  obtain ⟨hstart, hnumeric, hcount⟩ := realSyntax_iff.1 h
  rw [classify, startsNumber_iff.2 hstart, hnumeric, hcount]
  rfl

theorem classify_symbol (h : ¬ NumberStart word) : classify word = .ok (.symbol (String.ofList word)) := by
  rw [classify, Bool.eq_false_iff.2 (mt startsNumber_iff.1 h)]
  rfl

theorem classify_malformed (hstart : NumberStart word) (hnumeric : ¬ Numeric (unsigned word)) :
    classify word = .error (.malformedNumber (String.ofList word)) := by
  rw [classify, startsNumber_iff.2 hstart, Bool.eq_false_iff.2 hnumeric]
  rfl

/--
The word starts like a number and is none.
-/
theorem classify_neither (hstart : NumberStart word) (hinteger : ¬ IntegerSyntax word)
    (hreal : ¬ RealSyntax word) :
    classify word = .error (.malformedNumber (String.ofList word)) ∨
      classify word = .error (.manyPoints (String.ofList word)) := by
  by_cases hnumeric : Numeric (unsigned word)
  . right
    obtain ⟨k, hk⟩ : ∃ k, (unsigned word).count '.' = k + 2 := by
      have hzero : (unsigned word).count '.' ≠ 0 :=
        fun h => hinteger (integerSyntax_iff.2 ⟨hstart, hnumeric, h⟩)
      have hone : (unsigned word).count '.' ≠ 1 := fun h => hreal (realSyntax_iff.2 ⟨hstart, hnumeric, h⟩)
      exact Nat.exists_eq_add_of_le' (by omega)
    rw [classify, startsNumber_iff.2 hstart, hnumeric, hk]
    rfl
  . exact .inl (classify_malformed hstart hnumeric)

/-! Reading. -/

theorem Sign.inner (hsign : Sign sign) : ∀ c ∈ sign, isEnd c = false := by
  cases hsign with
  | none => nofun
  | plus => exact List.forall_mem_singleton.2 rfl
  | minus => exact List.forall_mem_singleton.2 rfl

theorem NumberStart.ne_nil (h : NumberStart word) : word ≠ [] := by
  cases h <;> simp

theorem NumberStart.head? (h : NumberStart word) : word.head? ≠ some '\'' := by
  cases h with
  | digit hsign hc =>
    cases hsign with
    | none =>
      rintro ⟨⟩
      exact absurd hc (by decide)
    | plus => nofun
    | minus => nofun
  | point hsign _ => cases hsign <;> nofun

theorem NumberStart.spells {a : Atom} (h : NumberStart word) (hnumeric : Numeric (unsigned word))
    (hatom : classify word = .ok a) : Spells word a := by
  refine ⟨h.ne_nil, ?_, h.head?, hatom⟩
  obtain ⟨sign, hsign, hword⟩ := exists_sign word
  rw [hword, List.forall_mem_append]
  refine ⟨hsign.inner, fun c hc => ?_⟩
  rcases numeric_iff.1 hnumeric c hc with hdigit | rfl
  . exact isEnd_of_isDigit (isDigit_iff.2 hdigit)
  . rfl

theorem IntegerSyntax.spells (h : IntegerSyntax word) :
    Spells word (.integer (String.ofList word)) := by
  obtain ⟨hstart, hnumeric, -⟩ := integerSyntax_iff.1 h
  exact hstart.spells hnumeric (classify_integer h)

theorem RealSyntax.spells (h : RealSyntax word) : Spells word (.real (String.ofList word)) := by
  obtain ⟨hstart, hnumeric, -⟩ := realSyntax_iff.1 h
  exact hstart.spells hnumeric (classify_real h)

end Word

theorem Expr.parse_word (file : String) {word : List Char} {a : Atom} (ha : a.text = word) (h : a.Proper) :
    ∃ location, Expr.parse file word = (a.toForm location).map fun form => [.node (some location) form] := by
  obtain ⟨location, hread⟩ := Datum.readAll_atom file h
  refine ⟨location, ?_⟩
  rw [Expr.parse, ← ha, hread]
  simp only [bind, Except.bind, List.mapM_cons, List.mapM_nil, Datum.toExpr]
  cases a.toForm location <;> rfl

namespace Word

variable {word : List Char} {n : Int}

/--
The word of an integer is read as this integer if it fits.
-/
theorem Denotes.parse_eq (h : Denotes word n) (file : String) :
    ∃ location, Expr.parse file word =
      if Int64.minValue.toInt ≤ n ∧ n ≤ Int64.maxValue.toInt then
        .ok [.node (some location) (.literal (.integer (.ofInt n)))]
      else .error (.atPlace location (.integerRange (String.ofList word))) := by
  have htext : (Atom.integer (String.ofList word)).text = word := String.toList_ofList
  have hproper : (Atom.integer (String.ofList word)).Proper := by
    show Spells (String.ofList word).toList _
    rw [String.toList_ofList]
    exact h.syntax.spells
  obtain ⟨location, hparse⟩ := Expr.parse_word file htext hproper
  refine ⟨location, ?_⟩
  rw [hparse, Atom.toForm, String.toList_ofList, h.integerValue_eq]
  split
  . rfl
  . rfl

/--
What a word is, as far as the grammar of numbers decides it.
-/
structure Classified (word : List Char) : Prop where
  integer : classify word = .ok (.integer (String.ofList word)) ↔ IntegerSyntax word
  real : classify word = .ok (.real (String.ofList word)) ↔ RealSyntax word
  symbol : classify word = .ok (.symbol (String.ofList word)) ↔ ¬ NumberStart word
  malformed : classify word = .error (.malformedNumber (String.ofList word)) ∨
      classify word = .error (.manyPoints (String.ofList word)) ↔
    NumberStart word ∧ ¬ IntegerSyntax word ∧ ¬ RealSyntax word

theorem classified (word : List Char) : Classified word := by
  by_cases hstart : NumberStart word
  . by_cases hinteger : IntegerSyntax word
    . have hreal : ¬ RealSyntax word := by
        intro hreal
        have hzero := (integerSyntax_iff.1 hinteger).2.2
        have hone := (realSyntax_iff.1 hreal).2.2
        omega
      constructor <;> simp [classify_integer hinteger, *]
    . by_cases hreal : RealSyntax word
      . constructor <;> simp [classify_real hreal, *]
      . rcases classify_neither hstart hinteger hreal with h | h
        . constructor <;> simp [*]
        . constructor <;> simp [*]
  . have hinteger : ¬ IntegerSyntax word := fun h => hstart (integerSyntax_iff.1 h).1
    have hreal : ¬ RealSyntax word := fun h => hstart (realSyntax_iff.1 h).1
    constructor <;> simp [classify_symbol hstart, *]

theorem IntegerSyntax.existsUnique_denotes (h : IntegerSyntax word) : ∃! n, Denotes word n := by
  obtain ⟨n, hn⟩ := h.exists_denotes
  refine ⟨n, hn, fun m hm => ?_⟩
  rw [← hm.integerValue_eq, hn.integerValue_eq]

/--
The grammar decides what a word is. An integer word denotes exactly one number, and it is read as this number
if 64 bits hold it; else it is refused.
-/
theorem number_syntax (word : List Char) (file : String) :
    Classified word ∧ (IntegerSyntax word → ∃! n, Denotes word n) ∧
      ∀ n, Denotes word n →
        ((∃ location v, Expr.parse file word = .ok [.node (some location) (.literal (.integer v))] ∧
          v.toInt = n) ↔ -2 ^ 63 ≤ n ∧ n < 2 ^ 63) ∧
        (¬ (-2 ^ 63 ≤ n ∧ n < 2 ^ 63) → ∃ location,
          let e := ReadError.atPlace location (.integerRange (String.ofList word))
          Expr.parse file word = .error e ∧ e.isIncomplete = false) := by
  refine ⟨classified word, IntegerSyntax.existsUnique_denotes, fun n hn => ?_⟩
  obtain ⟨location, hparse⟩ := hn.parse_eq file
  have hrange : Int64.minValue.toInt ≤ n ∧ n ≤ Int64.maxValue.toInt ↔ -2 ^ 63 ≤ n ∧ n < 2 ^ 63 := by
    rw [Int64.toInt_minValue, Int64.toInt_maxValue]
    omega
  rw [hparse]
  simp only [hrange]
  by_cases hfits : -2 ^ 63 ≤ n ∧ n < 2 ^ 63
  . rw [if_pos hfits]
    refine ⟨⟨fun _ => hfits, fun _ => ⟨location, .ofInt n, rfl, ?_⟩⟩, fun h => absurd hfits h⟩
    exact Int64.toInt_ofInt_of_le hfits.1 hfits.2
  . rw [if_neg hfits]
    exact ⟨⟨nofun, fun h => absurd h hfits⟩, fun _ => ⟨location, rfl, rfl⟩⟩

/--
A letter whose number ends in the byte of a digit is no digit.
-/
example : classify ['1', '\u0130'] = .error (.malformedNumber (String.ofList ['1', '\u0130'])) := by
  rfl

end Word

end LispScript

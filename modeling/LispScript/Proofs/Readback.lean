import LispScript.Proofs.NumberSyntax
import LispScript.Proofs.RealReading

/-!
This module contains the reals that are read back from their printed form. These are the ones that are printed
without an exponent; a number with an exponent is none for the reader.
-/

namespace LispScript

/-! Literals. -/

/--
`Q` holds of what was read, if anything was.
-/
def Gives {α : Type} (Q : α → Prop) (x : Except ReadError α) : Prop :=
  ∀ a, x = .ok a → Q a

namespace Gives

variable {α β : Type} {Q : α → Prop} {R : β → Prop}

theorem ok {a : α} (h : Q a) : Gives Q (.ok a) := by
  rintro _ ⟨⟩
  exact h

theorem refuse (location : Location) (fault : ReadFault) : Gives Q (refuse location fault) :=
  nofun

theorem bind {x : Except ReadError α} {f : α → Except ReadError β} (hx : Gives Q x)
    (h : ∀ a, Q a → Gives R (f a)) : Gives R (x >>= f) := by
  cases x with
  | ok a => exact h a (hx a rfl)
  | error e => nofun

theorem of_forall {x : Except ReadError α} {f : α → Except ReadError β} (h : ∀ a, Gives R (f a)) :
    Gives R (x >>= f) :=
  bind (fun _ _ => trivial) fun a _ => h a

end Gives

def Form.Compound (form : Form Literal) : Prop :=
  ∀ l, form ≠ .literal l

def Expr.Compound (e : Expr Literal) : Prop :=
  ∀ location l, e ≠ .node location (.literal l)

theorem Form.Compound.node {form : Form Literal} (h : form.Compound) (location : Location) :
    (Expr.node (some location) form).Compound := by
  rintro _ l ⟨⟩
  exact h l rfl

-- A form takes what it takes in some order, and then it is put together.
theorem SpecialForm.assemble_compound (form : SpecialForm) (location : Location) (args : List Argument) :
    Gives Form.Compound (form.assemble location args) := by
  unfold assemble
  split
  all_goals
    repeat
      first
      | refine Gives.of_forall fun _ => ?_
      | exact Gives.refuse _ _
      | exact Gives.ok nofun

namespace Datum

theorem toExpr_list_compound (location : Location) (items : List Datum) :
    Gives Expr.Compound (Datum.list location items).toExpr := by
  cases items with
  | nil =>
    rw [toExpr]
    apply Gives.refuse
  | cons head args =>
    rw [toExpr.eq_def]
    dsimp only
    split
    . refine .of_forall fun _ => .of_forall fun _ => .ok ?_
      rintro _ _ ⟨⟩
    . split
      . apply Gives.refuse
      . split
        . refine .of_forall fun _ => .ok ?_
          rintro _ _ ⟨⟩
        . split
          . exact .bind (SpecialForm.assemble_compound _ _ _) fun _ h => .ok (h.node _)
          . apply Gives.refuse
        . refine .of_forall fun _ => .ok ?_
          rintro _ _ ⟨⟩
    . apply Gives.refuse

/--
A literal is read from an atom.
-/
theorem toExpr_literal {d : Datum} {location? : Option Location} {l : Literal}
    (h : d.toExpr = .ok (.node location? (.literal l))) :
    ∃ location a, d = .atom location a ∧ a.toForm location = .ok (.literal l) := by
  cases d with
  | atom location a =>
    refine ⟨location, a, rfl, ?_⟩
    rw [toExpr] at h
    cases hform : a.toForm location with
    | error e =>
      rw [hform] at h
      contradiction
    | ok form =>
      rw [hform] at h
      cases h
      rfl
  | list location items => exact absurd rfl (toExpr_list_compound location items _ h location? l)

end Datum

theorem Literal.parse_eq_ok {source : List Char} {l : Literal} (h : Literal.parse source = .ok l) :
    ∃ location a, Datum.readAll inputName source = .ok [.atom location a] ∧
      a.toForm location = .ok (.literal l) := by
  rw [parse] at h
  cases hread : Datum.readAll inputName source with
  | error e =>
    rw [hread] at h
    contradiction
  | ok data =>
    rw [hread] at h
    obtain ⟨d, rfl⟩ : ∃ d, data = [d] := by
      match data with
      | [d] => exact ⟨d, rfl⟩
      | [] => contradiction
      | _ :: _ :: _ => contradiction
    cases hexpr : d.toExpr with
    | error e =>
      simp [bind, Except.bind, hexpr] at h
    | ok e =>
      simp only [bind, Except.bind, hexpr] at h
      split at h
      . next l' =>
        cases h
        obtain ⟨location, a, rfl, hform⟩ := Datum.toExpr_literal hexpr
        exact ⟨location, a, rfl, hform⟩
      . contradiction

/--
A real that is read is a number, and it is finite.
-/
theorem Literal.parse_real {source : List Char} {x : Float} (h : Literal.parse source = .ok (.real x)) :
    x.isNaN = false ∧ x.isInf = false := by
  obtain ⟨location, a, -, hform⟩ := parse_eq_ok h
  unfold Atom.toForm at hform
  split at hform
  . dsimp only at hform
    split at hform <;> nomatch hform
  . next word =>
    dsimp only at hform
    split at hform
    . contradiction
    . next hfinite =>
      cases hform
      exact ⟨Real.isNaN_ofDigits _ _ _ _, by simpa using hfinite⟩
  . nomatch hform
  . nomatch hform
  . split at hform
    . next hname =>
      cases hform
      unfold reserved? at hname
      split at hname <;> nomatch hname
    . nomatch hform

/-! Numbers with an exponent. -/

theorem Lexer.Spells.finish {l : Lexer} {read : List Char} {found : List Lexeme} (h : l.Spells read found)
    {fault : ReadFault} (hfault : Word.classify read.reverse = .error fault) :
    ∃ location, l.finish.error = some (.atPlace location fault) ∧ l.finish.tokens = l.tokens := by
  obtain ⟨start, hmode⟩ := h.mode
  refine ⟨l.locate start (l.place.offset - start.offset), ?_⟩
  rw [Lexer.finish, h.error, hmode]
  simp [endWord, hfault, fail]

/--
A text that is one word is refused if the word is none.
-/
theorem Datum.readAll_word (file : String) {word : List Char} {fault : ReadFault} (hne : word ≠ [])
    (hinner : ∀ c ∈ word, Word.isEnd c = false) (hstart : word.head? ≠ some '\'')
    (hfault : Word.classify word = .error fault) :
    ∃ location, Datum.readAll file word = .error (.atPlace location fault) := by
  have hrests : Lexer.Rests { file } [] := ⟨rfl, rfl, rfl⟩
  have hspells := hrests.spells hne hinner hstart
  obtain ⟨location, herror, htokens⟩ := hspells.finish (by rwa [List.reverse_reverse])
  rw [List.map_eq_nil_iff.1 hspells.tokens] at htokens
  refine ⟨location, ?_⟩
  rw [Datum.readAll, Token.scan, herror, htokens]
  rfl

namespace Real

open Decimal (Moderate Binary Plain exponential)
open Word (decimalDigits)

variable {x : Float}

theorem exponential_inner : ∀ c ∈ exponential, Word.isEnd c = false := by
  simp only [exponential, List.forall_mem_cons]
  exact ⟨rfl, rfl, rfl, rfl, fun c hc => Word.isEnd_of_isDigit (Word.isDigit_iff.2 hc)⟩

theorem Proper.exponent_mem_text (h : Proper x) (hlarge : ¬ Moderate (magnitude x)) :
    'e' ∈ (text x).toList := by
  rw [h.magnitude_eq, ← Decimal.isPositional_shortest_iff h.fits] at hlarge
  obtain ⟨c, rest, htext, -, he, -⟩ := h.text_exponential hlarge
  simp [htext, he]

/--
A number with an exponent is one word, but the reader takes it for a number that is none.
-/
theorem Proper.parse_exponential (h : Proper x) (hlarge : ¬ Moderate (magnitude x)) :
    ∃ location, Literal.parse (text x).toList = .error (.atPlace location (.malformedNumber (text x))) := by
  have he := h.exponent_mem_text hlarge
  rw [h.magnitude_eq, ← Decimal.isPositional_shortest_iff h.fits] at hlarge
  obtain ⟨c, rest, htext, hc, -, hrest⟩ := h.text_exponential hlarge
  have hsign := sign_sign x
  have hstart : Word.NumberStart (text x).toList := by
    rw [htext]
    exact .digit hsign hc
  have hinner : ∀ d ∈ (text x).toList, Word.isEnd d = false := by
    rw [htext, List.forall_mem_append, List.forall_mem_cons]
    have hdigit := Word.isEnd_of_isDigit (Word.isDigit_iff.2 hc)
    exact ⟨hsign.inner, hdigit, fun d hd => exponential_inner d (hrest d hd)⟩
  have hnumeric : ¬ Word.Numeric (Word.unsigned (text x).toList) := by
    rw [Word.numeric_iff]
    intro hall
    rcases hall 'e' (Word.mem_unsigned he (by decide) (by decide)) with hdigit | hpoint
    . exact absurd hdigit (by decide)
    . exact absurd hpoint (by decide)
  have hclassify := Word.classify_malformed hstart hnumeric
  rw [String.ofList_toList] at hclassify
  obtain ⟨location, hread⟩ := Datum.readAll_word inputName hstart.ne_nil hinner hstart.head? hclassify
  refine ⟨location, ?_⟩
  rw [Literal.parse, hread]
  rfl

/-! Numbers without an exponent. -/

/--
A text without an exponent is read as what its word stands for.
-/
theorem parse_plain {v : ℚ} {whole fraction : List Char} (hplain : Plain v whole fraction)
    (htext : (text x).toList = sign x ++ (whole ++ '.' :: fraction))
    (hvalue : Word.realValue (text x).toList = x) (hfinite : x.isInf = false) :
    Literal.parse (text x).toList = .ok (.real x) := by
  have hsyntax : Word.RealSyntax (text x).toList := by
    rw [htext]
    exact .mk (sign_sign x) hplain.digits
  have hproper : (Atom.real (text x)).Proper := by
    have hspells := hsyntax.spells
    rwa [String.ofList_toList] at hspells
  obtain ⟨location, hread⟩ := Datum.readAll_atom inputName hproper
  have hread : Datum.readAll inputName (text x).toList = .ok [.atom location (.real (text x))] := hread
  rw [Literal.parse, hread]
  simp only [bind, Except.bind, Datum.toExpr, Atom.toForm, hvalue, hfinite]
  rfl

/--
A number without an exponent has all of its binary digits.
-/
theorem Proper.normal_of_moderate (h : Proper x) (hmoderate : Moderate (Binary.ofFloat x).value) :
    (Binary.ofFloat x).Normal := by
  apply h.normal
  by_contra hsmall
  have hdigits : ((Binary.ofFloat x).mantissa : ℚ) ≤ 2 ^ 53 := by exact_mod_cast h.fits.digits.le
  have hscaled : (2 : ℚ) ^ (Binary.ofFloat x).exponent ≤ 2 ^ (-1074 : Int) :=
    zpow_le_zpow_right₀ one_le_two (by omega)
  have hvalue : (Binary.ofFloat x).value ≤ 2 ^ 53 * 2 ^ (-1074 : Int) :=
    mul_le_mul hdigits hscaled (Decimal.two_zpow_pos _).le (by norm_num)
  have htiny : (2 ^ 53 * 2 ^ (-1074 : Int) : ℚ) < 1 / 10 ^ 4 := by
    rw [← zpow_natCast, ← zpow_add₀ two_ne_zero]
    calc
      (2 : ℚ) ^ (53 + -1074 : Int) ≤ 2 ^ (-14 : Int) := zpow_le_zpow_right₀ one_le_two (by decide)
      _ < 1 / 10 ^ 4 := by norm_num
  exact absurd (hmoderate.1.trans hvalue) (not_le.2 htiny)

theorem Proper.parse_positional (h : Proper x) (hmoderate : Moderate (magnitude x)) :
    Literal.parse (text x).toList = .ok (.real x) := by
  rw [h.magnitude_eq] at hmoderate
  have hnormal := h.normal_of_moderate hmoderate
  obtain ⟨whole, fraction, hplain, htext⟩ :=
    h.text_plain ((Decimal.isPositional_shortest_iff h.fits).2 hmoderate)
  apply parse_plain hplain htext _ h.finite
  rw [htext]
  exact h.realValue_eq hnormal (Decimal.shortest_covers h.fits) hplain

theorem finite_of_zero (h : x == 0) : x.isInf = false := by
  rcases eq_zero_of_beq h with rfl | rfl <;> decide +kernel

theorem toList_text_zero (h : x == 0) : (text x).toList = sign x ++ (['0'] ++ '.' :: ['0']) := by
  have hnumber : x.isNaN = false := by
    rcases eq_zero_of_beq h with rfl | rfl <;> decide +kernel
  have hfinite := finite_of_zero h
  have hnegative : (x.toBits >>> 63 == 1) = isNegative x := rfl
  have hshort : (shortText x).toList = sign x ++ ['0'] := by
    rw [shortText, hnumber, hfinite, h, hnegative, sign]
    cases isNegative x with
    | true => simp
    | false => simp
  rw [toList_text, hshort, sign]
  cases isNegative x with
  | true => rfl
  | false => rfl

theorem parse_zero (h : x == 0) : Literal.parse (text x).toList = .ok (.real x) := by
  have hplain : Plain 0 ['0'] ['0'] := ⟨Decimal.digits_zero, Decimal.digits_zero, by norm_num [digitsValue]⟩
  have htext := toList_text_zero h
  apply parse_plain hplain htext _ (finite_of_zero h)
  rw [htext, Real.realValue_eq hplain, ← Float.toBits_inj]
  -- The sign tells the two zeros apart.
  rcases eq_zero_of_beq h with rfl | rfl
  . decide +kernel
  . decide +kernel

theorem magnitude_eq_zero (h : x == 0) : magnitude x = 0 := by
  rcases eq_zero_of_beq h with rfl | rfl
  . decide +kernel
  . decide +kernel

theorem Proper.magnitude_pos (h : Proper x) : 0 < magnitude x := by
  rw [h.magnitude_eq]
  exact mul_pos (by exact_mod_cast h.fits.pos) (Decimal.two_zpow_pos _)

/--
A real that has been read is read back from its printed form if it is zero or is at least `10 ^ -4` and
less than `10 ^ 6`, whatever its sign. Every other one is printed with an exponent, and this is refused.
-/
theorem parse_text {source : List Char} (h : Literal.parse source = .ok (.real x)) :
    (magnitude x = 0 ∨ Moderate (magnitude x) → Literal.parse (text x).toList = .ok (.real x)) ∧
      (¬ (magnitude x = 0 ∨ Moderate (magnitude x)) → 'e' ∈ (text x).toList ∧ ∃ location,
        Literal.parse (text x).toList = .error (.atPlace location (.malformedNumber (text x)))) := by
  obtain ⟨hnumber, hfinite⟩ := Literal.parse_real h
  cases hzero : x == 0 with
  | true =>
    have hmagnitude := magnitude_eq_zero hzero
    exact ⟨fun _ => parse_zero hzero, fun hneither => absurd (.inl hmagnitude) hneither⟩
  | false =>
    have hproper : Proper x := ⟨hnumber, hfinite, hzero⟩
    have hpos := hproper.magnitude_pos
    constructor
    . rintro (hmagnitude | hmoderate)
      . exact absurd hmagnitude hpos.ne'
      . exact hproper.parse_positional hmoderate
    . intro hneither
      have hlarge : ¬ Moderate (magnitude x) := fun hmoderate => hneither (.inr hmoderate)
      exact ⟨hproper.exponent_mem_text hlarge, hproper.parse_exponential hlarge⟩

theorem parse_text_both_sides :
    Literal.parse "-0.1".toList = .ok (.real (-0.1)) ∧
      Literal.parse (text (-0.1)).toList = .ok (.real (-0.1)) ∧
      Literal.parse "1000000.0".toList = .ok (.real 1000000.0) ∧
      ∃ location, Literal.parse (text 1000000.0).toList
        = .error (.atPlace location (.malformedNumber (text 1000000.0))) := by
  have htenth : Literal.parse "-0.1".toList = .ok (.real (-0.1)) := by rfl
  have hmillion : Literal.parse "1000000.0".toList = .ok (.real 1000000.0) := by rfl
  have hsmall : (-0.1 : Float).toModel.unpack = .finite .negative 7205759403792794 (-56) (by decide) := by
    rfl
  have hlarge : (1000000.0 : Float).toModel.unpack = .finite .positive 8589934592000000 (-33) (by decide) := by
    rfl
  refine ⟨htenth, (parse_text htenth).1 (.inr ?_), hmillion, ((parse_text hmillion).2 ?_).2⟩
  . rw [magnitude, hsmall, Moderate]
    norm_num
  . rw [magnitude, hlarge, Moderate]
    norm_num

/--
A million is printed with an exponent, although it can be written without one.
-/
theorem million_not_read_back :
    Literal.parse "1000000.0".toList = .ok (.real 1000000.0) ∧ text 1000000.0 = "1e+06" ∧
      Literal.parse (text 1000000.0).toList ≠ .ok (.real 1000000.0) := by
  have hshort : shortText 1000000.0 = "1e+06" := by rfl
  have htext : text 1000000.0 = "1e+06" := by
    rw [← String.toList_inj, toList_text, hshort]
    rfl
  refine ⟨by rfl, htext, ?_⟩
  rw [htext]
  nofun

end Real

end LispScript

import LispScript.Proofs.RoundTrip
import LispScript.Grammar

/-!
This module contains the proof that null, an integer, a Boolean, a character or a string is read back
from its printed form. The printed form is that of an atom, so that it stands on one line and has no
blanks around it.
-/

namespace LispScript

/-! Integers. -/

namespace Word

theorem digitsValue_toDigits (n : Nat) : Real.digitsValue (Nat.toDigits 10 n) = n := by
  have hfold : Real.digitsValue (Nat.toDigits 10 n)
      = Nat.ofDigitChars 10 (Nat.toDigits 10 n) 0 := by
    rw [Nat.ofDigitChars_eq_foldl]
    rfl
  rw [hfold, Nat.ofDigitChars_ten_toDigits]

theorem isEnd_of_isDigit {c : Char} (h : c.isDigit) : isEnd c = false := by
  apply Bool.eq_false_iff.2
  intro hend
  simp [Char.isDigit, UInt32.le_iff_toNat_le] at h
  simp [isEnd, isBlank, Char.le_def, Char.ext_iff, UInt32.le_iff_toNat_le, ← UInt32.toNat_inj] at hend
  omega

/--
A word that is a sign, if any, and digits.
-/
structure Numeral (sign digits : List Char) : Prop where
  sign : sign = [] ∨ sign = ['-']
  nonempty : digits ≠ []
  digits : ∀ c ∈ digits, c.isDigit

namespace Numeral

variable {sign digits : List Char}

theorem head (h : Numeral sign digits) : ∃ d rest, digits = d :: rest ∧ d.isDigit := by
  cases digits with
  | nil => exact absurd rfl h.nonempty
  | cons d rest => exact ⟨d, rest, rfl, h.digits d List.mem_cons_self⟩

theorem unsigned (h : Numeral sign digits) : Word.unsigned (sign ++ digits) = digits := by
  obtain ⟨d, rest, rfl, hd⟩ := h.head
  obtain hsign | hsign := h.sign
  . rw [hsign, List.nil_append]
    unfold Word.unsigned
    split
    . next heq =>
      cases heq
      contradiction
    . next heq =>
      cases heq
      contradiction
    . rfl
  . rw [hsign]
    rfl

theorem inner (h : Numeral sign digits) : ∀ c ∈ sign ++ digits, isEnd c = false := by
  intro c hc
  cases List.mem_append.1 hc with
  | inl hc =>
    have hminus : c = '-' := by
      obtain hsign | hsign := h.sign
      . simp [hsign] at hc
      . simpa [hsign] using hc
    rw [hminus]
    rfl
  | inr hc => apply isEnd_of_isDigit (h.digits c hc)

theorem classify (h : Numeral sign digits) :
    Word.classify (sign ++ digits) = .ok (.integer (String.ofList (sign ++ digits))) := by
  have hstarts : startsNumber digits := by
    obtain ⟨d, rest, rfl, hd⟩ := h.head
    rw [startsNumber_cons, hd, Bool.true_or]
  have hall : ∀ c ∈ digits, ¬ c = '.' → c.isDigit := fun c hc _ => h.digits c hc
  have hcount : digits.count '.' = 0 := by
    apply List.count_eq_zero.2
    intro hpoint
    have := h.digits '.' hpoint
    contradiction
  simpa [Word.classify, h.unsigned, hstarts, hcount] using hall

theorem spells (h : Numeral sign digits) :
    Word.Spells (sign ++ digits) (.integer (String.ofList (sign ++ digits))) where
  nonempty := by simp [h.nonempty]
  inner := h.inner
  start := by
    obtain ⟨d, rest, rfl, hd⟩ := h.head
    obtain hsign | hsign := h.sign
    . rw [hsign]
      intro hquote
      cases hquote
      contradiction
    . simp [hsign]
  atom := h.classify

end Numeral

theorem toString_numeral (n : Int) : ∃ sign, Numeral sign (Nat.toDigits 10 n.natAbs) ∧
    (toString n).toList = sign ++ Nat.toDigits 10 n.natAbs ∧ (sign = ['-'] ↔ n < 0) := by
  have hdigits : ∀ c ∈ Nat.toDigits 10 n.natAbs, c.isDigit := by
    intro c hc
    apply Nat.isDigit_of_mem_toDigits (by decide) (by decide) hc
  rw [Int.toString_eq_repr, Int.repr_eq_if]
  split
  . refine ⟨[], ⟨.inl rfl, Nat.toDigits_ne_nil, hdigits⟩, ?_, ?_⟩
    . have : n.toNat = n.natAbs := by omega
      simp [this]
    . simp [*]
  . refine ⟨['-'], ⟨.inr rfl, Nat.toDigits_ne_nil, hdigits⟩, ?_, ?_⟩
    . have : (-n).toNat = n.natAbs := by omega
      simp [this]
    . simp [*]
      omega

theorem integerValue_toString (n : Int) : integerValue (toString n).toList = n := by
  obtain ⟨sign, hnumeral, htext, hsign⟩ := toString_numeral n
  have hhead : ((toString n).toList.head? = some '-') ↔ n < 0 := by
    rw [htext, ← hsign]
    obtain hs | hs := hnumeral.sign
    . obtain ⟨d, rest, hd, hdigit⟩ := hnumeral.head
      rw [hs, hd]
      simp
      rintro rfl
      contradiction
    . simp [hs]
  unfold integerValue
  rw [htext, hnumeral.unsigned, digitsValue_toDigits, ← htext]
  simp only [hhead]
  split <;> omega

end Word

/-! Lines. -/

/--
The text stands on one line, and there are no blanks around it.
-/
structure Solid (text : List Char) : Prop where
  nonempty : text ≠ []
  first : ∀ c, text.head? = some c → isBlank c = false
  last : ∀ c, text.getLast? = some c → isBlank c = false
  line : '\n' ∉ text

theorem Word.Spells.solid {word : List Char} {a : Atom} (h : Word.Spells word a) : Solid word := by
  have hblank : ∀ c ∈ word, isBlank c = false := by
    intro c hc
    have hinner := h.inner c hc
    simp only [Word.isEnd, Bool.or_eq_false_iff] at hinner
    apply hinner.1.1.1.1
  refine ⟨h.nonempty, ?_, ?_, ?_⟩
  . intro c hc
    apply hblank c (List.mem_of_head? hc)
  . intro c hc
    apply hblank c (List.mem_of_getLast? hc)
  . intro hnewline
    have := hblank '\n' hnewline
    contradiction

theorem Value.newline_notMem_charText {quote : Char} (hquote : quote ≠ '\n') (c : Char) :
    '\n' ∉ charText quote c := by
  unfold charText
  split
  . simp
  . simp
  . simp
  . simp
  . next hnewline _ _ _ =>
    split
    . simp [hquote.symm]
    . simpa using fun h => hnewline h.symm

theorem Value.quotedText_solid {quote : Char} (hquote : isBlank quote = false) (cs : List Char) :
    Solid (quotedText quote cs).toList := by
  have hnewline : quote ≠ '\n' := by
    rintro rfl
    contradiction
  unfold quotedText
  rw [String.toList_ofList]
  refine ⟨by simp, ?_, ?_, ?_⟩
  . intro c hc
    cases hc
    apply hquote
  . intro c hc
    rw [List.getLast?_append] at hc
    cases hc
    apply hquote
  . simp only [List.cons_append, List.mem_cons, List.mem_append, List.mem_flatMap, List.not_mem_nil,
      or_false, not_or, not_exists, not_and]
    exact ⟨hnewline.symm, fun c _ => newline_notMem_charText hnewline c, hnewline.symm⟩

theorem Atom.Proper.solid {a : Atom} (h : a.Proper) : Solid a.text := by
  cases a with
  | integer word => exact Word.Spells.solid h
  | real word => exact Word.Spells.solid h
  | symbol name => exact Word.Spells.solid h
  | character c => apply Value.quotedText_solid rfl
  | string content => apply Value.quotedText_solid rfl

theorem dropWhile_eq_self {α : Type} {p : α → Bool} {xs : List α}
    (h : ∀ x, xs.head? = some x → p x = false) : xs.dropWhile p = xs := by
  cases xs with
  | nil => rfl
  | cons x xs => rw [List.dropWhile_cons_of_neg (by simp [h x rfl])]

theorem Solid.trim {text : List Char} (h : Solid text) :
    (Text.ofChars text).trim = Text.ofChars text := by
  have hfirst : (Text.ofChars text).dropWhile Glyph.isBlank = Text.ofChars text := by
    apply dropWhile_eq_self
    intro g hg
    obtain ⟨c, hc, rfl⟩ := Option.map_eq_some_iff.1 (List.head?_map.symm.trans hg)
    apply h.first c hc
  have hlast : (Text.ofChars text).reverse.dropWhile Glyph.isBlank = (Text.ofChars text).reverse := by
    apply dropWhile_eq_self
    intro g hg
    rw [List.head?_reverse] at hg
    obtain ⟨c, hc, rfl⟩ := Option.map_eq_some_iff.1 (List.getLast?_map.symm.trans hg)
    apply h.last c hc
  rw [Text.trim, hfirst, hlast, List.reverse_reverse]

/-! Literals. -/

/--
The atom that a literal is written as, if it is no real.
-/
def Literal.atom? : Literal → Option Atom
  | .null => some (.symbol "null")
  | .integer n => some (.integer (toString n.toInt))
  | .real _ => none
  | .char c => some (.character c)
  | .boolean b => some (.symbol (if b then "true" else "false"))
  | .string content => some (.string content)

theorem Datum.readAll_atom (file : String) {a : Atom} (h : a.Proper) :
    ∃ location, Datum.readAll file a.text = .ok [.atom location a] := by
  have hlayout : Layout [.atom a] (a.text ++ [] ++ []) := .cons .nil (by simp) .nil
  have hproper : ∀ b, .atom b ∈ [Lexeme.atom a] → b.Proper := by
    intro b hb
    have : b = a := by simpa using hb
    rw [this]
    apply h
  obtain ⟨herror, htokens⟩ := Token.scan_layout file .nil hlayout hproper
  simp only [List.append_nil, List.nil_append] at herror htokens
  obtain ⟨t, rest, htoken, ht, hrest⟩ := List.map_eq_cons_iff.1 htokens
  rw [List.map_eq_nil_iff.1 hrest] at htoken
  refine ⟨t.location, ?_⟩
  unfold Datum.readAll
  simp only [htoken, herror, List.foldlM_cons, List.foldlM_nil, Reader.step, ht]
  rfl

theorem Atom.symbol_proper {name : String} (hne : name.toList ≠ [])
    (hinner : ∀ c ∈ name.toList, Word.isEnd c = false) (hstart : name.toList.head? ≠ some '\'')
    (hnumber : Word.startsNumber (Word.unsigned name.toList) = false) : (Atom.symbol name).Proper where
  nonempty := hne
  inner := hinner
  start := hstart
  atom := by simp [Word.classify, hnumber]

namespace Literal

variable {l : Literal} {a : Atom}

theorem atom_proper (h : l.atom? = some a) : a.Proper := by
  cases l with
  | null =>
    cases h
    apply Atom.symbol_proper <;> simp [Word.isEnd, isBlank, Word.unsigned, Word.startsNumber_cons]
  | integer n =>
    cases h
    obtain ⟨sign, hnumeral, htext, -⟩ := Word.toString_numeral n.toInt
    have hspells := hnumeral.spells
    rw [← htext, String.ofList_toList] at hspells
    apply hspells
  | real x => contradiction
  | char c =>
    cases h
    trivial
  | boolean b =>
    cases h
    cases b with
    | true => apply Atom.symbol_proper <;> simp [Word.isEnd, isBlank, Word.unsigned, Word.startsNumber_cons]
    | false => apply Atom.symbol_proper <;> simp [Word.isEnd, isBlank, Word.unsigned, Word.startsNumber_cons]
  | string content =>
    cases h
    trivial

theorem atom_toForm (h : l.atom? = some a) (location : Location) :
    a.toForm location = .ok (.literal l) := by
  cases l with
  | integer n =>
    cases h
    have hlow := n.minValue_le_toInt
    have hhigh := n.toInt_le
    simp only [Atom.toForm, Word.integerValue_toString]
    rw [if_pos ⟨hlow, hhigh⟩, Int64.ofInt_toInt]
  | real x => contradiction
  | boolean b =>
    cases h
    cases b <;> rfl
  | _ =>
    cases h
    rfl

theorem parse_atom (h : l.atom? = some a) : Literal.parse a.text = .ok l := by
  obtain ⟨location, hread⟩ := Datum.readAll_atom inputName (atom_proper h)
  unfold Literal.parse
  rw [hread]
  simp only [bind, Except.bind, Datum.toExpr, atom_toForm h]
  rfl

end Literal

namespace Value

/--
The literal that a value is written as, if it is null, an integer, a character, a Boolean or a string.
-/
def literal? (s : Store) : Value → Option Literal
  | null => some .null
  | integer n => some (.integer n)
  | char c => some (.char c)
  | boolean b => some (.boolean b)
  | string r => some (.string (String.ofList (s.string r).chars.toList))
  | _ => none

theorem text_literal {s : Store} {v : Value} {l : Literal} (h : v.literal? s = some l) :
    ∃ a, l.atom? = some a ∧ (v.text s).toList = a.text := by
  cases v <;> cases h
  all_goals simp [Literal.atom?, Atom.text, text, textInside, flatText]

end Value

end LispScript

/-!
Paths as text. A path is cleaned by its text alone: empty and `.` parts go away, and `..` takes back
the part before it.
-/

namespace LispScript

namespace Path

def isAbsolute (p : String) : Bool :=
  p.startsWith "/"

def parts (p : String) : List String :=
  (p.toList.splitOn '/').map String.ofList

def addPart (rooted : Bool) (done : List String) (part : String) : List String :=
  if part = "" ∨ part = "." then done
  else if part = ".." then
    match done with
    | [] => if rooted then [] else [".."]
    | ".." :: _ => ".." :: done
    | _ :: rest => rest
  else part :: done

/--
The shortest path that is the same by its text.
-/
def clean (p : String) : String :=
  let rooted := isAbsolute p
  let done := (parts p).foldl (addPart rooted) []
  let text := "/".intercalate done.reverse
  if rooted then "/" ++ text else if done.isEmpty then "." else text

def join (dir p : String) : String :=
  if p = "" then clean dir else clean (dir ++ "/" ++ p)

def directory (p : String) : String :=
  clean (String.ofList (p.toList.reverse.dropWhile (· != '/')).reverse)

def absolute (current p : String) : String :=
  if isAbsolute p then clean p else join current p

/-! The directories above a path are shorter, up to one that is its own directory. -/

def weight : List String → Nat
  | [] => 0
  | part :: ps => part.length + 1 + weight ps

theorem weight_append (ps qs : List String) : weight (ps ++ qs) = weight ps + weight qs := by
  induction ps with
  | nil => exact (Nat.zero_add _).symm
  | cons part ps ih =>
    rw [List.cons_append, weight, weight, ih]
    omega

theorem weight_reverse (ps : List String) : weight ps.reverse = weight ps := by
  induction ps with
  | nil => rfl
  | cons part ps ih =>
    rw [List.reverse_cons, weight_append, ih, weight, weight, weight]
    omega

theorem length_intercalate {ps : List String} (h : ps ≠ []) :
    ("/".intercalate ps).length + 1 = weight ps := by
  induction ps with
  | nil => contradiction
  | cons part ps ih =>
    by_cases hps : ps = []
    . rw [hps, String.intercalate_singleton]
      rfl
    . rw [String.intercalate_cons_of_ne_nil hps, String.length_append, String.length_append, Nat.add_assoc,
        ih hps]
      rfl

theorem weight_parts (p : String) : weight (parts p) = p.length + 1 := by
  have hne : parts p ≠ [] := by simp [parts]
  have htext : "/".intercalate (parts p) = p := by
    rw [← String.toList_inj, String.toList_intercalate, parts, List.map_map]
    simp [Function.comp_def, List.intercalate_splitOn]
  rw [← length_intercalate hne, htext]

theorem weight_addPart_le (rooted : Bool) (done : List String) (part : String) :
    weight (addPart rooted done part) ≤ weight done + (part.length + 1) := by
  unfold addPart
  split
  . omega
  . split
    . next hpart =>
      subst hpart
      split
      . split <;> simp [weight]
      all_goals simp [weight]; omega
    . rw [weight]
      omega

theorem weight_foldl_addPart_le (rooted : Bool) (ps done : List String) :
    weight (ps.foldl (addPart rooted) done) ≤ weight done + weight ps := by
  induction ps generalizing done with
  | nil => exact Nat.le_refl _
  | cons part ps ih =>
    have hpart := weight_addPart_le rooted done part
    have hps := ih (addPart rooted done part)
    have hsum : weight (part :: ps) = part.length + 1 + weight ps := rfl
    rw [List.foldl_cons]
    omega

theorem parts_append (s t : String) : parts (s ++ "/" ++ t) = parts s ++ parts t := by
  have htext : (s ++ "/" ++ t).toList = s.toList ++ '/' :: t.toList := by
    simp
  rw [parts, htext, List.splitOn_append_cons_self, List.map_append]
  rfl

/--
How far a path is, at most, from one that is its own directory.
-/
def height (p : String) : Nat :=
  if p = "." then 0 else p.length + 1

theorem height_le (p : String) : height p ≤ p.length + 1 := by
  unfold height
  split <;> omega

theorem isAbsolute_iff {p : String} : isAbsolute p ↔ ∃ t, p = "/" ++ t := by
  rw [isAbsolute, String.startsWith_string_iff]
  constructor
  . rintro ⟨t, ht⟩
    refine ⟨String.ofList t, ?_⟩
    rw [← String.toList_inj, ← ht]
    simp
  . rintro ⟨t, rfl⟩
    exact ⟨t.toList, by simp⟩

theorem isAbsolute_append {s t : String} (h : s ≠ "") : isAbsolute (s ++ t) = isAbsolute s := by
  have hne : s.toList ≠ [] := by simpa using h
  obtain ⟨c, cs, hs⟩ := List.exists_cons_of_ne_nil hne
  rw [Bool.eq_iff_iff]
  simp [isAbsolute, hs]

theorem length_intercalate_reverse_le (rooted : Bool) (p : String) :
    ("/".intercalate ((parts p).foldl (addPart rooted) []).reverse).length ≤ p.length := by
  have hfold := weight_foldl_addPart_le rooted (parts p) []
  rw [weight_parts] at hfold
  by_cases hdone : (parts p).foldl (addPart rooted) [] = []
  . rw [hdone]
    exact Nat.zero_le _
  . have hlength := length_intercalate (List.reverse_ne_nil_iff.2 hdone)
    rw [weight_reverse] at hlength
    have hnil : weight [] = 0 := rfl
    omega

/--
A path that ends in a slash loses the slash when it is cleaned, unless there is nothing before it.
-/
theorem height_clean_le {s : String} (h : s ≠ "") : height (clean (s ++ "/")) ≤ s.length + 1 := by
  have hparts : parts (s ++ "/") = parts s ++ [""] := by
    rw [← String.append_empty (s := s ++ "/"), parts_append]
    rfl
  have hskip (rooted : Bool) (done : List String) : addPart rooted done "" = done := by
    simp [addPart]
  rw [clean]
  simp only [hparts, List.foldl_append, List.foldl_cons, hskip, List.foldl_nil]
  split
  . next hrooted =>
    -- The part before the first slash is empty, and so it adds nothing to the text.
    obtain ⟨t, rfl⟩ := isAbsolute_iff.1 (isAbsolute_append h ▸ hrooted)
    have hfirst : parts ("/" ++ t) = "" :: parts t := by
      rw [← String.empty_append (s := "/"), parts_append]
      rfl
    rw [hfirst, List.foldl_cons, hskip]
    have hlength := length_intercalate_reverse_le (isAbsolute ("/" ++ t ++ "/")) t
    have hheight := height_le ("/" ++ "/".intercalate
      ((parts t).foldl (addPart (isAbsolute ("/" ++ t ++ "/"))) []).reverse)
    simp only [String.length_append] at hheight ⊢
    omega
  . split
    . simp [height]
    . have hlength := length_intercalate_reverse_le (isAbsolute (s ++ "/")) s
      exact Nat.le_trans (height_le _) (Nat.succ_le_succ hlength)

theorem directory_cases (p : String) :
    directory p = "." ∨ ∃ s name, p = s ++ "/" ++ name ∧ directory p = clean (s ++ "/") := by
  have hsplit := List.takeWhile_append_dropWhile (p := (· != '/')) (l := p.toList.reverse)
  rw [directory]
  cases hdrop : p.toList.reverse.dropWhile (· != '/') with
  | nil => exact .inl rfl
  | cons c before =>
    have hc : c = '/' := by
      have hhead := List.head?_dropWhile_not (· != '/') p.toList.reverse
      simpa [hdrop] using hhead
    subst hc
    have hbefore : String.ofList ('/' :: before).reverse = String.ofList before.reverse ++ "/" := by
      rw [← String.toList_inj]
      simp
    refine .inr ⟨String.ofList before.reverse,
      String.ofList (p.toList.reverse.takeWhile (· != '/')).reverse, ?_, by rw [hbefore]⟩
    rw [← hbefore, ← String.toList_inj, String.toList_append, String.toList_ofList, String.toList_ofList,
      ← List.reverse_append, ← hdrop, hsplit, List.reverse_reverse]

theorem height_directory_lt {p : String} (h : directory p ≠ p) : height (directory p) < height p := by
  have hheight : p ≠ "." → height p = p.length + 1 := fun hp => if_neg hp
  rcases directory_cases p with hdir | ⟨s, name, hp, hdir⟩
  . rw [hheight fun hp => h (hdir.trans hp.symm), hdir]
    exact Nat.succ_pos _
  . have hlength : p.length = s.length + 1 + name.length := by
      rw [hp, String.length_append, String.length_append]
      rfl
    have hdot : p ≠ "." := by
      rintro rfl
      exact h rfl
    rw [hheight hdot]
    by_cases hs : s = ""
    . have hroot : directory p = "/" := by
        rw [hdir, hs]
        decide +kernel
      have hname : name ≠ "" := by
        rintro rfl
        exact h (hroot.trans (by rw [hp, hs]; rfl))
      have hpos : 0 < name.length := by
        simpa [Nat.pos_iff_ne_zero] using hname
      have : height "/" = 2 := rfl
      rw [hroot]
      omega
    . have := height_clean_le hs
      rw [hdir]
      omega

end Path

end LispScript

import LispScript.Project
import LispScript.Proofs.Orderly
import LispScript.Proofs.Paths
import LispScript.Toml.Config

/-!
This module contains the proof that a project is found from every directory inside of it: its configuration is
the nearest one at or above the directory, as long as no boundary lies below it.
-/

namespace LispScript

open LispScript.Path (Above Ordinary ofNames)

namespace FileTree

/-! Entries. -/

variable {ns : List String} {n : String}

/--
The tree under a name in a directory.
-/
def entry? (t : FileTree) (name : String) : Option FileTree :=
  match t with
  | directory entries => (entries.find? (·.1 = name)).map Prod.snd
  | file _ => none

/--
The tree that one gets to through the names.
-/
def at? (root : FileTree) (names : List String) : Option FileTree :=
  names.foldlM entry? root

/--
The path through the names can be followed as far as its text is concerned.
-/
structure Fits (names : List String) : Prop where
  short : (Text.ofString (ofNames names)).bytes.length ≤ longestPath
  shortNames : ∀ n ∈ names, (Text.ofString n).bytes.length ≤ longestName
  terminated : .char '\x00' ∉ Text.ofString (ofNames names)

theorem ofString_inj {s t : String} : Text.ofString s = Text.ofString t ↔ s = t := by
  rw [Text.ofString, Text.ofString, Text.ofChars, Text.ofChars,
    List.map_inj_right fun _ _ h => Glyph.char.inj h, String.toList_inj]

theorem splitOn_ofString (s : String) :
    (Text.ofString s).splitOn (.char '/') = (Path.parts s).map Text.ofString := by
  have hslash : ∀ c, (Glyph.char c == Glyph.char '/') = (c == '/') := by
    intro c
    rw [Bool.eq_iff_iff]
    simp
  rw [Text.ofString, Text.ofChars, ← map_splitOn hslash, Path.parts, List.map_map]
  congr 1
  funext cs
  simp [Text.ofString, Text.ofChars]

theorem enter_ordinary (h : Ordinary n) (hshort : (Text.ofString n).bytes.length ≤ longestName)
    (t : FileTree) (trail : List FileTree) :
    (enter (t :: trail) (Text.ofString n)).toOption = (t.entry? n).map (· :: t :: trail) := by
  have hnonempty : Text.ofString n ≠ [] := fun hempty => h.nonempty (ofString_inj.1 hempty)
  cases t with
  | file => rfl
  | directory entries =>
    simp only [enter, entry?, hnonempty, ofString_inj, h.notHere, h.notAbove, or_self, if_false,
      Nat.not_lt.2 hshort]
    cases entries.find? fun e => e.1 = n with
    | none => rfl
    | some e => rfl

theorem foldlM_enter (h : ∀ n ∈ ns, Ordinary n)
    (hshort : ∀ n ∈ ns, (Text.ofString n).bytes.length ≤ longestName) (t : FileTree) (trail : List FileTree) :
    ((ns.map Text.ofString).foldlM enter (t :: trail)).toOption.bind List.head? = t.at? ns := by
  induction ns generalizing t trail with
  | nil => rfl
  | cons n ns ih =>
    rw [List.forall_mem_cons] at h hshort
    have henter := enter_ordinary h.1 hshort.1 t trail
    rw [List.map_cons, List.foldlM_cons, at?, List.foldlM_cons]
    cases hresult : enter (t :: trail) (Text.ofString n) with
    | error problem =>
      rw [hresult] at henter
      rw [Option.map_eq_none_iff.1 henter.symm]
      rfl
    | ok above =>
      rw [hresult] at henter
      obtain ⟨u, hu, rfl⟩ := Option.map_eq_some_iff.1 henter.symm
      rw [hu]
      exact ih h.2 hshort.2 u (t :: trail)

theorem walk_ofNames (h : ∀ n ∈ ns, Ordinary n) (hne : ns ≠ []) (hfits : Fits ns) (root : FileTree)
    (current : String) : (root.walk current (Text.ofString (ofNames ns))).toOption = root.at? ns := by
  have hnonempty : Text.ofString (ofNames ns) ≠ [] := by
    simp [Text.ofString, Text.ofChars, ofNames]
  have hhead : (Text.ofString (ofNames ns)).head? = some (.char '/') := by
    simp [Text.ofString, Text.ofChars, ofNames]
  have hfollow : follow [root] (Text.ofString (ofNames ns)) = (ns.map Text.ofString).foldlM enter [root] := by
    rw [follow, splitOn_ofString, Path.parts_ofNames h hne]
    cases root with
    | directory => rfl
    | file =>
      obtain ⟨n, rest, rfl⟩ := List.exists_cons_of_ne_nil hne
      rfl
  rw [walk, if_neg hnonempty, if_neg (by simpa using hfits.terminated), if_neg (Nat.not_lt.2 hfits.short),
    if_pos hhead, ← foldlM_enter h hfits.shortNames root []]
  simp only [pure_bind]
  rw [hfollow]
  cases (ns.map Text.ofString).foldlM enter [root] with
  | error problem => rfl
  | ok trail =>
    cases trail with
    | nil => rfl
    | cons t above => rfl

end FileTree

namespace Project

variable (files : Files)

/--
The directory has an entry of this name.
-/
def Holds (dir name : String) : Prop :=
  ∃ kind, files.run (Disk.entry (Path.join dir name)) = .ok kind

/--
A directory at or above `start` with a configuration file, if there is no boundary on the way to it. A boundary
in the directory itself does not count.
-/
structure Eligible (start dir : String) : Prop where
  above : Above start dir
  config : Holds files dir configName
  inside : ∀ e, Above start e → Above e dir → e ≠ dir → ¬ Holds files e boundary

structure Nearest (start dir : String) : Prop extends Eligible files start dir where
  least : ∀ d, Eligible files start d → Above dir d

variable {files} {start : String} {ns : List String}

/-! One directory. -/

theorem holds_iff {dir name : String} :
    Holds files dir name ↔ (files.run (Disk.entry (Path.join dir name))).isOk := by
  rw [Holds]
  cases files.run (Disk.entry (Path.join dir name)) with
  | ok kind => exact iff_of_true ⟨kind, rfl⟩ rfl
  | error e => exact iff_of_false nofun nofun

theorem Nearest.of_holds (hns : ∀ n ∈ ns, Ordinary n) (h : Holds files (ofNames ns) configName) :
    Nearest files (ofNames ns) (ofNames ns) where
  above := .refl
  config := h
  inside := fun _ he he' hne => absurd (he.antisymm hns he') hne
  least := fun _ hd => hd.above

theorem not_eligible_of_boundary (hconfig : ¬ Holds files start configName)
    (hboundary : Holds files start boundary) : ¬ ∃ d, Eligible files start d := by
  rintro ⟨d, hd⟩
  have hne : start ≠ d := by
    rintro rfl
    exact hconfig hd.config
  exact hd.inside start .refl hd.above hne hboundary

/--
A directory with neither a configuration file nor a boundary leaves the search to the one above it.
-/
theorem eligible_directory_iff (hconfig : ¬ Holds files start configName)
    (hboundary : ¬ Holds files start boundary) {d : String} :
    Eligible files start d ↔ Eligible files (Path.directory start) d := by
  constructor
  . intro hd
    have habove : Above (Path.directory start) d := by
      rcases Path.above_iff.1 hd.above with rfl | habove
      . exact absurd hd.config hconfig
      . exact habove
    refine ⟨habove, hd.config, fun e he => hd.inside e (Path.above_iff.2 (.inr he))⟩
  . intro hd
    refine ⟨Path.above_iff.2 (.inr hd.above), hd.config, fun e he he' hne => ?_⟩
    rcases Path.above_iff.1 he with rfl | he
    . exact hboundary
    . exact hd.inside e he he' hne

theorem nearest_directory_iff (hconfig : ¬ Holds files start configName)
    (hboundary : ¬ Holds files start boundary) {d : String} :
    Nearest files start d ↔ Nearest files (Path.directory start) d := by
  have heligible := fun d => eligible_directory_iff (d := d) hconfig hboundary
  constructor
  . exact fun hd => ⟨(heligible d).1 hd.toEligible, fun e he => hd.least e ((heligible e).2 he)⟩
  . exact fun hd => ⟨(heligible d).2 hd.toEligible, fun e he => hd.least e ((heligible e).1 he)⟩

/-! The search. -/

/--
What a search from a directory has to find.
-/
inductive Finds (files : Files) (start : String) : Option String → Prop where
  | config {d : String} (h : Nearest files start d) :
      Finds files start (some (Path.join d configName))
  | nothing (h : ¬ ∃ d, Eligible files start d) : Finds files start none

theorem Finds.of_directory (hconfig : ¬ Holds files start configName)
    (hboundary : ¬ Holds files start boundary) {found : Option String}
    (h : Finds files (Path.directory start) found) : Finds files start found := by
  cases h with
  | config h => exact .config ((nearest_directory_iff hconfig hboundary).2 h)
  | nothing h =>
    apply nothing
    rintro ⟨d, hd⟩
    exact h ⟨d, (eligible_directory_iff hconfig hboundary).1 hd⟩

/--
A directory decides the search, unless it leaves it to the one above. It does so if it is not in itself.
-/
theorem finds_step (hns : ∀ n ∈ ns, Ordinary n)
    (hroot : ¬ Holds files (ofNames ns) configName → Path.directory (ofNames ns) = ofNames ns →
      ¬ ∃ d, Eligible files (ofNames ns) d)
    (hparent : Path.directory (ofNames ns) ≠ ofNames ns →
      Finds files (Path.directory (ofNames ns)) (files.run (nearestConfig (Path.directory (ofNames ns))))) :
    Finds files (ofNames ns) (files.run (nearestConfig (ofNames ns))) := by
  rw [nearestConfig, Files.run_bind]
  cases hconfig : files.run (Disk.entry (Path.join (ofNames ns) configName)) with
  | ok kind => exact .config (.of_holds hns ⟨kind, hconfig⟩)
  | error e =>
    have hconfig : ¬ Holds files (ofNames ns) configName := by
      rw [holds_iff, hconfig]
      nofun
    dsimp only
    rw [Files.run_bind]
    cases hboundary : files.run (Disk.entry (Path.join (ofNames ns) boundary)) with
    | ok kind => exact .nothing (not_eligible_of_boundary hconfig ⟨kind, hboundary⟩)
    | error e =>
      have hboundary : ¬ Holds files (ofNames ns) boundary := by
        rw [holds_iff, hboundary]
        nofun
      dsimp only
      split
      . next hsame => exact .nothing (hroot hconfig hsame)
      . next hup => exact (hparent hup).of_directory hconfig hboundary

theorem finds_nearestConfig (hns : ∀ n ∈ ns, Ordinary n) :
    Finds files (ofNames ns) (files.run (nearestConfig (ofNames ns))) := by
  induction ns using List.reverseRecOn with
  | nil =>
    apply finds_step hns
    . rintro hconfig _ ⟨d, hd⟩
      rw [Path.above_root hd.above] at hd
      exact hconfig hd.config
    . exact fun hup => absurd Path.directory_root hup
  | append_singleton ns n ih =>
    obtain ⟨hns', hn⟩ := List.forall_mem_append.1 hns
    have hn := hn n List.mem_cons_self
    apply finds_step hns
    . exact fun _ hsame => absurd hsame (Path.directory_ne hns' hn)
    . intro _
      rw [Path.directory_ofNames hns' hn]
      exact ih hns'

theorem finds_findConfig {dir : String} (h : Path.isAbsolute dir) :
    Finds files (Path.clean dir) (files.run (findConfig dir)) := by
  have habsolute : Path.absolute files.current dir = Path.clean dir := if_pos h
  have hrun : files.run (findConfig dir)
      = files.run (nearestConfig (Path.absolute files.current dir)) := by
    rw [findConfig, Files.run_bind]
    rfl
  rw [hrun, habsolute, Path.clean_eq h]
  exact finds_nearestConfig (Path.names_ordinary dir)

/-! The configuration. -/

variable (decode : Config.Decoder)

/--
The configuration in a file, as the decoder gives it.
-/
def contentOf (files : Files) (path : String) : Except ConfigError Config :=
  match files.run (Disk.contents path) with
  | .error e => .error (.unreadable e)
  | .ok bytes =>
    match decode bytes with
    | .error reason => .error (.invalid reason)
    | .ok (config, _) => .ok config

theorem loadConfig_result (path : String) (w : Workspace) :
    ((loadConfig decode path).result files w).1 = contentOf decode files path := by
  rw [loadConfig, Job.result_bind, Job.result_onDisk, contentOf]
  cases files.run (Disk.contents path) with
  | error e => rfl
  | ok bytes =>
    dsimp only
    cases decode bytes with
    | error reason => rfl
    | ok found =>
      obtain ⟨config, unknown⟩ := found
      dsimp only
      split
      . rw [Job.result_bind]
        rfl
      . rfl

/--
What is answered once the configuration file has been looked for.
-/
def answer (files : Files) : Option String → Except (String × ConfigError) (Option (String × Config))
  | none => .ok none
  | some path =>
    match contentOf decode files path with
    | .ok config => .ok (some (path, config))
    | .error e => .error (path, e)

theorem configFor_result (dir : String) (w : Workspace) :
    ((configFor decode dir).result files w).1 = answer decode files (files.run (findConfig dir)) := by
  rw [configFor, Job.result_bind, Job.result_onDisk]
  cases files.run (findConfig dir) with
  | none => rfl
  | some path =>
    dsimp only [answer]
    rw [Job.result_bind, loadConfig_result]
    cases contentOf decode files path with
    | ok config => rfl
    | error e => rfl

variable {decode}

theorem Nearest.unique (hns : ∀ n ∈ ns, Ordinary n) {d e : String} (hd : Nearest files (ofNames ns) d)
    (he : Nearest files (ofNames ns) e) : e = d := by
  obtain ⟨ms, hms, rfl⟩ := hd.above.isPrefix hns
  exact Above.antisymm (fun n hn => hns n (hms.subset hn)) (hd.least e he.toEligible)
    (he.least _ hd.toEligible)

theorem Nearest.exists_iff (hns : ∀ n ∈ ns, Ordinary n) {d path : String} {r : Except ConfigError Config}
    (hd : Nearest files (ofNames ns) d) :
    (∃ e, Nearest files (ofNames ns) e ∧ path = Path.join e configName ∧
        contentOf decode files path = r) ↔
      path = Path.join d configName ∧ contentOf decode files (Path.join d configName) = r := by
  constructor
  . rintro ⟨e, he, rfl, hr⟩
    rw [hd.unique hns he] at hr ⊢
    exact ⟨rfl, hr⟩
  . rintro ⟨rfl, hr⟩
    exact ⟨d, hd, rfl, hr⟩

section

variable {found : Option String} {path : String}

theorem Finds.ok_iff (hns : ∀ n ∈ ns, Ordinary n) (h : Finds files (ofNames ns) found)
    {config : Config} :
    answer decode files found = .ok (some (path, config)) ↔
      ∃ d, Nearest files (ofNames ns) d ∧ path = Path.join d configName ∧
        contentOf decode files path = .ok config := by
  cases h with
  | config hd =>
    rw [hd.exists_iff hns, answer]
    cases contentOf decode files _ with
    | ok config => simp [eq_comm]
    | error e => simp
  | nothing hnone => exact iff_of_false nofun fun ⟨d, hd, _⟩ => hnone ⟨d, hd.toEligible⟩

theorem Finds.error_iff (hns : ∀ n ∈ ns, Ordinary n) (h : Finds files (ofNames ns) found)
    {e : ConfigError} :
    answer decode files found = .error (path, e) ↔
      ∃ d, Nearest files (ofNames ns) d ∧ path = Path.join d configName ∧
        contentOf decode files path = .error e := by
  cases h with
  | config hd =>
    rw [hd.exists_iff hns, answer]
    cases contentOf decode files _ with
    | ok config => simp
    | error e => simp [eq_comm]
  | nothing hnone => exact iff_of_false nofun fun ⟨d, hd, _⟩ => hnone ⟨d, hd.toEligible⟩

theorem Finds.none_iff (h : Finds files start found) :
    answer decode files found = .ok none ↔ ¬ ∃ d, Eligible files start d := by
  cases h with
  | config hd =>
    rw [answer]
    refine iff_of_false ?_ (not_not.2 ⟨_, hd.toEligible⟩)
    split <;> nofun
  | nothing hnone => exact iff_of_true rfl hnone

end

/--
No configuration file comes from above a boundary.
-/
theorem Nearest.above_boundary {d g : String} (hd : Nearest files start d) (hg : Above start g)
    (hboundary : Holds files g boundary) : Above d g := by
  rcases Path.above_total hd.above hg with h | h
  . exact h
  . by_cases hne : g = d
    . rw [hne]
      exact .refl
    . exact absurd hboundary (hd.inside g hg h hne)

theorem Nearest.of_first {g : String} (hg : Above start g) (hconfig : Holds files g configName)
    (hfirst : ∀ e, Above start e → Above e g → e ≠ g →
      ¬ Holds files e configName ∧ ¬ Holds files e boundary) : Nearest files start g where
  above := hg
  config := hconfig
  inside := fun e he he' hne => (hfirst e he he' hne).2
  least := by
    intro d hd
    rcases Path.above_total hd.above hg with h | h
    . by_cases hne : d = g
      . rw [hne]
        exact .refl
      . exact absurd hd.config (hfirst d hd.above h hne).1
    . exact h

/--
The nearest directory is the first one on the way up that has a configuration file, if no boundary is met before
it.
-/
theorem nearest_iff_first (hns : ∀ n ∈ ns, Ordinary n) {d : String} :
    Nearest files (ofNames ns) d ↔ Above (ofNames ns) d ∧ Holds files d configName ∧
      ∀ e, Above (ofNames ns) e → Above e d → e ≠ d →
        ¬ Holds files e configName ∧ ¬ Holds files e boundary := by
  constructor
  . intro hd
    refine ⟨hd.above, hd.config, fun e he hed hne => ⟨fun hconfig => hne ?_, hd.inside e he hed hne⟩⟩
    have heligible : Eligible files (ofNames ns) e := by
      refine ⟨he, hconfig, fun f hf hfe hne' => hd.inside f hf (hfe.trans hed) ?_⟩
      rintro rfl
      exact hne' (Above.eq hns he hed hfe).symm
    exact Above.eq hns he hed (hd.least e heligible)
  . rintro ⟨habove, hconfig, hfirst⟩
    exact .of_first habove hconfig hfirst

/-! In a tree of files. -/

theorem configName_ordinary : Ordinary configName :=
  ⟨by decide, by decide, by decide, by decide +kernel⟩

theorem boundary_ordinary : Ordinary boundary :=
  ⟨by decide, by decide, by decide, by decide +kernel⟩

section

variable {root : FileTree} {current : String}

/--
Where paths can be followed, a directory has an entry of a name if the tree has one.
-/
theorem holds_ofNames_iff {n : String} (hns : ∀ n ∈ ns, Ordinary n) (hn : Ordinary n)
    (hfits : FileTree.Fits (ns ++ [n])) :
    Holds (root.files current) (ofNames ns) n ↔ (root.at? (ns ++ [n])).isSome := by
  have hall : ∀ m ∈ ns ++ [n], Ordinary m := List.forall_mem_append.2 ⟨hns, by simpa using hn⟩
  have hwalk := FileTree.walk_ofNames hall (by simp) hfits root current
  rw [holds_iff, Path.join_ofNames ns hns hn, ← hwalk]
  show (root.stat current _).isOk ↔ _
  rw [FileTree.stat]
  cases root.walk current (Text.ofString (ofNames (ns ++ [n]))) with
  | error problem => exact iff_of_false nofun nofun
  | ok t => exact iff_of_true rfl rfl

/--
In a tree, a project is found where the longest part of the path ends that has an entry for its
configuration, if no longer part has one for a boundary.
-/
theorem nearest_ofNames_iff (hns : ∀ n ∈ ns, Ordinary n)
    (hfits : ∀ ms, ms <+: ns → FileTree.Fits (ms ++ [configName]) ∧ FileTree.Fits (ms ++ [boundary]))
    {d : String} :
    Nearest (root.files current) (ofNames ns) d ↔
      ∃ ms, ms <+: ns ∧ d = ofNames ms ∧ (root.at? (ms ++ [configName])).isSome ∧
        ∀ ks, ks <+: ns → ms <+: ks → ks ≠ ms →
          root.at? (ks ++ [configName]) = none ∧ root.at? (ks ++ [boundary]) = none := by
  have hordinary {ms : List String} (hms : ms <+: ns) : ∀ n ∈ ms, Ordinary n :=
    fun n hn => hns n (hms.subset hn)
  have hconfig {ms : List String} (hms : ms <+: ns) :
      Holds (root.files current) (ofNames ms) configName ↔ (root.at? (ms ++ [configName])).isSome :=
    holds_ofNames_iff (hordinary hms) configName_ordinary (hfits ms hms).1
  have hboundary {ms : List String} (hms : ms <+: ns) :
      Holds (root.files current) (ofNames ms) boundary ↔ (root.at? (ms ++ [boundary])).isSome :=
    holds_ofNames_iff (hordinary hms) boundary_ordinary (hfits ms hms).2
  rw [nearest_iff_first hns]
  constructor
  . rintro ⟨habove, hd, hfirst⟩
    obtain ⟨ms, hms, rfl⟩ := habove.isPrefix hns
    refine ⟨ms, hms, rfl, (hconfig hms).1 hd, fun ks hks hle hne => ?_⟩
    have hbelow := hfirst (ofNames ks) (Path.above_of_isPrefix hns hks)
      (Path.above_of_isPrefix (hordinary hks) hle)
      fun heq => hne (Path.ofNames_injective (hordinary hks) (hordinary hms) heq)
    rw [hconfig hks, hboundary hks] at hbelow
    simpa using hbelow
  . rintro ⟨ms, hms, rfl, hd, hfirst⟩
    refine ⟨Path.above_of_isPrefix hns hms, (hconfig hms).2 hd, fun e he hed hne => ?_⟩
    obtain ⟨ks, hks, rfl⟩ := he.isPrefix hns
    have hbelow := hfirst ks hks ((Path.above_ofNames_iff (hordinary hks) (hordinary hms)).1 hed)
      (by rintro rfl; exact hne rfl)
    rw [hconfig hks, hboundary hks]
    simpa using hbelow

end

/--
Whatever files there are, the configuration for an absolute directory is the one of the nearest directory at or
above it that has a configuration file and no boundary on the way, also if this file cannot be decoded. There is
none if there is no such directory.
-/
theorem configFor_nearest (files : Files) (decode : Config.Decoder) (dir : String) (w : Workspace)
    (h : Path.isAbsolute dir) :
    let start := Path.clean dir
    let found := ((configFor decode dir).result files w).1
    (∀ path config, found = .ok (some (path, config)) ↔
        ∃ d, Nearest files start d ∧ path = Path.join d configName ∧
          contentOf decode files path = .ok config) ∧
      (∀ path e, found = .error (path, e) ↔
        ∃ d, Nearest files start d ∧ path = Path.join d configName ∧
          contentOf decode files path = .error e) ∧
      (found = .ok none ↔ ¬ ∃ d, Eligible files start d) ∧
      (∀ d g, Nearest files start d → Above start g → Holds files g boundary → Above d g) ∧
      (∀ g, Above start g → Holds files g configName →
        (∀ e, Above start e → Above e g → e ≠ g →
          ¬ Holds files e configName ∧ ¬ Holds files e boundary) →
        Nearest files start g) := by
  intro start found
  have hstart : start = ofNames (Path.names dir) := Path.clean_eq h
  have hns := Path.names_ordinary dir
  have hfinds : Finds files start (files.run (findConfig dir)) := finds_findConfig h
  have hfound : found = answer decode files (files.run (findConfig dir)) := configFor_result decode dir w
  rw [hfound]
  rw [hstart] at hfinds ⊢
  exact ⟨fun path config => hfinds.ok_iff hns, fun path e => hfinds.error_iff hns, hfinds.none_iff,
    fun d g => Nearest.above_boundary, fun g => Nearest.of_first⟩

/--
A project inside of another one.
-/
def nestedProject : FileTree :=
  .directory
    [("quill.toml", .file []),
      ("app", .directory [("quill.toml", .file []), ("src", .directory [])])]

theorem configFor_nearest_nested :
    let files := nestedProject.files "/"
    let decode := Toml.decodeConfig
    Path.isAbsolute "/app/src" ∧
      ((configFor decode "/app/src").result files {}).1 = .ok (some ("/app/quill.toml", {})) ∧
      ∃ d, Nearest files "/app/src" d ∧ "/app/quill.toml" = Path.join d configName ∧
        contentOf decode files "/app/quill.toml" = .ok {} := by
  intro files decode
  have habsolute : Path.isAbsolute "/app/src" := by decide +kernel
  have hclean : Path.clean "/app/src" = "/app/src" := by decide +kernel
  have hfound : ((configFor decode "/app/src").result files {}).1
      = .ok (some ("/app/quill.toml", {})) := by
    decide +kernel
  have hnearest := ((configFor_nearest files decode "/app/src" {} habsolute).1 _ _).1 hfound
  rw [hclean] at hnearest
  exact ⟨habsolute, hfound, hnearest⟩

end Project

end LispScript

import KVLite.Modules.Manifest

/-!
# Where the artifacts of a module are

A manifest names an artifact by a slash-separated path, which the host joins to the directory
of the module. A path that is accepted has to stay inside that directory. The check compares
the path with its cleaned form, so it is a statement about what cleaning does to the
components of a path: they pass through a stack, from which `..` takes the last name, and
what is left is a run of `..` that nothing precedes, followed by names.

## Main definitions

* `components` — what cleaning leaves of the components of a path
* `StrictlyBelow` — a path that leads from a directory to something inside it
* `Module.artifactPath` — the path of an artifact

## Main results

* `components_clean` — a cleaned path has the components it was made of
* `components_append` — names behind a directory are kept
* `safe_path_iff` — what `safeModuleRelativePath` accepts, and where it leads
* `Module.strictlyBelow_artifactPath` — an artifact is inside the directory of its module
-/

namespace KVLite.Modules

/-- A component that names an entry of the directory before it. -/
def IsName (component : Bytes) : Prop :=
  component ≠ [] ∧ component ≠ text "." ∧ component ≠ text ".."

/-- `path.IsAbs`. -/
def isAbs (path : Bytes) : Bool := path.head? == some 0x2F

/-- What cleaning leaves of the components of a path. -/
def components (path : Bytes) : List Bytes :=
  ((path.splitOn 0x2F).foldl (cleanComponent (isAbs path)) []).reverse

/-- Both paths start at the same place, and the second goes on from the first through names. -/
structure StrictlyBelow (directory path : Bytes) : Prop where
  start : isAbs path = isAbs directory
  descends : ∃ names, names ≠ [] ∧ (∀ name ∈ names, IsName name) ∧
    components path = components directory ++ names

section Stack

variable {rooted : Bool} {stack : List Bytes} {component : Bytes}

/-! ### The stack of components -/

theorem cleanComponent_of_skip (h : component = [] ∨ component = text ".") :
    cleanComponent rooted stack component = stack := by
  unfold cleanComponent
  rw [if_pos h]

theorem cleanComponent_of_isName (h : IsName component) :
    cleanComponent rooted stack component = component :: stack := by
  obtain ⟨hne, hdot, hup⟩ := h
  unfold cleanComponent
  rw [if_neg (not_or.mpr ⟨hne, hdot⟩), if_neg hup]

/-- `..` takes the last name. -/
theorem cleanComponent_up_of_isName (h : IsName component) :
    cleanComponent rooted (component :: stack) (text "..") = stack := by
  unfold cleanComponent
  rw [if_neg (by decide), if_pos rfl]
  exact if_neg h.2.2

/-- Behind another `..` there is nothing to take. -/
theorem cleanComponent_up_up :
    cleanComponent rooted (text ".." :: stack) (text "..") = text ".." :: text ".." :: stack := by
  unfold cleanComponent
  rw [if_neg (by decide), if_pos rfl]
  exact if_pos rfl

theorem foldl_cleanComponent_of_isName {names : List Bytes} (h : ∀ name ∈ names, IsName name) :
    names.foldl (cleanComponent rooted) stack = names.reverse ++ stack := by
  induction names generalizing stack with
  | nil => rfl
  | cons name names ih =>
    rw [List.forall_mem_cons] at h
    rw [List.foldl_cons, cleanComponent_of_isName h.1, ih h.2, List.reverse_cons, List.append_assoc]
    rfl

/-- A stack that cleaning can build: names above a run of `..`, which a rooted path does not
have. -/
structure CleanStack (rooted : Bool) (stack : List Bytes) : Prop where
  noSlash : ∀ component ∈ stack, 0x2F ∉ component
  shape : ∃ names ups, (∀ name ∈ names, IsName name) ∧ (rooted = true → ups = 0) ∧
    stack = names ++ List.replicate ups (text "..")

theorem cleanStack_nil : CleanStack rooted [] where
  noSlash := nofun
  shape := ⟨[], 0, nofun, fun _ => rfl, rfl⟩

theorem CleanStack.push (h : CleanStack rooted stack) (hslash : 0x2F ∉ component)
    (hname : IsName component) : CleanStack rooted (component :: stack) where
  noSlash := List.forall_mem_cons.mpr ⟨hslash, h.noSlash⟩
  shape := by
    obtain ⟨names, ups, hnames, hups, rfl⟩ := h.shape
    exact ⟨component :: names, ups, List.forall_mem_cons.mpr ⟨hname, hnames⟩, hups, rfl⟩

theorem CleanStack.up (h : CleanStack rooted stack) :
    CleanStack rooted (cleanComponent rooted stack (text "..")) := by
  obtain ⟨hslash, names, ups, hnames, hups, rfl⟩ := h
  cases names with
  | cons name names =>
    rw [List.forall_mem_cons] at hnames
    rw [List.cons_append, List.forall_mem_cons] at hslash
    rw [List.cons_append, cleanComponent_up_of_isName hnames.1]
    exact ⟨hslash.2, names, ups, hnames.2, hups, rfl⟩
  | nil =>
    have hups' : ∀ ups, ∀ component ∈ List.replicate ups (text ".."), 0x2F ∉ component := by
      intro ups component hmem
      rw [List.eq_of_mem_replicate hmem]
      decide
    rw [List.nil_append]
    cases ups with
    | zero =>
      cases rooted with
      | true => exact cleanStack_nil
      | false => exact ⟨hups' 1, [], 1, nofun, nofun, rfl⟩
    | succ ups =>
      rw [List.replicate_succ, cleanComponent_up_up]
      refine ⟨hups' (ups + 2), [], ups + 2, nofun, fun hrooted => ?_, rfl⟩
      cases hups hrooted

theorem CleanStack.cleanComponent (h : CleanStack rooted stack) (hslash : 0x2F ∉ component) :
    CleanStack rooted (cleanComponent rooted stack component) := by
  by_cases hskip : component = [] ∨ component = text "."
  · rwa [cleanComponent_of_skip hskip]
  by_cases hup : component = text ".."
  · rw [hup]
    exact h.up
  have hname : IsName component := ⟨fun h => hskip (.inl h), fun h => hskip (.inr h), hup⟩
  rw [cleanComponent_of_isName hname]
  exact h.push hslash hname

theorem CleanStack.foldl {list : List Bytes} (h : CleanStack rooted stack)
    (hslash : ∀ component ∈ list, 0x2F ∉ component) :
    CleanStack rooted (list.foldl (Modules.cleanComponent rooted) stack) := by
  induction list generalizing stack with
  | nil => exact h
  | cons component list ih =>
    rw [List.forall_mem_cons] at hslash
    exact ih (h.cleanComponent hslash.1) hslash.2

theorem foldl_cleanComponent_ups (ups : ℕ) :
    (List.replicate ups (text "..")).foldl (cleanComponent false) [] =
      List.replicate ups (text "..") := by
  induction ups with
  | zero => rfl
  | succ ups ih =>
    rw [List.replicate_succ', List.foldl_append, ih, ← List.replicate_succ', List.foldl_cons,
      List.foldl_nil]
    cases ups <;> rfl

/-- Cleaning finds nothing to change in the components that it has left. -/
theorem CleanStack.foldl_reverse (h : CleanStack rooted stack) :
    stack.reverse.foldl (Modules.cleanComponent rooted) [] = stack := by
  obtain ⟨-, names, ups, hnames, hups, rfl⟩ := h
  rw [List.reverse_append, List.reverse_replicate, List.foldl_append]
  have hbottom : (List.replicate ups (text "..")).foldl (Modules.cleanComponent rooted) [] =
      List.replicate ups (text "..") := by
    cases rooted with
    | true => rw [hups rfl]; rfl
    | false => exact foldl_cleanComponent_ups ups
  rw [hbottom, foldl_cleanComponent_of_isName fun name hmem => hnames name (List.mem_reverse.mp hmem),
    List.reverse_reverse]

end Stack

/-! ### Cleaned paths -/

theorem notMem_of_mem_splitOn {α : Type} [DecidableEq α] {separator : α} {list piece : List α}
    (h : piece ∈ list.splitOn separator) : separator ∉ piece := by
  induction list generalizing piece with
  | nil =>
    rw [List.splitOn_nil, List.mem_singleton] at h
    rw [h]
    exact List.not_mem_nil
  | cons head list ih =>
    rw [List.splitOn_cons_eq_if_modifyHead] at h
    split_ifs at h with hhead
    · rcases List.mem_cons.mp h with rfl | h
      · exact List.not_mem_nil
      · exact ih h
    · obtain ⟨first, pieces, hsplit⟩ := List.exists_cons_of_ne_nil (List.splitOn_ne_nil separator list)
      rw [hsplit, List.modifyHead_cons] at h
      rcases List.mem_cons.mp h with rfl | h
      · rw [List.mem_cons, not_or]
        exact ⟨fun heq => hhead (beq_iff_eq.mpr heq.symm), ih (hsplit ▸ List.mem_cons_self)⟩
      · exact ih (hsplit ▸ List.mem_cons_of_mem _ h)

variable {path directory value : Bytes}

theorem cleanStack_components (path : Bytes) : CleanStack (isAbs path) (components path).reverse := by
  rw [components, List.reverse_reverse]
  exact cleanStack_nil.foldl fun _ => notMem_of_mem_splitOn

theorem notMem_of_mem_components {component : Bytes} (h : component ∈ components path) :
    0x2F ∉ component :=
  (cleanStack_components path).noSlash component (List.mem_reverse.mpr h)

theorem ne_nil_of_mem_components {component : Bytes} (h : component ∈ components path) :
    component ≠ [] := by
  obtain ⟨names, ups, hnames, -, hstack⟩ := (cleanStack_components path).shape
  rw [← List.mem_reverse, hstack, List.mem_append] at h
  rcases h with h | h
  · exact (hnames component h).1
  · rw [List.eq_of_mem_replicate h]
    decide

theorem clean_eq (path : Bytes) : clean path =
    if isAbs path then 0x2F :: [0x2F].intercalate (components path)
    else if [0x2F].intercalate (components path) = [] then text "."
    else [0x2F].intercalate (components path) := rfl

theorem intercalate_cons (first : Bytes) (rest : List Bytes) :
    [0x2F].intercalate (first :: rest) =
      if rest = [] then first else first ++ 0x2F :: [0x2F].intercalate rest := by
  cases rest <;> simp [List.intercalate]

theorem intercalate_components_ne_nil (h : components path ≠ []) :
    ∃ byte rest, byte ≠ 0x2F ∧ [0x2F].intercalate (components path) = byte :: rest := by
  obtain ⟨first, rest, hcomponents⟩ := List.exists_cons_of_ne_nil h
  have hmem : first ∈ components path := hcomponents ▸ List.mem_cons_self
  obtain ⟨byte, bytes, rfl⟩ := List.exists_cons_of_ne_nil (ne_nil_of_mem_components hmem)
  have hbyte : byte ≠ 0x2F := fun heq => notMem_of_mem_components hmem (heq ▸ List.mem_cons_self)
  rw [hcomponents, intercalate_cons]
  split
  · exact ⟨byte, _, hbyte, rfl⟩
  · exact ⟨byte, _, hbyte, rfl⟩

theorem isAbs_clean (path : Bytes) : isAbs (clean path) = isAbs path := by
  rw [clean_eq]
  cases habs : isAbs path with
  | true => rfl
  | false =>
    by_cases hcomponents : components path = []
    · rw [hcomponents]
      rfl
    · obtain ⟨byte, rest, hbyte, hbody⟩ := intercalate_components_ne_nil hcomponents
      simp [hbody, isAbs, hbyte]

/-- The components are found again between the slashes. -/
theorem foldl_splitOn_intercalate (path : Bytes) :
    (([0x2F].intercalate (components path)).splitOn 0x2F).foldl (cleanComponent (isAbs path)) [] =
      (components path).reverse := by
  by_cases hcomponents : components path = []
  · rw [hcomponents]
    rfl
  · rw [List.splitOn_intercalate 0x2F (fun _ => notMem_of_mem_components) hcomponents]
    have hrebuild := (cleanStack_components path).foldl_reverse
    rwa [List.reverse_reverse] at hrebuild

theorem components_clean (path : Bytes) : components (clean path) = components path := by
  rw [components, isAbs_clean, List.reverse_eq_iff, clean_eq]
  cases habs : isAbs path with
  | true =>
    have hsplit := List.splitOn_append_cons_self (a := 0x2F) [] ([0x2F].intercalate (components path))
    rw [List.nil_append, List.splitOn_nil] at hsplit
    rw [if_pos rfl, hsplit, ← habs]
    exact foldl_splitOn_intercalate path
  | false =>
    rw [if_neg Bool.false_ne_true]
    split_ifs with hbody
    · have hrebuild := foldl_splitOn_intercalate path
      rw [hbody] at hrebuild
      rw [← hrebuild]
      rfl
    · rw [← habs]
      exact foldl_splitOn_intercalate path

/-! ### Paths made of names -/

/-- Every part of the path between slashes is a name. -/
def AllNames (value : Bytes) : Prop := ∀ component ∈ value.splitOn 0x2F, IsName component

theorem AllNames.isAbs (h : AllNames value) : isAbs value = false := by
  cases value with
  | nil => rfl
  | cons byte rest =>
    by_contra habs
    have hslash : byte = 0x2F := by simpa [Modules.isAbs] using habs
    have hsplit := List.splitOn_append_cons_self (a := 0x2F) [] rest
    rw [List.nil_append, ← hslash, List.splitOn_nil] at hsplit
    rw [AllNames, ← hslash, hsplit] at h
    exact (h [] List.mem_cons_self).1 rfl

theorem AllNames.foldl (h : AllNames value) (rooted : Bool) (stack : List Bytes) :
    (value.splitOn 0x2F).foldl (cleanComponent rooted) stack = (value.splitOn 0x2F).reverse ++ stack :=
  foldl_cleanComponent_of_isName h

theorem AllNames.components (h : AllNames value) : components value = value.splitOn 0x2F := by
  rw [Modules.components, h.foldl, List.append_nil, List.reverse_reverse]

theorem AllNames.clean (h : AllNames value) (hne : value ≠ []) : clean value = value := by
  rw [clean_eq, h.isAbs, h.components, List.intercalate_splitOn, if_neg Bool.false_ne_true, if_neg hne]

theorem isAbs_append (hne : directory ≠ []) : isAbs (directory ++ 0x2F :: value) = isAbs directory := by
  obtain ⟨byte, rest, rfl⟩ := List.exists_cons_of_ne_nil hne
  rfl

/-- Names behind a directory are kept. -/
theorem components_append (hne : directory ≠ []) (h : AllNames value) :
    components (directory ++ 0x2F :: value) = components directory ++ value.splitOn 0x2F := by
  rw [components, isAbs_append hne, List.splitOn_append_cons_self, List.foldl_append, h.foldl,
    List.reverse_append, List.reverse_reverse]
  rfl

theorem AllNames.strictlyBelow (h : AllNames value) (directory : Bytes) :
    StrictlyBelow directory (joinPath directory value) := by
  have hnames : value.splitOn 0x2F ≠ [] := List.splitOn_ne_nil _ _
  unfold joinPath
  split_ifs with hempty
  · refine ⟨?_, value.splitOn 0x2F, hnames, h, ?_⟩
    · rw [isAbs_clean, h.isAbs, hempty]
      rfl
    · rw [components_clean, h.components, hempty]
      rfl
  · refine ⟨?_, value.splitOn 0x2F, hnames, h, ?_⟩
    · rw [isAbs_clean, isAbs_append hempty]
    · rw [components_clean, components_append hempty h]

/-! ### The check -/

theorem safeModuleRelativePath_eq_true : safeModuleRelativePath value = true ↔
    (value ≠ [] ∧ 0x5C ∉ value ∧ isAbs value = false) ∧ clean value ≠ text "." ∧
      clean value ≠ text ".." ∧ ¬ text "../" <+: clean value ∧ clean value = value := by
  rw [safeModuleRelativePath]
  split_ifs with h
  · refine iff_of_false nofun ?_
    rintro ⟨⟨hne, hbackslash, habs⟩, -⟩
    rcases h with h | h | h
    · exact hne h
    · exact hbackslash h
    · rw [isAbs, h] at habs
      cases habs
  · rw [not_or, not_or] at h
    rw [decide_eq_true_eq, List.isPrefixOf_iff_prefix]
    refine (and_iff_right ⟨h.1, h.2.1, ?_⟩).symm
    rw [isAbs, beq_eq_false_iff_ne]
    exact h.2.2

/-- A cleaned path that does not lead upwards is made of names. -/
theorem allNames_of_clean_eq (habs : isAbs value = false) (hdot : value ≠ text ".")
    (hup : value ≠ text "..") (hupward : ¬ text "../" <+: value) (hclean : clean value = value) :
    AllNames value := by
  rw [clean_eq, habs, if_neg Bool.false_ne_true] at hclean
  split_ifs at hclean with hbody
  · exact absurd hclean.symm hdot
  have hcomponents : components value ≠ [] := fun h => hbody (by rw [h]; rfl)
  have hsplit : value.splitOn 0x2F = components value := by
    nth_rewrite 1 [← hclean]
    exact List.splitOn_intercalate 0x2F (fun _ => notMem_of_mem_components) hcomponents
  obtain ⟨names, ups, hnames, -, hstack⟩ := (cleanStack_components value).shape
  rw [List.reverse_eq_iff, List.reverse_append, List.reverse_replicate] at hstack
  cases ups with
  | zero =>
    intro component hmem
    rw [hsplit, hstack] at hmem
    exact hnames component (List.mem_reverse.mp hmem)
  | succ ups =>
    -- The path starts with `..`, alone or before a slash.
    rw [List.replicate_succ, List.cons_append] at hstack
    rw [hstack, intercalate_cons] at hclean
    split_ifs at hclean with hrest
    · exact absurd hclean.symm hup
    · refine absurd ?_ hupward
      rw [← hclean]
      exact ⟨_, rfl⟩

theorem AllNames.ne_up (h : AllNames value) : value ≠ text ".." := by
  rintro rfl
  exact (h (text "..") (by decide)).2.2 rfl

theorem AllNames.ne_dot (h : AllNames value) : value ≠ text "." := by
  rintro rfl
  exact (h (text ".") (by decide)).2.1 rfl

theorem AllNames.not_upward (h : AllNames value) : ¬ text "../" <+: value := by
  rintro ⟨rest, rfl⟩
  have hsplit := List.splitOn_append_cons_self (a := 0x2F) (text "..") rest
  refine (h (text "..") ?_).2.2 rfl
  rw [show text "../" ++ rest = text ".." ++ 0x2F :: rest from rfl, hsplit]
  exact List.mem_append_left _ (by decide)

theorem safeModuleRelativePath_iff : safeModuleRelativePath value = true ↔
    value ≠ [] ∧ 0x5C ∉ value ∧ AllNames value := by
  rw [safeModuleRelativePath_eq_true]
  constructor
  · rintro ⟨⟨hne, hbackslash, habs⟩, hdot, hup, hupward, hclean⟩
    rw [hclean] at hdot hup hupward
    exact ⟨hne, hbackslash, allNames_of_clean_eq habs hdot hup hupward hclean⟩
  · rintro ⟨hne, hbackslash, hnames⟩
    rw [hnames.clean hne]
    exact ⟨⟨hne, hbackslash, hnames.isAbs⟩, hnames.ne_dot, hnames.ne_up, hnames.not_upward, rfl⟩

/-- A path is accepted exactly when it is made of names, and then it leads from every directory
to something inside it. -/
theorem safe_path_iff (value : Bytes) :
    (safeModuleRelativePath value = true ↔ value ≠ [] ∧ 0x5C ∉ value ∧
      ∀ component ∈ value.splitOn 0x2F,
        component ≠ [] ∧ component ≠ text "." ∧ component ≠ text "..") ∧
    (safeModuleRelativePath value = true →
      ∀ directory, StrictlyBelow directory (joinPath directory value)) :=
  ⟨safeModuleRelativePath_iff, fun h => (safeModuleRelativePath_iff.mp h).2.2.strictlyBelow⟩

theorem safe_path_bin : safeModuleRelativePath (text "bin/driver.so") = true ∧
    StrictlyBelow (text "../modules/x") (joinPath (text "../modules/x") (text "bin/driver.so")) := by
  have hsafe : safeModuleRelativePath (text "bin/driver.so") = true := by decide
  exact ⟨hsafe, (safe_path_iff _).2 hsafe _⟩

/-! ### Artifacts -/

/-- `Module.ArtifactPath`; a module that is linked into the host has no directory. -/
def Module.artifactPath (module : Module) (artifact : ModuleArtifact) : Except GoError Bytes :=
  if module.directory = [] then
    .error (.detail .moduleArtifactMissing (text "linked module \"" ++ module.manifest.name ++
      text "\" has no on-disk artifact"))
  else do
    validateModuleArtifact artifact
    return joinPath module.directory artifact.path

theorem safe_of_validateModuleArtifact {artifact : ModuleArtifact}
    (h : validateModuleArtifact artifact = .ok ()) : safeModuleRelativePath artifact.path = true := by
  rw [validateModuleArtifact, bind_eq_ok] at h
  obtain ⟨_, -, h⟩ := h
  rw [bind_eq_ok] at h
  obtain ⟨_, -, h⟩ := h
  rw [bind_eq_ok] at h
  obtain ⟨_, hsafe, -⟩ := h
  exact require_eq_ok.mp hsafe

/-- Whatever path a host gets for an artifact is inside the directory of the module. -/
theorem Module.strictlyBelow_artifactPath {module : Module} {artifact : ModuleArtifact}
    (h : module.artifactPath artifact = .ok path) : StrictlyBelow module.directory path := by
  rw [Module.artifactPath] at h
  split_ifs at h with hlinked
  obtain ⟨_, hvalid, hpath⟩ := bind_eq_ok.mp h
  cases hpath
  exact (safeModuleRelativePath_iff.mp (safe_of_validateModuleArtifact hvalid)).2.2.strictlyBelow _

end KVLite.Modules

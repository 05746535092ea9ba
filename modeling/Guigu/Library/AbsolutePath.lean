import Guigu.Library.UnixPath
import Mathlib.Data.List.Basic

/-! The components a path is compared by, and `std::path::absolute`. -/
namespace UnixPath

inductive Component where
  | rootDir
  | curDir
  | parentDir
  | normal (name : List Char)
  deriving DecidableEq

def Component.text : Component → List Char
  | .rootDir => ['/']
  | .curDir => ['.']
  | .parentDir => ['.', '.']
  | .normal name => name

/-- The parts of a path that lead somewhere: names, and `..`. -/
def steps (path : List Char) : List (List Char) :=
  (components path).filter fun c => !(decide (c = []) || decide (c = ['.']))

def Component.ofStep (step : List Char) : Component :=
  if step = ['.', '.'] then .parentDir else .normal step

/-- `Path::components`; `Eq` and `Hash` of a path read nothing else of it. -/
def pathComponents (path : List Char) : List Component :=
  (if isAbsolute path then [.rootDir]
    else if (components path).head? = some ['.'] then [.curDir] else []) ++
    (steps path).map .ofStep

/-- `PathBuf::extend`. -/
def extend (base : List Char) (parts : List Component) : List Char :=
  parts.foldl (fun path part => join path part.text) base

/-- `std::path::absolute`; `currentDir` is what `env::current_dir` gives. -/
def absolute (currentDir : Option (List Char)) (path : List Char) : Option (List Char) :=
  if path = [] then none
  else
    let parts := match pathComponents path with
      | .curDir :: rest => rest
      | parts => parts
    let normalized :=
      if isAbsolute path then
        if ['/', '/'].isPrefixOf path && !(['/', '/', '/'].isPrefixOf path) then
          some (extend ['/', '/'] parts.tail)
        else some (extend [] parts)
      else currentDir.map fun dir => extend dir parts
    normalized.map fun text => if path.getLast? = some '/' then join text [] else text

@[simp] theorem steps_nil : steps [] = [] := rfl

theorem steps_append (as bs : List Char) : steps (as ++ '/' :: bs) = steps as ++ steps bs := by
  rw [steps, components_append, List.filter_append]
  rfl

theorem mem_steps {path : List Char} {c : List Char} (h : c ∈ steps path) :
    c ≠ [] ∧ c ≠ ['.'] ∧ '/' ∉ c := by
  obtain ⟨hmem, hc⟩ := List.mem_filter.mp h
  simp only [Bool.not_eq_true', Bool.or_eq_false_iff, decide_eq_false_iff_not] at hc
  exact ⟨hc.1, hc.2, slash_not_mem_components c hmem⟩

/-- A text without a separator is its own only step. -/
theorem steps_of_not_mem {c : List Char} (h : c ≠ [] ∧ c ≠ ['.'] ∧ '/' ∉ c) : steps c = [c] := by
  have hcomponents : components c = [c] := List.splitOn_eq_singleton h.2.2
  rw [steps, hcomponents]
  simp [h.1, h.2.1]

/-- Only the steps of a path lead anywhere. -/
theorem walk_steps (place : Place) (path : List Char) :
    walk place path = (steps path).foldl descend place := by
  rw [walk, steps, List.foldl_filter]
  congr 1
  funext place c
  by_cases hc : c = [] ∨ c = ['.']
  · have hskip : (!(decide (c = []) || decide (c = ['.']))) = false := by
      rcases hc with hc | hc
      · simp [hc]
      · simp [hc]
    rw [hskip, descend, if_pos hc, if_neg Bool.false_ne_true]
  · have hkeep : (!(decide (c = []) || decide (c = ['.']))) = true := by
      obtain ⟨hnil, hdot⟩ := not_or.mp hc
      simp [hnil, hdot]
    rw [hkeep, if_pos rfl]

theorem isAbsolute_append {dir : List Char} (h : isAbsolute dir = true) (more : List Char) :
    isAbsolute (dir ++ more) = true := by
  cases dir with
  | nil => cases h
  | cons c dir => exact h

theorem isAbsolute_join {dir : List Char} (h : isAbsolute dir = true) (path : List Char) :
    isAbsolute (join dir path) = true := by
  unfold join
  split_ifs with hpath
  · exact hpath
  · exact isAbsolute_append h path
  · exact isAbsolute_append h _

theorem steps_join (dir : List Char) {path : List Char} (h : isAbsolute path = false) :
    steps (join dir path) = steps dir ++ steps path := by
  unfold join
  rw [h, if_neg Bool.false_ne_true]
  cases dir using List.reverseRecOn with
  | nil =>
    rw [if_pos (.inl rfl)]
    rfl
  | append_singleton front c =>
    by_cases hc : c = '/'
    · have hend : front ++ [c] = [] ∨ (front ++ [c]).getLast? = some '/' := by
        right
        rw [List.getLast?_concat, hc]
      rw [if_pos hend, hc, List.append_assoc, List.singleton_append, steps_append, steps_append,
        steps_nil, List.append_nil]
    · have hopen : ¬(front ++ [c] = [] ∨ (front ++ [c]).getLast? = some '/') := by
        rw [List.getLast?_concat]
        simp [hc]
      rw [if_neg hopen, steps_append]

/-- Steps written behind an absolute path are steps of the longer path. -/
theorem steps_extend {base : List Char} (hbase : isAbsolute base = true) {cs : List (List Char)}
    (hcs : ∀ c ∈ cs, c ≠ [] ∧ c ≠ ['.'] ∧ '/' ∉ c) :
    isAbsolute (extend base (cs.map .ofStep)) = true ∧
      steps (extend base (cs.map .ofStep)) = steps base ++ cs := by
  induction cs generalizing base with
  | nil => exact ⟨hbase, (List.append_nil _).symm⟩
  | cons c cs ih =>
    obtain ⟨hc, hcs⟩ := List.forall_mem_cons.mp hcs
    have htext : (Component.ofStep c).text = c := by
      unfold Component.ofStep
      split_ifs with hup
      · exact hup.symm
      · rfl
    have hrelative : isAbsolute c = false := by
      cases c with
      | nil => rfl
      | cons d c =>
        have hd : d ≠ '/' := fun hd => hc.2.2 (hd ▸ List.mem_cons_self)
        simp [isAbsolute, hd]
    obtain ⟨habs, hsteps⟩ := ih (isAbsolute_join hbase c) hcs
    rw [extend, List.map_cons, List.foldl_cons, htext]
    refine ⟨habs, hsteps.trans ?_⟩
    rw [steps_join base hrelative, steps_of_not_mem hc, List.append_assoc]
    rfl

theorem pathComponents_of_isAbsolute {path : List Char} (h : isAbsolute path = true) :
    pathComponents path = .rootDir :: (steps path).map .ofStep := by
  rw [pathComponents, if_pos h, List.singleton_append]

theorem ofStep_ne_curDir (c : List Char) : Component.ofStep c ≠ .curDir := by
  unfold Component.ofStep
  split_ifs
  · exact Component.noConfusion
  · exact Component.noConfusion

/-- Without a leading `.`, a relative path is its steps. -/
theorem stripped_of_relative {path : List Char} (h : isAbsolute path = false) :
    (match pathComponents path with
      | .curDir :: rest => rest
      | parts => parts) = (steps path).map .ofStep := by
  rw [pathComponents, h, if_neg Bool.false_ne_true]
  split_ifs with hdot
  · rfl
  · rw [List.nil_append]
    cases steps path with
    | nil => rfl
    | cons c cs =>
      rw [List.map_cons]
      split
      · rename_i heq
        exact absurd (List.cons.inj heq).1 (ofStep_ne_curDir c)
      · rfl

/-- The components of a path that is taken from the root, or from the current directory. -/
def spelling (currentDir : Option (List Char)) (path : List Char) : List Component :=
  if isAbsolute path then .rootDir :: (steps path).map .ofStep
  else
    match currentDir with
    | some dir => .rootDir :: (steps dir ++ steps path).map .ofStep
    | none => pathComponents path

/-- A trailing separator is kept, and does not count. -/
private theorem pathComponents_trailing {text : List Char} (h : isAbsolute text = true)
    (trailing : Prop) [Decidable trailing] :
    pathComponents (if trailing then join text [] else text) =
      .rootDir :: (steps text).map .ofStep := by
  split_ifs
  · rw [pathComponents_of_isAbsolute (isAbsolute_join h []), steps_join text rfl, steps_nil,
      List.append_nil]
  · exact pathComponents_of_isAbsolute h

theorem pathComponents_absolute {currentDir : Option (List Char)} {path : List Char}
    (hdir : ∀ dir ∈ currentDir, isAbsolute dir = true) (hne : path ≠ []) :
    pathComponents ((absolute currentDir path).getD path) = spelling currentDir path := by
  have hsteps : ∀ c ∈ steps path, c ≠ [] ∧ c ≠ ['.'] ∧ '/' ∉ c := fun c => mem_steps
  unfold absolute spelling
  rw [if_neg hne]
  cases habs : isAbsolute path with
  | true =>
    simp only [pathComponents_of_isAbsolute habs, if_true]
    by_cases hdouble : (['/', '/'].isPrefixOf path && !(['/', '/', '/'].isPrefixOf path)) = true
    · obtain ⟨hroot, htext⟩ := steps_extend (show isAbsolute ['/', '/'] = true from rfl) hsteps
      rw [if_pos hdouble]
      refine (pathComponents_trailing hroot (path.getLast? = some '/')).trans ?_
      rw [htext]
      rfl
    · obtain ⟨hroot, htext⟩ := steps_extend (show isAbsolute ['/'] = true from rfl) hsteps
      rw [if_neg hdouble]
      refine (pathComponents_trailing hroot (path.getLast? = some '/')).trans ?_
      rw [htext]
      rfl
  | false =>
    simp only [stripped_of_relative habs, Bool.false_eq_true, if_false]
    cases currentDir with
    | none => rfl
    | some dir =>
      obtain ⟨hroot, htext⟩ := steps_extend (hdir dir rfl) hsteps
      refine (pathComponents_trailing hroot (path.getLast? = some '/')).trans ?_
      rw [htext]

theorem ofStep_injective : Function.Injective Component.ofStep := by
  intro c c' h
  unfold Component.ofStep at h
  split_ifs at h with hc hc'
  · rw [hc, hc']
  · exact Component.normal.inj h

theorem isAbsolute_of_pathComponents {path : List Char} {parts : List Component}
    (h : pathComponents path = .rootDir :: parts) : isAbsolute path = true := by
  by_contra habs
  rw [pathComponents, if_neg habs] at h
  split_ifs at h
  · cases h
  · cases hsteps : steps path with
    | nil =>
      rw [hsteps] at h
      cases h
    | cons c cs =>
      rw [hsteps] at h
      have hc := (List.cons.inj h).1
      unfold Component.ofStep at hc
      split_ifs at hc

/-- The steps that a path is resolved to, where it is taken from a directory that is known. -/
def stepsFrom (currentDir : Option (List Char)) (path : List Char) : Option (List (List Char)) :=
  if isAbsolute path then some (steps path) else currentDir.map fun dir => steps dir ++ steps path

theorem spelling_of_stepsFrom {currentDir : Option (List Char)} {path : List Char}
    {cs : List (List Char)} (h : stepsFrom currentDir path = some cs) :
    spelling currentDir path = .rootDir :: cs.map .ofStep := by
  unfold stepsFrom at h
  unfold spelling
  split_ifs at h ⊢
  · rw [Option.some.inj h]
  · obtain ⟨dir, rfl, rfl⟩ := Option.map_eq_some_iff.mp h
    rfl

/-- A path is resolved to an absolute path with the same steps, or left as it is. -/
theorem absolute_cases {currentDir : Option (List Char)} {path : List Char}
    (hdir : ∀ dir ∈ currentDir, isAbsolute dir = true) (hne : path ≠ []) :
    (∃ cs, stepsFrom currentDir path = some cs ∧
      isAbsolute ((absolute currentDir path).getD path) = true ∧
      steps ((absolute currentDir path).getD path) = cs) ∨
    (stepsFrom currentDir path = none ∧ (absolute currentDir path).getD path = path) := by
  have hcomponents := pathComponents_absolute hdir hne
  cases hsteps : stepsFrom currentDir path with
  | some cs =>
    left
    rw [spelling_of_stepsFrom hsteps] at hcomponents
    have habs := isAbsolute_of_pathComponents hcomponents
    refine ⟨cs, rfl, habs, ?_⟩
    rw [pathComponents_of_isAbsolute habs] at hcomponents
    exact List.map_injective_iff.mpr ofStep_injective (List.cons.inj hcomponents).2
  | none =>
    right
    refine ⟨rfl, ?_⟩
    unfold stepsFrom at hsteps
    split_ifs at hsteps with habs
    rw [Option.map_eq_none_iff.mp hsteps, absolute, if_neg hne]
    simp only [habs]
    rfl

/-- Resolved a second time, a path is spelled as before. -/
theorem spelling_absolute {currentDir : Option (List Char)} {path : List Char}
    (hdir : ∀ dir ∈ currentDir, isAbsolute dir = true) (hne : path ≠ []) :
    spelling currentDir ((absolute currentDir path).getD path) = spelling currentDir path := by
  rcases absolute_cases hdir hne with ⟨cs, hsteps, habs, htext⟩ | ⟨-, htext⟩
  · have htwice : stepsFrom currentDir ((absolute currentDir path).getD path) = some cs := by
      rw [stepsFrom, if_pos habs, htext]
    rw [spelling_of_stepsFrom hsteps, spelling_of_stepsFrom htwice]
  · rw [htext]

theorem absolute_ne_nil {currentDir : Option (List Char)} {path : List Char}
    (hdir : ∀ dir ∈ currentDir, isAbsolute dir = true) (hne : path ≠ []) :
    (absolute currentDir path).getD path ≠ [] := by
  rcases absolute_cases hdir hne with ⟨cs, -, habs, -⟩ | ⟨-, htext⟩
  · intro hnil
    rw [hnil] at habs
    cases habs
  · rwa [htext]

theorem mem_stepsFrom {currentDir : Option (List Char)} {path : List Char}
    {cs : List (List Char)} (h : stepsFrom currentDir path = some cs) :
    ∀ c ∈ cs, c ≠ [] ∧ c ≠ ['.'] ∧ '/' ∉ c := by
  unfold stepsFrom at h
  split_ifs at h
  · rw [← Option.some.inj h]
    exact fun c => mem_steps
  · obtain ⟨dir, -, rfl⟩ := Option.map_eq_some_iff.mp h
    intro c hc
    rcases List.mem_append.mp hc with hc | hc
    · exact mem_steps hc
    · exact mem_steps hc

/-- A path leads where its steps lead from the root. -/
theorem resolve_of_stepsFrom {currentDir : Option (List Char)} {path : List Char} {place : Place}
    (hplace : ∀ dir ∈ currentDir, steps dir = place) (hproper : Proper place)
    {cs : List (List Char)} (h : stepsFrom currentDir path = some cs) :
    resolve place path = cs.foldl descend [] := by
  unfold stepsFrom at h
  split_ifs at h with hpath
  · rw [← Option.some.inj h, resolve, if_pos hpath, walk_steps]
  · obtain ⟨dir, hmem, rfl⟩ := Option.map_eq_some_iff.mp h
    have hnames := foldl_descend_names [] fun c hc => (hproper c hc).1
    rw [hplace dir hmem, List.foldl_append, hnames, List.nil_append, resolve, if_neg hpath,
      walk_steps]

/-- The resolved path leads where the path leads. -/
theorem resolve_absolute {currentDir : Option (List Char)} {path : List Char} {place : Place}
    (hdir : ∀ dir ∈ currentDir, isAbsolute dir = true)
    (hplace : ∀ dir ∈ currentDir, steps dir = place) (hproper : Proper place) (hne : path ≠ []) :
    resolve place ((absolute currentDir path).getD path) = resolve place path := by
  rcases absolute_cases hdir hne with ⟨cs, hsteps, habs, htext⟩ | ⟨-, htext⟩
  · rw [resolve_of_stepsFrom hplace hproper hsteps, resolve, if_pos habs, walk_steps, htext]
  · rw [htext]

/-- A place, written from the root. -/
theorem steps_root {place : Place} (h : Proper place) :
    steps ('/' :: ['/'].intercalate place) = place := by
  have hroot := steps_append [] (['/'].intercalate place)
  rw [List.nil_append, steps_nil, List.nil_append] at hroot
  rw [hroot]
  by_cases hne : place = []
  · rw [hne]
    rfl
  · rw [steps, components_intercalate (fun c hc => (h c hc).2) hne, List.filter_eq_self]
    intro c hc
    obtain ⟨hnil, hdot, -⟩ := (h c hc).1
    simp [hnil, hdot]

end UnixPath

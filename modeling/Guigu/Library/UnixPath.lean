import Mathlib.Data.List.Induction

/-! Unix paths as texts: a path joined to a directory, and the place it names where no name is a
link. -/
namespace UnixPath

def isAbsolute (path : List Char) : Bool := path.head? = some '/'

/-- `Path::join`: an absolute path replaces the directory. -/
def join (dir path : List Char) : List Char :=
  if isAbsolute path then path
  else if dir = [] ∨ dir.getLast? = some '/' then dir ++ path
  else dir ++ '/' :: path

/-- The names from the root down. -/
abbrev Place := List (List Char)

def descend (place : Place) (component : List Char) : Place :=
  if component = [] ∨ component = ['.'] then place
  else if component = ['.', '.'] then place.dropLast
  else place ++ [component]

def components (path : List Char) : List (List Char) := path.splitOn '/'

def walk (place : Place) (path : List Char) : Place := (components path).foldl descend place

/-- Where a path leads from the working directory. -/
def resolve (cwd : Place) (path : List Char) : Place :=
  walk (if isAbsolute path then [] else cwd) path

/-- A component that goes down by one name. -/
def IsName (component : List Char) : Prop :=
  component ≠ [] ∧ component ≠ ['.'] ∧ component ≠ ['.', '.']

/-- A path of names alone. -/
def Plain (path : List Char) : Prop := ∀ c ∈ components path, IsName c

instance (component : List Char) : Decidable (IsName component) :=
  inferInstanceAs (Decidable (_ ∧ _ ∧ _))

instance (path : List Char) : Decidable (Plain path) :=
  inferInstanceAs (Decidable (∀ c ∈ components path, IsName c))

@[simp] theorem descend_name (place : Place) {component : List Char} (h : IsName component) :
    descend place component = place ++ [component] := by
  rw [descend, if_neg (not_or.mpr ⟨h.1, h.2.1⟩), if_neg h.2.2]

@[simp] theorem walk_nil (place : Place) : walk place [] = place := rfl

theorem components_append (as bs : List Char) :
    components (as ++ '/' :: bs) = components as ++ components bs :=
  List.splitOn_append_cons_self as bs

theorem walk_append (place : Place) (as bs : List Char) :
    walk place (as ++ '/' :: bs) = walk (walk place as) bs := by
  rw [walk, components_append, List.foldl_append]
  rfl

theorem components_injective : Function.Injective components := by
  intro as bs h
  have hjoin : ∀ cs, ['/'].intercalate (components cs) = cs :=
    fun cs => List.intercalate_splitOn '/'
  rw [← hjoin as, h, hjoin bs]

theorem components_intercalate {names : List (List Char)} (hslash : ∀ c ∈ names, '/' ∉ c)
    (hne : names ≠ []) : components (['/'].intercalate names) = names :=
  List.splitOn_intercalate '/' hslash hne

theorem foldl_descend_names (place : Place) {names : List (List Char)}
    (h : ∀ c ∈ names, IsName c) : names.foldl descend place = place ++ names := by
  induction names generalizing place with
  | nil => simp
  | cons c names ih =>
    obtain ⟨hc, hnames⟩ := List.forall_mem_cons.mp h
    rw [List.foldl_cons, descend_name place hc, ih _ hnames, List.append_assoc]
    rfl

/-- A plain path names a place below the one it starts from. -/
theorem walk_plain (place : Place) {path : List Char} (h : Plain path) :
    walk place path = place ++ components path := foldl_descend_names place h

theorem Plain.relative {path : List Char} (h : Plain path) : isAbsolute path = false := by
  cases path with
  | nil => rfl
  | cons c path =>
    by_cases hc : c = '/'
    · rw [hc] at h
      have hsplit : components ('/' :: path) = [] :: components path :=
        components_append [] path
      have hempty := h [] (by rw [hsplit]; exact List.mem_cons_self)
      exact absurd rfl hempty.1
    · simp [isAbsolute, hc]

/-- A relative path is followed from the directory it is joined to. -/
theorem resolve_join (cwd : Place) (dir : List Char) {path : List Char}
    (h : isAbsolute path = false) : resolve cwd (join dir path) = walk (resolve cwd dir) path := by
  unfold join
  rw [h, if_neg Bool.false_ne_true]
  cases dir using List.reverseRecOn with
  | nil =>
    rw [if_pos (.inl rfl), List.nil_append, resolve, h]
    rfl
  | append_singleton front c =>
    have habs : ∀ more, isAbsolute (front ++ [c] ++ more) = isAbsolute (front ++ [c]) := by
      intro more
      cases front <;> rfl
    by_cases hc : c = '/'
    · have hend : front ++ [c] = [] ∨ (front ++ [c]).getLast? = some '/' := by
        right
        rw [List.getLast?_concat, hc]
      rw [if_pos hend, resolve, resolve, habs, hc, List.append_assoc, List.singleton_append,
        walk_append, walk_append, walk_nil]
    · have hopen : ¬(front ++ [c] = [] ∨ (front ++ [c]).getLast? = some '/') := by
        rw [List.getLast?_concat]
        simp [hc]
      rw [if_neg hopen, resolve, resolve, habs, walk_append]

theorem resolve_join_absolute (cwd : Place) (dir : List Char) {path : List Char}
    (h : isAbsolute path = true) : resolve cwd (join dir path) = walk [] path := by
  rw [join, if_pos h, resolve, if_pos h]

/-- Below a directory, plain paths lead to different places. -/
theorem resolve_join_injective (cwd : Place) (dir : List Char) {as bs : List Char}
    (ha : Plain as) (hb : Plain bs)
    (h : resolve cwd (join dir as) = resolve cwd (join dir bs)) : as = bs := by
  rw [resolve_join cwd dir ha.relative, resolve_join cwd dir hb.relative, walk_plain _ ha,
    walk_plain _ hb] at h
  exact components_injective (List.append_cancel_left h)

/-- The place of a directory: proper names only. -/
def Proper (place : Place) : Prop := ∀ c ∈ place, IsName c ∧ '/' ∉ c

theorem components_slash (path : List Char) : components ('/' :: path) = [] :: components path :=
  components_append [] path

theorem components_cons {d : Char} (hd : d ≠ '/') (path : List Char) :
    components (d :: path) = (components path).modifyHead (d :: ·) := by
  have hbeq : (d == '/') = false := beq_eq_false_iff_ne.mpr hd
  rw [components, List.splitOn_cons_eq_if_modifyHead, hbeq, if_neg Bool.false_ne_true]
  rfl

/-- What is written behind a path goes to its last component. -/
theorem components_append_name (path : List Char) {ext : List Char} (hext : '/' ∉ ext) :
    ∃ front last, components path = front ++ [last] ∧
      components (path ++ ext) = front ++ [last ++ ext] := by
  induction path with
  | nil => exact ⟨[], [], rfl, List.splitOn_eq_singleton hext⟩
  | cons d path ih =>
    obtain ⟨front, last, hpath, hmore⟩ := ih
    by_cases hd : d = '/'
    · rw [hd, List.cons_append, components_slash, components_slash, hpath, hmore]
      exact ⟨[] :: front, last, rfl, rfl⟩
    · rw [List.cons_append, components_cons hd, components_cons hd, hpath, hmore]
      cases front with
      | nil => exact ⟨[], d :: last, rfl, rfl⟩
      | cons c front => exact ⟨(d :: c) :: front, last, rfl, rfl⟩

theorem intercalate_append_name (front : List (List Char)) (last ext : List Char) :
    ['/'].intercalate (front ++ [last ++ ext]) = ['/'].intercalate (front ++ [last]) ++ ext := by
  induction front with
  | nil => simp
  | cons c front ih =>
    have hcons : ∀ l : List Char, ['/'].intercalate (c :: (front ++ [l])) =
        c ++ ['/'] ++ ['/'].intercalate (front ++ [l]) := by
      intro l
      cases front <;> simp [List.intercalate]
    rw [List.cons_append, List.cons_append, hcons, hcons, ih, List.append_assoc,
      List.append_assoc, List.append_assoc]

theorem slash_not_mem_components {path : List Char} : ∀ c ∈ components path, '/' ∉ c := by
  induction path with
  | nil => simp [components]
  | cons d path ih =>
    by_cases hd : d = '/'
    · rw [hd, components_slash]
      exact List.forall_mem_cons.mpr ⟨List.not_mem_nil, ih⟩
    · rw [components_cons hd]
      cases hp : components path with
      | nil => simp
      | cons c cs =>
        rw [hp] at ih
        obtain ⟨hc, hcs⟩ := List.forall_mem_cons.mp ih
        refine List.forall_mem_cons.mpr ⟨?_, hcs⟩
        rw [List.mem_cons, not_or]
        exact ⟨Ne.symm hd, hc⟩

theorem Proper.descend {place : Place} (h : Proper place) {component : List Char}
    (hslash : '/' ∉ component) : Proper (descend place component) := by
  unfold UnixPath.descend
  split_ifs with hskip hup
  · exact h
  · exact fun c hc => h c (List.dropLast_subset _ hc)
  · intro c hc
    rcases List.mem_append.mp hc with hc | hc
    · exact h c hc
    · rw [List.mem_singleton.mp hc]
      obtain ⟨hnil, hdot⟩ := not_or.mp hskip
      exact ⟨⟨hnil, hdot, hup⟩, hslash⟩

theorem Proper.walk {place : Place} (h : Proper place) (path : List Char) :
    Proper (walk place path) := by
  have hfold : ∀ cs : List (List Char), (∀ c ∈ cs, '/' ∉ c) → ∀ place, Proper place →
      Proper (cs.foldl UnixPath.descend place) := by
    intro cs
    induction cs with
    | nil => exact fun _ _ hplace => hplace
    | cons c cs ih =>
      intro hcs place hplace
      obtain ⟨hc, hcs⟩ := List.forall_mem_cons.mp hcs
      exact ih hcs _ (hplace.descend hc)
  exact hfold _ slash_not_mem_components place h

theorem Proper.resolve {cwd : Place} (h : Proper cwd) (path : List Char) :
    Proper (resolve cwd path) := by
  unfold UnixPath.resolve
  split_ifs
  · have hroot : Proper [] := fun c hc => by cases hc
    exact hroot.walk path
  · exact h.walk path

/-- Every place below a directory is the place of a plain path. -/
theorem resolve_join_intercalate {cwd : Place} (h : Proper cwd) {dir path : List Char}
    {rest : Place} (hrest : resolve cwd path = resolve cwd dir ++ rest) (hne : rest ≠ []) :
    Plain (['/'].intercalate rest) ∧
      resolve cwd (join dir (['/'].intercalate rest)) = resolve cwd path := by
  have hproper : ∀ c ∈ rest, IsName c ∧ '/' ∉ c := by
    intro c hc
    apply h.resolve path
    rw [hrest]
    exact List.mem_append_right _ hc
  have hcomponents := components_intercalate (fun c hc => (hproper c hc).2) hne
  have hplain : Plain (['/'].intercalate rest) := by
    intro c hc
    rw [hcomponents] at hc
    exact (hproper c hc).1
  refine ⟨hplain, ?_⟩
  rw [resolve_join cwd dir hplain.relative, walk_plain _ hplain, hcomponents, hrest]

/-- A name at the end of a path is the last name of its place. -/
theorem walk_getLast? (place : Place) {path : List Char} {front : List (List Char)}
    {name : List Char} (hpath : components path = front ++ [name]) (hname : IsName name) :
    (walk place path).getLast? = some name := by
  rw [walk, hpath, List.foldl_append, List.foldl_cons, List.foldl_nil, descend_name _ hname,
    List.getLast?_concat]

end UnixPath

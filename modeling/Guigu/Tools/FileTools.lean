import Guigu.Library.Utf8
import Guigu.Tools.FileMutationQueue

/-! The tools that write files: the paths they are given, the lock they take, and the edits of one
file that come together. -/
namespace Guigu.Tools

open UnixPath

/-- The current directory of the process; it may be gone, so that its path cannot be read. -/
structure WorkingDirectory where
  place : Place
  proper : Proper place
  readable : Bool

namespace WorkingDirectory

/-- `env::current_dir`. -/
def currentDir (d : WorkingDirectory) : Option (List Char) :=
  if d.readable then some ('/' :: ['/'].intercalate d.place) else none

/-- The file that a path names, where no name is a link. -/
def fileAt (d : WorkingDirectory) (path : List Char) : Option Place :=
  if path = [] then none else some (resolve d.place path)

end WorkingDirectory

/-- A tool path, behind the work directory. -/
def joinWorkDir (workDir : Option (List Char)) (raw : List Char) : List Char :=
  if isAbsolute raw then raw
  else
    match workDir with
    | some dir => join dir raw
    | none => raw

def resolveToolPath (currentDir workDir : Option (List Char)) (raw : List Char) : List Char :=
  let joined := joinWorkDir workDir raw
  (absolute currentDir joined).getD joined

/-- How often `str::matches` finds the text; what it has found is passed over. -/
def matchCount (pat : List Char) : ℕ → List Char → ℕ
  | 0, [] => if pat = [] then 1 else 0
  | _ + 1, [] => 0
  | skip + 1, _ :: cs => matchCount pat skip cs
  | 0, c :: cs =>
    if pat.isPrefixOf (c :: cs) then matchCount pat (pat.length - 1) cs + 1 else matchCount pat 0 cs

/-- `str::replacen` with one replacement. -/
def replaceFirst (pat new : List Char) : List Char → List Char
  | [] => if pat = [] then new else []
  | c :: cs =>
    if pat.isPrefixOf (c :: cs) then new ++ (c :: cs).drop pat.length
    else c :: replaceFirst pat new cs

inductive ToolError where
  | cancelled
  | lockFailed
  | io
  | invalidUtf8
  | oldStringNotFound
  | oldStringNotUnique (found : ℕ)
  deriving DecidableEq

/-- What a tool does to its file. -/
inductive Change where
  | edit (oldString newString : List Char)
  | write (content : List UInt8)
  deriving DecidableEq

/-- The content an edit writes, from the content it has read. -/
def editContent (oldString newString : List Char) (bytes : List UInt8) :
    Except ToolError (List UInt8) :=
  match Utf8.decode bytes with
  | none => .error .invalidUtf8
  | some content =>
    let found := matchCount oldString 0 content
    if found = 0 then .error .oldStringNotFound
    else if found > 1 then .error (.oldStringNotUnique found)
    else .ok (Utf8.encode (replaceFirst oldString newString content))

/-- The regular files and what is in them. -/
abbrev Files := Place → Option (List UInt8)

/-- The change, made to what is in the file. -/
def Change.apply : Change → Option (List UInt8) → Option (List UInt8)
  | .edit oldString newString, some bytes =>
    match editContent oldString newString bytes with
    | .ok new => some new
    | .error _ => some bytes
  | .edit _ _, none => none
  | .write content, _ => some content

/-- Changes made one after the other. -/
def replay (files : Files) (changes : List (Place × Change)) : Files :=
  changes.foldl (fun files c => Function.update files c.1 (c.2.apply (files c.1))) files

/-- Where a tool stands. -/
inductive Task where
  | idle
  /-- It asks for the guard, or has it and has not read the file. -/
  | opened (path : List Char) (change : Change)
  /-- The new content of the file is written next. -/
  | loaded (path : List Char) (change : Change) (new : List UInt8)
  | over (result : Except ToolError Unit)

structure FileTools where
  queue : FileMutationQueue
  files : Files
  task : ℕ → Task
  /-- The changes the file system has seen. -/
  applied : List (Place × Change)

/-- What a tool, or the queue, does next. -/
inductive ToolAction where
  | execute (raw : List Char) (change : Change)
  | queue (a : QueueAction)
  /-- A tool is cancelled, or the file system refuses it. -/
  | fail (task : ℕ) (error : ToolError)
  /-- The file is read, or the directories above it are made. -/
  | read (task : ℕ)
  /-- The file is written; a write that fails may leave other bytes. -/
  | write (task : ℕ) (torn : Option (List UInt8))

namespace FileTools

def start (fileLockEnabled : Bool) (files : Files) : FileTools :=
  ⟨.start fileLockEnabled, files, fun _ => .idle, []⟩

def setTask (s : FileTools) (i : ℕ) (t : Task) : FileTools :=
  { s with task := Function.update s.task i t }

/-- A call of `acquire` belongs to its tool, and a guard is kept until its tool is over. -/
def permits (s : FileTools) : QueueAction → Bool
  | .acquire _ => false
  | .dropGuard i =>
    match s.task i with
    | .over _ => true
    | .idle | .opened _ _ | .loaded _ _ _ => false
  | .lockOwned _ | .fileLocked _ _ | .cancel _ | .dropClone _ | .prune => true

def guarded (s : FileTools) (i : ℕ) : Bool :=
  match s.queue.call i with
  | .guarding _ _ => true
  | .idle | .waiting _ _ | .filing _ _ | .releasing _ _ | .over => false

def writeFile (s : FileTools) (i : ℕ) (place : Place) (change : Change) (new : List UInt8) :
    Option (List UInt8) → FileTools
  | none =>
    { s with files := Function.update s.files place (some new),
             applied := s.applied ++ [(place, change)] }.setTask i (.over (.ok ()))
  | some torn =>
    { s with files := Function.update s.files place (some torn),
             applied := s.applied ++ [(place, Change.write torn)] }.setTask i (.over (.error .io))

/-- One step of some tool; a step that is not possible leaves everything as it is. -/
def step (d : WorkingDirectory) (workDir : Option (List Char)) (s : FileTools) :
    ToolAction → FileTools
  | .execute raw change =>
    let path := resolveToolPath d.currentDir workDir raw
    { s with queue := s.queue.acquire d.currentDir path }.setTask s.queue.nextCall
      (.opened path change)
  | .queue a => if s.permits a then { s with queue := s.queue.step d.currentDir a } else s
  | .fail i error =>
    match s.task i with
    | .opened _ _ | .loaded _ _ _ => s.setTask i (.over (.error error))
    | .idle | .over _ => s
  | .read i =>
    match s.task i with
    | .opened path (.edit oldString newString) =>
      if s.guarded i then
        match (d.fileAt path).bind s.files with
        | none => s.setTask i (.over (.error .io))
        | some bytes =>
          match editContent oldString newString bytes with
          | .error error => s.setTask i (.over (.error error))
          | .ok new => s.setTask i (.loaded path (.edit oldString newString) new)
      else s
    | .opened path (.write content) =>
      if s.guarded i then s.setTask i (.loaded path (.write content) content) else s
    | .idle | .loaded _ _ _ | .over _ => s
  | .write i torn =>
    match s.task i with
    | .loaded path change new =>
      match d.fileAt path with
      | none => s.setTask i (.over (.error .io))
      | some place => s.writeFile i place change new torn
    | .idle | .opened _ _ | .over _ => s

/-- No update is lost: the files are what the changes come to, one after the other. -/
def Lossless (files : Files) (s : FileTools) : Prop := s.files = replay files s.applied

@[simp] theorem setTask_task (s : FileTools) (i : ℕ) (t : Task) :
    (s.setTask i t).task = Function.update s.task i t := rfl

end FileTools

theorem replay_append (files : Files) (changes : List (Place × Change)) (c : Place × Change) :
    replay files (changes ++ [c]) =
      Function.update (replay files changes) c.1 (c.2.apply (replay files changes c.1)) := by
  rw [replay, List.foldl_append]
  rfl

section Paths

variable (d : WorkingDirectory) (workDir : Option (List Char))

theorem WorkingDirectory.isAbsolute_currentDir : ∀ dir ∈ d.currentDir, isAbsolute dir = true := by
  intro dir hdir
  rw [currentDir] at hdir
  split_ifs at hdir
  · rw [← Option.some.inj hdir]
    rfl
  · cases hdir

theorem WorkingDirectory.steps_currentDir : ∀ dir ∈ d.currentDir, steps dir = d.place := by
  intro dir hdir
  rw [currentDir] at hdir
  split_ifs at hdir
  · rw [← Option.some.inj hdir]
    exact steps_root d.proper
  · cases hdir

/-- Resolved once, a path is spelled as its key has it. -/
theorem lockKey_resolveToolPath {raw : List Char} (hne : joinWorkDir workDir raw ≠ []) :
    lockKey d.currentDir (resolveToolPath d.currentDir workDir raw) =
      spelling d.currentDir (joinWorkDir workDir raw) :=
  (pathComponents_absolute d.isAbsolute_currentDir
    (absolute_ne_nil d.isAbsolute_currentDir hne)).trans
    (spelling_absolute d.isAbsolute_currentDir hne)

/-- And it still leads to the same file. -/
theorem fileAt_resolveToolPath (raw : List Char) :
    d.fileAt (resolveToolPath d.currentDir workDir raw) = d.fileAt (joinWorkDir workDir raw) := by
  by_cases hne : joinWorkDir workDir raw = []
  · rw [resolveToolPath, hne]
    rfl
  · have hpath : resolveToolPath d.currentDir workDir raw ≠ [] :=
      absolute_ne_nil d.isAbsolute_currentDir hne
    rw [WorkingDirectory.fileAt, WorkingDirectory.fileAt, if_neg hne, if_neg hpath]
    exact congrArg some
      (resolve_absolute d.isAbsolute_currentDir d.steps_currentDir d.proper hne)

/-- The file of a tool path, and the key of its lock. -/
def toolFile (raw : List Char) : Option Place := d.fileAt (joinWorkDir workDir raw)

def toolKey (raw : List Char) : List Component :=
  lockKey d.currentDir (resolveToolPath d.currentDir workDir raw)

/-- The parts of a tool path: behind the work directory and the current directory, without what is
empty or `.`. -/
def toolSpelling (raw : List Char) : List Component :=
  spelling d.currentDir (joinWorkDir workDir raw)

variable {d workDir}

/-- Without `..`, the parts of a path are the names of its file. -/
theorem toolSpelling_of_no_parentDir {raw : List Char} {place : Place}
    (hfile : toolFile d workDir raw = some place)
    (hroot : (stepsFrom d.currentDir (joinWorkDir workDir raw)).isSome)
    (hup : .parentDir ∉ toolSpelling d workDir raw) :
    toolSpelling d workDir raw = .rootDir :: place.map .ofStep := by
  obtain ⟨cs, hcs⟩ := Option.isSome_iff_exists.mp hroot
  have hspelling := spelling_of_stepsFrom hcs
  rw [toolSpelling] at hup ⊢
  rw [hspelling] at hup ⊢
  have hne : joinWorkDir workDir raw ≠ [] := by
    intro hnil
    rw [toolFile, hnil] at hfile
    cases hfile
  have hplace : resolve d.place (joinWorkDir workDir raw) = cs.foldl descend [] :=
    resolve_of_stepsFrom d.steps_currentDir d.proper hcs
  have hnames : ∀ c ∈ cs, IsName c := by
    intro c hc
    obtain ⟨hnil, hdot, -⟩ := mem_stepsFrom hcs c hc
    refine ⟨hnil, hdot, ?_⟩
    rintro rfl
    exact hup (List.mem_cons_of_mem _ (List.mem_map.mpr ⟨_, hc, rfl⟩))
  rw [toolFile, WorkingDirectory.fileAt, if_neg hne, hplace, foldl_descend_names _ hnames,
    List.nil_append] at hfile
  rw [Option.some.inj hfile]

theorem toolKey_eq {raw : List Char} (h : (toolFile d workDir raw).isSome) :
    toolKey d workDir raw = toolSpelling d workDir raw := by
  apply lockKey_resolveToolPath
  intro hnil
  rw [toolFile, hnil] at h
  cases h

/-- So the lock is the same however a path is written without `..`. -/
theorem toolKey_eq_of_no_parentDir {p q : List Char} {place : Place}
    (hp : toolFile d workDir p = some place) (hq : toolFile d workDir q = some place)
    (hrootP : (stepsFrom d.currentDir (joinWorkDir workDir p)).isSome)
    (hrootQ : (stepsFrom d.currentDir (joinWorkDir workDir q)).isSome)
    (hupP : .parentDir ∉ toolSpelling d workDir p) (hupQ : .parentDir ∉ toolSpelling d workDir q) :
    toolKey d workDir p = toolKey d workDir q := by
  rw [toolKey_eq (by rw [hp]; rfl), toolKey_eq (by rw [hq]; rfl),
    toolSpelling_of_no_parentDir hp hrootP hupP, toolSpelling_of_no_parentDir hq hrootQ hupQ]

end Paths

/-- The path a tool works on. -/
def Task.path? : Task → Option (List Char)
  | .opened path _ | .loaded path _ _ => some path
  | .idle | .over _ => none

namespace FileTools

variable {d : WorkingDirectory} {workDir : Option (List Char)} {raws : List Char → Prop}
  {files : Files}

/-- Tool paths of one file have one key. -/
def Agree (d : WorkingDirectory) (workDir : Option (List Char)) (raws : List Char → Prop) : Prop :=
  ∀ p q, raws p → raws q → toolFile d workDir p = toolFile d workDir q →
    (toolFile d workDir p).isSome → toolKey d workDir p = toolKey d workDir q

/-- The tools are given these paths. -/
def Uses (raws : List Char → Prop) : ToolAction → Prop
  | .execute raw _ => raws raw
  | _ => True

/-- A tool that is about to write has the guard of its path, and its change is to what is in the
file. -/
structure Sound (d : WorkingDirectory) (workDir : Option (List Char)) (raws : List Char → Prop)
    (files : Files) (s : FileTools) : Prop where
  queue : s.queue.Sound
  lossless : s.Lossless files
  begun : ∀ i, s.queue.nextCall ≤ i → s.task i = .idle
  named : ∀ i path, (s.task i).path? = some path →
    ∃ raw, raws raw ∧ path = resolveToolPath d.currentDir workDir raw
  keyed : ∀ i path key, (s.task i).path? = some path →
    (s.queue.call i).use.map (·.key) = some key → key = lockKey d.currentDir path
  guarded : ∀ i path change new, s.task i = .loaded path change new →
    ∃ key lock, s.queue.call i = .guarding key lock
  current : ∀ i path change new place, s.task i = .loaded path change new →
    d.fileAt path = some place → change.apply (s.files place) = some new

namespace Sound

variable {s : FileTools}

theorem start (fileLockEnabled : Bool) :
    Sound d workDir raws files (start fileLockEnabled files) where
  queue := .start fileLockEnabled
  lossless := rfl
  begun _ _ := rfl
  named _ _ h := by cases h
  keyed _ _ _ h := by cases h
  guarded _ _ _ _ h := by cases h
  current _ _ _ _ _ h := by cases h

/-- A tool that stands somewhere has begun. -/
theorem lt_nextCall (h : Sound d workDir raws files s) {i : ℕ} (hi : s.task i ≠ .idle) :
    i < s.queue.nextCall := by
  by_contra hge
  exact hi (h.begun i (not_lt.mp hge))

/-- A tool goes on with its own path, or is over. -/
theorem setTask (h : Sound d workDir raws files s) {i : ℕ} {t : Task} (hi : s.task i ≠ .idle)
    (hpath : ∀ path, t.path? = some path → (s.task i).path? = some path)
    (hguarded : ∀ path change new, t = .loaded path change new →
      ∃ key lock, s.queue.call i = .guarding key lock)
    (hcurrent : ∀ path change new place, t = .loaded path change new →
      d.fileAt path = some place → change.apply (s.files place) = some new) :
    Sound d workDir raws files (s.setTask i t) := by
  have hcases : ∀ j, (j = i ∧ (s.setTask i t).task j = t) ∨ (s.setTask i t).task j = s.task j := by
    intro j
    by_cases hj : j = i
    · exact .inl ⟨hj, by rw [hj, setTask_task, Function.update_self]⟩
    · exact .inr (Function.update_of_ne hj ..)
  have hsame : ∀ j path, ((s.setTask i t).task j).path? = some path →
      (s.task j).path? = some path := by
    intro j path hj
    rcases hcases j with ⟨rfl, ht⟩ | ht
    · rw [ht] at hj
      exact hpath path hj
    · rwa [ht] at hj
  constructor
  · exact h.queue
  · exact h.lossless
  · intro j hj
    rcases hcases j with ⟨rfl, -⟩ | ht
    · exact absurd hj (not_le.mpr (h.lt_nextCall hi))
    · exact ht.trans (h.begun j hj)
  · exact fun j path hj => h.named j path (hsame j path hj)
  · exact fun j path key hj => h.keyed j path key (hsame j path hj)
  · intro j path change new hj
    rcases hcases j with ⟨rfl, ht⟩ | ht
    · exact hguarded path change new (ht.symm.trans hj)
    · exact h.guarded j path change new (ht.symm.trans hj)
  · intro j path change new place hj
    rcases hcases j with ⟨rfl, ht⟩ | ht
    · exact hcurrent path change new place (ht.symm.trans hj)
    · exact h.current j path change new place (ht.symm.trans hj)

theorem setTask_over (h : Sound d workDir raws files s) {i : ℕ} (hi : s.task i ≠ .idle)
    (result : Except ToolError Unit) : Sound d workDir raws files (s.setTask i (.over result)) := by
  apply h.setTask hi
  · exact fun path hpath => by cases hpath
  · exact fun path change new hover => by cases hover
  · exact fun path change new place hover => by cases hover

/-- Two tools that write to one file are one. -/
theorem writer_unique (h : Sound d workDir raws files s) (hagree : Agree d workDir raws) {i j : ℕ}
    {pathI pathJ : List Char} {changeI changeJ : Change} {newI newJ : List UInt8} {place : Place}
    (hi : s.task i = .loaded pathI changeI newI) (hj : s.task j = .loaded pathJ changeJ newJ)
    (hplaceI : d.fileAt pathI = some place) (hplaceJ : d.fileAt pathJ = some place) : i = j := by
  have hpathI : (s.task i).path? = some pathI := by rw [hi]; rfl
  have hpathJ : (s.task j).path? = some pathJ := by rw [hj]; rfl
  obtain ⟨keyI, lockI, hcallI⟩ := h.guarded i _ _ _ hi
  obtain ⟨keyJ, lockJ, hcallJ⟩ := h.guarded j _ _ _ hj
  have hkeyI : keyI = lockKey d.currentDir pathI := h.keyed i _ _ hpathI (by rw [hcallI]; rfl)
  have hkeyJ : keyJ = lockKey d.currentDir pathJ := h.keyed j _ _ hpathJ (by rw [hcallJ]; rfl)
  obtain ⟨p, hp, rfl⟩ := h.named i _ hpathI
  obtain ⟨q, hq, rfl⟩ := h.named j _ hpathJ
  rw [fileAt_resolveToolPath] at hplaceI hplaceJ
  have hkeys : toolKey d workDir p = toolKey d workDir q := by
    apply hagree p q hp hq
    · exact hplaceI.trans hplaceJ.symm
    · rw [toolFile, hplaceI]
      rfl
  have hsame : keyI = keyJ := hkeyI.trans (hkeys.trans hkeyJ.symm)
  rw [hsame] at hcallI
  exact h.queue.exclusive i j keyJ ⟨lockI, hcallI⟩ ⟨lockJ, hcallJ⟩

/-- A new tool asks for the guard of its path. -/
theorem execute (h : Sound d workDir raws files s) {raw : List Char} (hraw : raws raw)
    (change : Change) : Sound d workDir raws files (s.step d workDir (.execute raw change)) := by
  have hcases : ∀ j, (j = s.queue.nextCall ∧
      (s.step d workDir (.execute raw change)).task j =
        .opened (resolveToolPath d.currentDir workDir raw) change ∧
      ((s.step d workDir (.execute raw change)).queue.call j).use.map (·.key) =
        some (lockKey d.currentDir (resolveToolPath d.currentDir workDir raw))) ∨
      ((s.step d workDir (.execute raw change)).task j = s.task j ∧
        (s.step d workDir (.execute raw change)).queue.call j = s.queue.call j) := by
    intro j
    by_cases hj : j = s.queue.nextCall
    · refine .inl ⟨hj, ?_, ?_⟩
      · rw [hj, step, setTask_task, Function.update_self]
      · have hcall : (s.step d workDir (.execute raw change)).queue.call s.queue.nextCall =
            .waiting (lockKey d.currentDir (resolveToolPath d.currentDir workDir raw)) _ :=
          Function.update_self ..
        rw [hj, hcall]
        rfl
    · exact .inr ⟨Function.update_of_ne hj .., Function.update_of_ne hj ..⟩
  constructor
  · exact h.queue.acquire d.currentDir _
  · exact h.lossless
  · intro j hj
    rcases hcases j with ⟨rfl, -⟩ | ⟨ht, -⟩
    · exact absurd hj (Nat.not_succ_le_self _)
    · exact ht.trans (h.begun j ((Nat.le_succ _).trans hj))
  · intro j path hpath
    rcases hcases j with ⟨-, ht, -⟩ | ⟨ht, -⟩
    · rw [ht] at hpath
      exact ⟨raw, hraw, (Option.some.inj hpath).symm⟩
    · rw [ht] at hpath
      exact h.named j path hpath
  · intro j path key hpath hkey
    rcases hcases j with ⟨-, ht, hnew⟩ | ⟨ht, hcall⟩
    · rw [ht] at hpath
      rw [hnew] at hkey
      rw [← Option.some.inj hkey, ← Option.some.inj hpath]
    · rw [ht] at hpath
      rw [hcall] at hkey
      exact h.keyed j path key hpath hkey
  · intro j path change' new hj
    rcases hcases j with ⟨-, ht, -⟩ | ⟨ht, hcall⟩
    · rw [ht] at hj
      cases hj
    · rw [ht] at hj
      rw [hcall]
      exact h.guarded j path change' new hj
  · intro j path change' new place hj
    rcases hcases j with ⟨-, ht, -⟩ | ⟨ht, -⟩
    · rw [ht] at hj
      cases hj
    · rw [ht] at hj
      exact h.current j path change' new place hj

/-- The queue goes on, and takes no guard from a tool that uses it. -/
theorem queueStep (h : Sound d workDir raws files s) {a : QueueAction} (ha : s.permits a = true) :
    Sound d workDir raws files { s with queue := s.queue.step d.currentDir a } := by
  have hacquire : ∀ path, a ≠ .acquire path := by
    rintro path rfl
    cases ha
  constructor
  · exact h.queue.step d.currentDir a
  · exact h.lossless
  · intro j hj
    rw [FileMutationQueue.nextCall_step hacquire] at hj
    exact h.begun j hj
  · exact h.named
  · intro j path key hpath hkey
    exact h.keyed j path key hpath
      (FileMutationQueue.guarding_of_step d.currentDir hacquire hkey)
  · intro j path change new hj
    obtain ⟨key, lock, hcall⟩ := h.guarded j path change new hj
    refine ⟨key, lock, FileMutationQueue.guarding_step h.queue d.currentDir hcall ?_⟩
    rintro rfl
    rw [permits, hj] at ha
    cases ha
  · exact h.current

theorem of_guarded {i : ℕ} (hi : s.guarded i = true) :
    ∃ key lock, s.queue.call i = .guarding key lock := by
  unfold FileTools.guarded at hi
  split at hi
  · rename_i key lock hcall
    exact ⟨key, lock, hcall⟩
  all_goals cases hi

/-- What a tool has read is in the file when it writes: the others with this file do not have the
guard. -/
theorem read (h : Sound d workDir raws files s) (i : ℕ) :
    Sound d workDir raws files (s.step d workDir (.read i)) := by
  simp only [step]
  split
  · rename_i path oldString newString hi
    have hidle : s.task i ≠ .idle := by rw [hi]; exact Task.noConfusion
    split_ifs with hguarded
    · split
      · exact h.setTask_over hidle _
      · rename_i bytes hbytes
        split
        · exact h.setTask_over hidle _
        · rename_i new hnew
          apply h.setTask hidle
          · intro path' hpath
            rw [hi]
            exact hpath
          · exact fun _ _ _ _ => of_guarded hguarded
          · intro path' change new' place hload hplace
            obtain ⟨rfl, rfl, rfl⟩ := Task.loaded.inj hload
            rw [hplace, Option.bind_some] at hbytes
            rw [hbytes, Change.apply, hnew]
    · exact h
  · rename_i path content hi
    split_ifs with hguarded
    · apply h.setTask
      · rw [hi]; exact Task.noConfusion
      · intro path' hpath
        rw [hi]
        exact hpath
      · exact fun _ _ _ _ => of_guarded hguarded
      · intro path' change new place hload _
        obtain ⟨-, rfl, rfl⟩ := Task.loaded.inj hload
        rfl
    · exact h
  all_goals exact h

/-- A change that is made to what is in the file is the next change of the file. -/
theorem changed (h : Sound d workDir raws files s) (hagree : Agree d workDir raws) {i : ℕ}
    {path : List Char} {change : Change} {new : List UInt8} {place : Place}
    (hi : s.task i = .loaded path change new) (hplace : d.fileAt path = some place)
    {made : Change} {content : List UInt8} (hmade : made.apply (s.files place) = some content)
    (result : Except ToolError Unit) :
    Sound d workDir raws files
      ({ s with files := Function.update s.files place (some content),
                applied := s.applied ++ [(place, made)] }.setTask i (.over result)) := by
  have hover : ∀ j t, Function.update s.task i (.over result) j = t →
      t = .over result ∨ (j ≠ i ∧ s.task j = t) := by
    intro j t hj
    by_cases hji : j = i
    · rw [hji, Function.update_self] at hj
      exact .inl hj.symm
    · rw [Function.update_of_ne hji] at hj
      exact .inr ⟨hji, hj⟩
  have hbegun : i < s.queue.nextCall := h.lt_nextCall (by rw [hi]; exact Task.noConfusion)
  have hsame : ∀ j p, (Function.update s.task i (.over result) j).path? = some p →
      (s.task j).path? = some p := by
    intro j p hp
    rcases hover j _ rfl with ht | ⟨-, ht⟩
    · rw [ht] at hp
      cases hp
    · rwa [ht]
  constructor
  · exact h.queue
  · have hreplay : s.files = replay files s.applied := h.lossless
    rw [Lossless, FileTools.setTask, replay_append, ← hreplay, hmade]
  · intro j hj
    have hji : j ≠ i := by
      rintro rfl
      exact absurd hj (not_le.mpr hbegun)
    exact (Function.update_of_ne hji ..).trans (h.begun j hj)
  · exact fun j p hp => h.named j p (hsame j p hp)
  · exact fun j p key hp => h.keyed j p key (hsame j p hp)
  · intro j p c n hj
    rcases hover j _ hj with ht | ⟨-, ht⟩
    · cases ht
    · exact h.guarded j p c n ht
  · intro j p c n place' hj hplace'
    rcases hover j _ hj with ht | ⟨hji, ht⟩
    · cases ht
    · have hne : place' ≠ place := by
        rintro rfl
        exact hji (h.writer_unique hagree ht hi hplace' hplace)
      exact (congrArg c.apply (Function.update_of_ne hne ..)).trans
        (h.current j p c n place' ht hplace')

theorem step (h : Sound d workDir raws files s) (hagree : Agree d workDir raws) {a : ToolAction}
    (ha : Uses raws a) : Sound d workDir raws files (s.step d workDir a) := by
  cases a with
  | execute raw change => exact h.execute ha change
  | queue a =>
    simp only [FileTools.step]
    split_ifs with hpermits
    · exact h.queueStep hpermits
    · exact h
  | fail i error =>
    simp only [FileTools.step]
    split
    · rename_i hi
      exact h.setTask_over (by rw [hi]; exact Task.noConfusion) _
    · rename_i hi
      exact h.setTask_over (by rw [hi]; exact Task.noConfusion) _
    all_goals exact h
  | read i => exact h.read i
  | write i torn =>
    simp only [FileTools.step]
    split
    · rename_i path change new hi
      split
      · exact h.setTask_over (by rw [hi]; exact Task.noConfusion) _
      · rename_i place hplace
        cases torn with
        | none => exact h.changed hagree hi hplace (h.current i _ _ _ _ hi hplace) _
        | some torn => exact h.changed hagree hi hplace rfl _
    all_goals exact h

end Sound

/-- No interleaving of tools with these two paths loses an update. -/
def NoLostUpdate (d : WorkingDirectory) (workDir : Option (List Char)) (p q : List Char) : Prop :=
  ∀ fileLockEnabled files as, (∀ a ∈ as, Uses (fun raw => raw = p ∨ raw = q) a) →
    Runs.Throughout (step d workDir) (Lossless files) (start fileLockEnabled files) as

/-- Both edits read the file before one of them writes. -/
def crossedEdits (p q : List Char) : List ToolAction :=
  [.execute p (.edit ['a'] ['c']), .execute q (.edit ['b'] ['d']), .queue (.lockOwned 0),
    .queue (.lockOwned 1), .read 0, .read 1, .write 0 none, .write 1 none]

theorem crossedEdits_run {p q : List Char} {place : Place}
    (hp : toolFile d workDir p = some place) (hq : toolFile d workDir q = some place)
    (hkey : toolKey d workDir p ≠ toolKey d workDir q) (hab : files place = some [97, 98]) :
    (Runs.run (step d workDir) (start false files) (crossedEdits p q)).files place =
        some [97, 100] ∧
      (Runs.run (step d workDir) (start false files) (crossedEdits p q)).applied =
        [(place, .edit ['a'] ['c']), (place, .edit ['b'] ['d'])] := by
  have hfileP := (fileAt_resolveToolPath d workDir p).trans hp
  have hfileQ := (fileAt_resolveToolPath d workDir q).trans hq
  have hc : editContent ['a'] ['c'] [97, 98] = .ok [99, 98] := by decide +kernel
  have hd : editContent ['b'] ['d'] [97, 98] = .ok [97, 100] := by decide +kernel
  unfold toolKey at hkey
  have hfree : (AList.singleton (lockKey d.currentDir (resolveToolPath d.currentDir workDir p)) 0 :
      AList fun _ : List Component => ℕ).lookup
      (lockKey d.currentDir (resolveToolPath d.currentDir workDir q)) = none := by
    rw [← AList.insert_empty, AList.lookup_insert_ne (Ne.symm hkey), AList.lookup_empty]
  simp [crossedEdits, start, FileMutationQueue.start, KeyedLocks.empty, step,
    FileMutationQueue.acquire, PRUNE_THRESHOLD, KeyedLocks.fetch, hfree, permits,
    FileMutationQueue.step, FileMutationQueue.setCall, KeyedLocks.lock, guarded, hfileP, hfileQ,
    hab, hc, hd, setTask, writeFile]

theorem noLostUpdate_of_toolKey_eq {p q : List Char}
    (hkey : toolKey d workDir p = toolKey d workDir q) : NoLostUpdate d workDir p q := by
  intro fileLockEnabled files as has
  have hagree : Agree d workDir fun raw => raw = p ∨ raw = q := by
    rintro _ _ (rfl | rfl) (rfl | rfl) - -
    · rfl
    · exact hkey
    · exact hkey.symm
    · rfl
  exact Runs.throughout (fun _ _ h ha => h.step hagree ha) (fun _ h => h.lossless)
    (Sound.start fileLockEnabled) (Runs.along_of_forall fun a ha _ => has a ha)

theorem not_noLostUpdate_of_toolKey_ne {p q : List Char} (hfile : (toolFile d workDir p).isSome)
    (hsame : toolFile d workDir p = toolFile d workDir q)
    (hkey : toolKey d workDir p ≠ toolKey d workDir q) : ¬NoLostUpdate d workDir p q := by
  intro hlossless
  obtain ⟨place, hplace⟩ := Option.isSome_iff_exists.mp hfile
  have huses : ∀ a ∈ crossedEdits p q, Uses (fun raw => raw = p ∨ raw = q) a := by
    simp [crossedEdits, Uses]
  let files : Files := Function.update (fun _ => none) place (some [97, 98])
  have hab : files place = some [97, 98] := Function.update_self ..
  have hlast := (hlossless false files (crossedEdits p q) huses).last
  obtain ⟨hfinal, happlied⟩ := crossedEdits_run hplace (hsame ▸ hplace) hkey hab
  rw [Lossless, happlied] at hlast
  have hboth : replay files [(place, .edit ['a'] ['c']), (place, .edit ['b'] ['d'])] place =
      some [99, 100] := by
    have hc : Change.apply (.edit ['a'] ['c']) (some [97, 98]) = some [99, 98] := by decide +kernel
    have hd : Change.apply (.edit ['b'] ['d']) (some [99, 98]) = some [99, 100] := by
      decide +kernel
    simp [replay, hab, hc, hd]
  rw [hlast, hboth] at hfinal
  exact absurd hfinal (by decide)

/-- Two paths of one file share the lock, and no interleaving of tools with them loses an update,
exactly if their parts are the same, with every `..` that is written counted as a part, and a `.`
at the front where the current directory cannot be read. -/
theorem shared_lock_iff {p q : List Char} (hfile : (toolFile d workDir p).isSome)
    (hsame : toolFile d workDir p = toolFile d workDir q) :
    (toolKey d workDir p = toolKey d workDir q ↔
        toolSpelling d workDir p = toolSpelling d workDir q) ∧
      (NoLostUpdate d workDir p q ↔ toolSpelling d workDir p = toolSpelling d workDir q) := by
  have hkeys : toolKey d workDir p = toolKey d workDir q ↔
      toolSpelling d workDir p = toolSpelling d workDir q := by
    rw [toolKey_eq hfile, toolKey_eq (hsame ▸ hfile)]
  refine ⟨hkeys, ?_, fun hspelling => noLostUpdate_of_toolKey_eq (hkeys.mpr hspelling)⟩
  intro hlossless
  by_contra hspelling
  exact not_noLostUpdate_of_toolKey_ne hfile hsame (fun hkey => hspelling (hkeys.mp hkey)) hlossless

/-- A process in the root directory. -/
def rootProcess : WorkingDirectory where
  place := []
  proper _ h := by cases h
  readable := true

theorem shared_lock_dots :
    toolKey rootProcess (some "/work".toList) "f".toList =
        toolKey rootProcess (some "/work".toList) ".//./f".toList ∧
      NoLostUpdate rootProcess (some "/work".toList) "f".toList ".//./f".toList := by
  have hfile : (toolFile rootProcess (some "/work".toList) "f".toList).isSome := by decide +kernel
  have hsame : toolFile rootProcess (some "/work".toList) "f".toList =
      toolFile rootProcess (some "/work".toList) ".//./f".toList := by decide +kernel
  have hspelling : toolSpelling rootProcess (some "/work".toList) "f".toList =
      toolSpelling rootProcess (some "/work".toList) ".//./f".toList := by decide +kernel
  have hshared := shared_lock_iff hfile hsame
  exact ⟨hshared.1.mpr hspelling, hshared.2.mpr hspelling⟩

/-- A path that goes up and down again leads to the file, and past its lock. -/
theorem dotDot_loses :
    toolFile rootProcess (some "/work".toList) "f".toList =
        toolFile rootProcess (some "/work".toList) "sub/../f".toList ∧
      (toolFile rootProcess (some "/work".toList) "f".toList).isSome ∧
      toolKey rootProcess (some "/work".toList) "f".toList ≠
        toolKey rootProcess (some "/work".toList) "sub/../f".toList ∧
      ¬NoLostUpdate rootProcess (some "/work".toList) "f".toList "sub/../f".toList := by
  have hfile : (toolFile rootProcess (some "/work".toList) "f".toList).isSome := by decide +kernel
  have hsame : toolFile rootProcess (some "/work".toList) "f".toList =
      toolFile rootProcess (some "/work".toList) "sub/../f".toList := by decide +kernel
  have hkey : toolKey rootProcess (some "/work".toList) "f".toList ≠
      toolKey rootProcess (some "/work".toList) "sub/../f".toList := by decide +kernel
  exact ⟨hsame, hfile, hkey, not_noLostUpdate_of_toolKey_ne hfile hsame hkey⟩

end FileTools

end Guigu.Tools

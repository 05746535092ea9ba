import Guigu.Core.Provider
import Guigu.Library.Fallible
import Guigu.Library.Occurrences
import Guigu.Library.Serde
import Guigu.Tools.FileTools

/-! One call of the edit tool from its arguments to its result, and which occurrence it replaces.
While the call has its lock, the file is its own. -/
namespace Guigu.Tools

open Occurrences UnixPath FileTools

/-! ### Matching and replacing -/

theorem isPrefixOf_iff_occurs {pat cs : List Char} :
    pat.isPrefixOf cs = true ↔ Occurs pat cs 0 :=
  List.isPrefixOf_iff_prefix.trans occurs_zero.symm

/-- Nothing is found behind what is passed over if and only if every occurrence begins there. -/
theorem matchCount_eq_zero {pat : List Char} {skip : ℕ} {cs : List Char} :
    matchCount pat skip cs = 0 ↔ ∀ i, Occurs pat cs i → i < skip := by
  induction cs generalizing skip with
  | nil =>
    cases skip with
    | zero => by_cases hpat : pat = [] <;> simp [matchCount, hpat]
    | succ skip => simp [matchCount]
  | cons c cs ih =>
    cases skip with
    | succ skip =>
      rw [matchCount, ih]
      constructor
      · intro h i hi
        cases i with
        | zero => exact Nat.succ_pos skip
        | succ i => exact Nat.succ_lt_succ (h i (occurs_cons.mp hi))
      · exact fun h i hi => Nat.lt_of_succ_lt_succ (h (i + 1) (occurs_cons.mpr hi))
    | zero =>
      rw [matchCount]
      split_ifs with hprefix
      · have hzero : Occurs pat (c :: cs) 0 := isPrefixOf_iff_occurs.mp hprefix
        exact iff_of_false not_false fun h => Nat.not_lt_zero _ (h 0 hzero)
      · rw [ih]
        constructor
        · intro h i hi
          cases i with
          | zero => exact absurd (isPrefixOf_iff_occurs.mpr hi) hprefix
          | succ i => exact absurd (h i (occurs_cons.mp hi)) (Nat.not_lt_zero i)
        · exact fun h i hi => absurd (h (i + 1) (occurs_cons.mpr hi)) (Nat.not_lt_zero _)

/-- One match is found if and only if no occurrence begins behind the end of the first one. -/
theorem matchCount_eq_one {pat cs : List Char} :
    matchCount pat 0 cs = 1 ↔
      ∃ i, Occurs pat cs i ∧ ∀ k, Occurs pat cs k → i ≤ k ∧ k < i + max pat.length 1 := by
  induction cs with
  | nil =>
    by_cases hpat : pat = []
    · simp [matchCount, hpat]
    · simp [matchCount, hpat]
  | cons c cs ih =>
    rw [matchCount]
    split_ifs with hprefix
    · have hzero : Occurs pat (c :: cs) 0 := isPrefixOf_iff_occurs.mp hprefix
      rw [Nat.add_eq_right, matchCount_eq_zero]
      constructor
      · intro h
        refine ⟨0, hzero, fun k hk => ⟨Nat.zero_le k, ?_⟩⟩
        cases k with
        | zero => omega
        | succ k =>
          have := h k (occurs_cons.mp hk)
          omega
      · rintro ⟨i, -, hall⟩ k hk
        have hfirst := hall 0 hzero
        have hlast := hall (k + 1) (occurs_cons.mpr hk)
        omega
    · have hnotzero : ¬ Occurs pat (c :: cs) 0 := fun h =>
        hprefix (isPrefixOf_iff_occurs.mpr h)
      rw [ih]
      constructor
      · rintro ⟨i, hi, hall⟩
        refine ⟨i + 1, occurs_cons.mpr hi, fun k hk => ?_⟩
        cases k with
        | zero => exact absurd hk hnotzero
        | succ k =>
          have := hall k (occurs_cons.mp hk)
          omega
      · rintro ⟨i, hi, hall⟩
        cases i with
        | zero => exact absurd hi hnotzero
        | succ i =>
          refine ⟨i, occurs_cons.mp hi, fun k hk => ?_⟩
          have := hall (k + 1) (occurs_cons.mpr hk)
          omega

/-- The replacement is made at the first occurrence. -/
theorem replaceFirst_append {pat new front back : List Char}
    (hfirst : ∀ k, Occurs pat (front ++ pat ++ back) k → front.length ≤ k) :
    replaceFirst pat new (front ++ pat ++ back) = front ++ new ++ back := by
  induction front with
  | nil =>
    rw [List.nil_append, List.nil_append]
    cases htext : pat ++ back with
    | nil =>
      obtain ⟨rfl, rfl⟩ := List.append_eq_nil_iff.mp htext
      simp [replaceFirst]
    | cons c cs =>
      have hprefix : pat.isPrefixOf (c :: cs) = true :=
        List.isPrefixOf_iff_prefix.mpr (htext ▸ List.prefix_append pat back)
      rw [replaceFirst, if_pos hprefix, ← htext, List.drop_left]
  | cons c front ih =>
    rw [List.cons_append, List.cons_append] at hfirst ⊢
    have hprefix : ¬ pat.isPrefixOf (c :: (front ++ pat ++ back)) = true := by
      intro h
      have := hfirst 0 (isPrefixOf_iff_occurs.mp h)
      exact Nat.not_succ_le_zero _ this
    rw [replaceFirst, if_neg hprefix, ih fun k hk =>
      Nat.le_of_succ_le_succ (hfirst (k + 1) (occurs_cons.mpr hk))]
    rfl

/-- What is counted as one match stands there once, or several times one in another. -/
theorem matchCount_eq_one_iff {pat cs : List Char} :
    matchCount pat 0 cs = 1 ↔ (∃! i, Occurs pat cs i) ∨ Entangled pat cs :=
  matchCount_eq_one.trans unique_or_entangled.symm

/-! ### The tool -/

structure EditArgs where
  path : String
  oldString : String
  newString : String
  deriving DecidableEq, Repr

/-- The arguments as fields, or as the array of them. -/
def EditArgs.fromValue : Json → Option EditArgs
  | .arr [.str path, .str oldString, .str newString] => some ⟨path, oldString, newString⟩
  | args =>
    (Serde.getString "path" args).bind fun path =>
      (Serde.getString "old_string" args).bind fun oldString =>
        (Serde.getString "new_string" args).map fun newString => ⟨path, oldString, newString⟩

/-- What a call of the tool meets: whether it is cancelled when it looks, what comes of the wait for
the lock (nothing, when the cancellation comes first), and the errors of the file system. -/
structure EditEnv where
  cancelledFirst : Bool
  argumentsError : String
  acquired : Option (Except String Unit)
  cancelledLocked : Bool
  metadata : Except String Unit
  read : Except String Unit
  utf8Error : String
  cancelledLoaded : Bool

/-- The call is not cancelled, gets its lock, and can read its file. -/
structure EditEnv.Undisturbed (env : EditEnv) : Prop where
  first : env.cancelledFirst = false
  acquired : env.acquired = some (.ok ())
  locked : env.cancelledLocked = false
  metadata : env.metadata = .ok ()
  read : env.read = .ok ()
  loaded : env.cancelledLoaded = false

def EditEnv.calm : EditEnv := ⟨false, "", some (.ok ()), false, .ok (), .ok (), "", false⟩

/-- A look at the cancellation. -/
def heed (cancelled : Bool) (place : String) : Except String Unit :=
  if cancelled then .error ("cancelled: edit aborted " ++ place) else .ok ()

namespace EditTool

variable (d : WorkingDirectory) (workDir : Option (List Char)) (env : EditEnv)

/-- The regular file at a path, and what is in it. -/
def regularFile (files : Files) (path : List Char) : Option (Place × List UInt8) :=
  (d.fileAt path).bind fun place => (files place).map fun bytes => (place, bytes)

/-- The file and its new content. -/
def rewrite (args : EditArgs) (file : Option (Place × List UInt8)) :
    Except String (Place × List UInt8) := do
  env.metadata
  match file with
  | none => .error "not a regular file"
  | some (place, bytes) => do
    env.read
    match Utf8.decode bytes with
    | none => .error ("invalid UTF-8: " ++ env.utf8Error)
    | some content =>
      let found := matchCount args.oldString.toList 0 content
      if found = 0 then .error "old_string not found"
      else if found > 1 then
        .error ("old_string not unique (" ++ toString found ++ " matches)")
      else
        .ok (place,
          Utf8.encode (replaceFirst args.oldString.toList args.newString.toList content))

/-- Everything in front of the write: the path as it is shown, the file and its new content. -/
def prepare (json : Json) (files : Files) : Except String (String × Place × List UInt8) := do
  heed env.cancelledFirst "before IO"
  match EditArgs.fromValue json with
  | none => .error env.argumentsError
  | some args => do
    let path := resolveToolPath d.currentDir workDir args.path.toList
    match env.acquired with
    | none => .error "cancelled: edit aborted while waiting for file lock"
    | some acquired => do
      acquired.mapError ("acquire file lock failed: " ++ ·)
      heed env.cancelledLocked "after acquiring file lock"
      let new ← (rewrite env args (regularFile d files path)).mapError
        (("edit " ++ String.ofList path ++ ": ") ++ ·)
      heed env.cancelledLoaded "before write"
      .ok (String.ofList path, new)

def edited (path : String) : ToolResult where
  content := [.text ("edited " ++ path ++ ": replaced 1 occurrence")]
  isError := false
  details := some (.obj [("path", .str path), ("replaced", Serde.ofNat 1)])

/-- A write that fails may leave other bytes in the file. -/
def execute (json : Json) (torn : Option (String × List UInt8)) (files : Files) :
    Except String ToolResult × Files :=
  match prepare d workDir env json files with
  | .error e => (.error e, files)
  | .ok (path, place, new) =>
    match torn with
    | some (e, left) =>
      (.error ("edit " ++ path ++ ": " ++ e), Function.update files place (some left))
    | none => (.ok (edited path), Function.update files place (some new))

variable {d workDir env} {json : Json} {files : Files} {args : EditArgs} {place : Place}
  {content : List Char}

/-- A file of text is rewritten if and only if one match is found in it. -/
theorem rewrite_eq_ok (hmetadata : env.metadata = .ok ()) (hread : env.read = .ok ())
    {r : Place × List UInt8} :
    rewrite env args (some (place, Utf8.encode content)) = .ok r ↔
      matchCount args.oldString.toList 0 content = 1 ∧
        r = (place,
          Utf8.encode (replaceFirst args.oldString.toList args.newString.toList content)) := by
  unfold rewrite
  rw [hmetadata, hread]
  simp only [bind, Except.bind, Utf8.decode_encode]
  split_ifs with hnone hmany
  · simp [hnone]
  · simp only [false_iff]
    omega
  · have hone : matchCount args.oldString.toList 0 content = 1 := by omega
    rw [Except.ok.injEq, eq_comm]
    exact ⟨fun h => ⟨hone, h⟩, fun h => h.2⟩

theorem heed_eq_ok {cancelled : Bool} {place : String} :
    heed cancelled place = .ok () ↔ cancelled = false := by
  cases cancelled <;> simp [heed]

/-- Nothing but an undisturbed call comes to its write. -/
theorem undisturbed_of_prepare {r : String × Place × List UInt8}
    (h : prepare d workDir env json files = .ok r) : env.Undisturbed := by
  obtain ⟨_, hfirst, h⟩ := Except.bind_eq_ok.mp h
  split at h
  · cases h
  next args _ =>
    simp only at h
    split at h
    · cases h
    next acquired hacquired =>
      obtain ⟨_, hlock, h⟩ := Except.bind_eq_ok.mp h
      obtain ⟨_, hlocked, h⟩ := Except.bind_eq_ok.mp h
      obtain ⟨new, hnew, h⟩ := Except.bind_eq_ok.mp h
      obtain ⟨_, hloaded, -⟩ := Except.bind_eq_ok.mp h
      obtain ⟨_, hmetadata, hnew⟩ := Except.bind_eq_ok.mp (Except.mapError_eq_ok.mp hnew)
      refine ⟨heed_eq_ok.mp hfirst, ?_, heed_eq_ok.mp hlocked, hmetadata, ?_,
        heed_eq_ok.mp hloaded⟩
      · rw [hacquired, Except.mapError_eq_ok.mp hlock]
      · split at hnew
        · cases hnew
        · obtain ⟨_, hread, -⟩ := Except.bind_eq_ok.mp hnew
          exact hread

/-- An undisturbed call comes to its write if and only if one match is found. -/
theorem prepare_eq_ok (hargs : EditArgs.fromValue json = some args)
    (hfile : regularFile d files (resolveToolPath d.currentDir workDir args.path.toList) =
      some (place, Utf8.encode content)) (henv : env.Undisturbed)
    {r : String × Place × List UInt8} :
    prepare d workDir env json files = .ok r ↔
      matchCount args.oldString.toList 0 content = 1 ∧
        r = (String.ofList (resolveToolPath d.currentDir workDir args.path.toList), place,
          Utf8.encode (replaceFirst args.oldString.toList args.newString.toList content)) := by
  unfold prepare
  rw [heed_eq_ok.mpr henv.first, hargs, henv.acquired, heed_eq_ok.mpr henv.locked,
    heed_eq_ok.mpr henv.loaded]
  simp only [hfile, Except.ok_bind, Except.mapError_ok]
  rw [Except.bind_eq_ok]
  simp only [Except.mapError_eq_ok, rewrite_eq_ok henv.metadata henv.read]
  constructor
  · rintro ⟨new, ⟨hone, rfl⟩, h⟩
    exact ⟨hone, (Except.ok.inj h).symm⟩
  · rintro ⟨hone, rfl⟩
    exact ⟨_, ⟨hone, rfl⟩, rfl⟩

/-- What is asked of a call whose write succeeds: undisturbed, it succeeds if and only if the old
string stands at exactly one position of the file, and replaces it there; otherwise it changes
nothing. -/
structure EditsExactly (env : EditEnv) (args : EditArgs) (place : Place) (content : List Char)
    (files : Files) (r : Except String ToolResult × Files) : Prop where
  succeeds : env.Undisturbed →
    (r.1.isOk = true ↔ ∃! i, Occurs args.oldString.toList content i)
  replaced : env.Undisturbed → (∃! i, Occurs args.oldString.toList content i) →
    ∀ front back, content = front ++ args.oldString.toList ++ back →
      r.2 = Function.update files place
        (some (Utf8.encode (front ++ args.newString.toList ++ back)))
  unchanged : ¬ (env.Undisturbed ∧ ∃! i, Occurs args.oldString.toList content i) → r.2 = files

theorem execute_of_prepare {path : String} {new : List UInt8}
    (h : prepare d workDir env json files = .ok (path, place, new)) :
    execute d workDir env json none files =
      (.ok (edited path), Function.update files place (some new)) := by
  unfold execute
  rw [h]

theorem execute_refused (h : ∀ r, prepare d workDir env json files ≠ .ok r) :
    (execute d workDir env json none files).1.isOk = false ∧
      (execute d workDir env json none files).2 = files := by
  unfold execute
  cases hprepare : prepare d workDir env json files with
  | error e => exact ⟨rfl, rfl⟩
  | ok r => exact absurd hprepare (h r)

/-- The change that an undisturbed call makes is the one its file sees among the calls of other
agents. -/
theorem execute_applies (hargs : EditArgs.fromValue json = some args)
    (hfile : regularFile d files (resolveToolPath d.currentDir workDir args.path.toList) =
      some (place, Utf8.encode content)) (henv : env.Undisturbed) :
    (execute d workDir env json none files).2 = Function.update files place
      ((Change.edit args.oldString.toList args.newString.toList).apply (files place)) := by
  have hbytes : files place = some (Utf8.encode content) := by
    obtain ⟨place', -, hmap⟩ := Option.bind_eq_some_iff.mp hfile
    obtain ⟨bytes, hbytes, heq⟩ := Option.map_eq_some_iff.mp hmap
    obtain ⟨rfl, rfl⟩ := Prod.mk.inj heq
    exact hbytes
  rw [hbytes, Change.apply, editContent, Utf8.decode_encode]
  by_cases hone : matchCount args.oldString.toList 0 content = 1
  · rw [execute_of_prepare ((prepare_eq_ok hargs hfile henv).mpr ⟨hone, rfl⟩)]
    simp [hone]
  · obtain ⟨-, hfiles⟩ := execute_refused fun r hr =>
      hone ((prepare_eq_ok hargs hfile henv).mp hr).1
    rw [hfiles, eq_comm, Function.update_eq_self_iff, hbytes]
    simp only
    split_ifs with hnone hmany
    · rfl
    · rfl
    · omega

/-- An edit does what is asked of it unless the old string stands at several positions that all
begin inside the first one: there it counts as one match, and the first is replaced. -/
theorem editsExactly_iff (hargs : EditArgs.fromValue json = some args)
    (hfile : regularFile d files (resolveToolPath d.currentDir workDir args.path.toList) =
      some (place, Utf8.encode content)) :
    EditsExactly env args place content files (execute d workDir env json none files) ↔
      (env.Undisturbed → ¬ Entangled args.oldString.toList content) := by
  by_cases henv : env.Undisturbed
  · by_cases hone : matchCount args.oldString.toList 0 content = 1
    · have hexecute := execute_of_prepare ((prepare_eq_ok hargs hfile henv).mpr ⟨hone, rfl⟩)
      rw [hexecute]
      constructor
      · intro h _ hentangled
        exact hentangled.not_unique ((h.succeeds henv).mp rfl)
      · intro h
        have hunique := (matchCount_eq_one_iff.mp hone).resolve_right (h henv)
        refine ⟨fun _ => iff_of_true rfl hunique, ?_, fun hno => absurd ⟨henv, hunique⟩ hno⟩
        rintro - - front back rfl
        rw [replaceFirst_append]
        intro k hk
        exact (hunique.unique (occurs_append front _ back) hk).le
    · obtain ⟨hrefused, hfiles⟩ := execute_refused fun r hr =>
        hone ((prepare_eq_ok hargs hfile henv).mp hr).1
      have hnot := fun h => hone (matchCount_eq_one_iff.mpr h)
      refine iff_of_true ⟨fun _ => ?_, fun _ hunique => absurd (.inl hunique) hnot,
        fun _ => hfiles⟩ fun _ hentangled => hnot (.inr hentangled)
      rw [hrefused]
      exact iff_of_false Bool.false_ne_true fun hunique => hnot (.inl hunique)
  · obtain ⟨-, hfiles⟩ := execute_refused fun r hr => henv (undisturbed_of_prepare hr)
    exact iff_of_true ⟨fun h => absurd h henv, fun h => absurd h henv, fun _ => hfiles⟩
      fun h => absurd h henv

/-- A call for the file `f`, and the file system that has only this file. -/
def editCall (oldString newString : String) : Json :=
  .obj [("path", .str "/f"), ("old_string", .str oldString), ("new_string", .str newString)]

def oneFile (content : List Char) : Files := fun place =>
  if place = ["f".toList] then some (Utf8.encode content) else none

theorem fromValue_editCall (oldString newString : String) :
    EditArgs.fromValue (editCall oldString newString) = some ⟨"/f", oldString, newString⟩ := by
  simp [EditArgs.fromValue, editCall, Serde.getString, Serde.get, Serde.string]

theorem fileAt_oneFile : rootProcess.fileAt
    (resolveToolPath rootProcess.currentDir none "/f".toList) = some ["f".toList] := by
  decide +kernel

theorem regularFile_oneFile (content : List Char) :
    regularFile rootProcess (oneFile content)
      (resolveToolPath rootProcess.currentDir none "/f".toList) =
      some (["f".toList], Utf8.encode content) := by
  rw [regularFile, fileAt_oneFile]
  rfl

/-- A word that stands twice is left alone. -/
theorem editsExactly_repeated : EditsExactly .calm ⟨"/f", "ab", "c"⟩ ["f".toList] "abab".toList
    (oneFile "abab".toList)
    (execute rootProcess none .calm (editCall "ab" "c") none (oneFile "abab".toList)) := by
  rw [editsExactly_iff (fromValue_editCall "ab" "c") (regularFile_oneFile _)]
  rintro - hentangled
  obtain ⟨i, -, -, hi, -, hall⟩ := hentangled
  have hfirst := hall 0 (occurs_append [] "ab".toList "ab".toList)
  have hsecond := hall 2 (occurs_append "ab".toList "ab".toList [])
  have hzero : i = 0 := Nat.le_zero.mp hfirst.1
  rw [hzero] at hsecond
  exact absurd hsecond.2 (by decide)

/-- Two positions of `aa` in `aaa`: the first is replaced without an error. -/
theorem not_editsExactly_overlap : ¬ EditsExactly .calm ⟨"/f", "aa", "b"⟩ ["f".toList] "aaa".toList
    (oneFile "aaa".toList)
    (execute rootProcess none .calm (editCall "aa" "b") none (oneFile "aaa".toList)) := by
  intro h
  have hok : (execute rootProcess none .calm (editCall "aa" "b") none
      (oneFile "aaa".toList)).1.isOk = true := by decide +kernel
  have hunique := (h.succeeds ⟨rfl, rfl, rfl, rfl, rfl, rfl⟩).mp hok
  have hsame := hunique.unique (occurs_append [] "aa".toList ['a'])
    (occurs_append ['a'] "aa".toList [])
  cases hsame

end EditTool

end Guigu.Tools

import Guigu.Library.Utf8Window
import Guigu.Tools.Edit

/-! One call of the read tool from its arguments to its result, and a file that is read page by page
with it. -/
namespace Guigu.Tools

open UnixPath FileTools EditTool

structure ReadArgs where
  path : String
  offset : Option UInt64
  limit : Option UInt64
  deriving DecidableEq, Repr

/-- The arguments as fields, or as the array of them. -/
def ReadArgs.fromValue : Json → Option ReadArgs
  | .arr [.str path, offset, limit] =>
    (Serde.option Serde.u64 offset).bind fun offset =>
      (Serde.option Serde.u64 limit).map fun limit => ⟨path, offset, limit⟩
  | args =>
    (Serde.getString "path" args).bind fun path =>
      (Serde.maybe Serde.u64 (Serde.get "offset" args)).bind fun offset =>
        (Serde.maybe Serde.u64 (Serde.get "limit" args)).map fun limit => ⟨path, offset, limit⟩

/-- What a call of the tool meets: whether it is cancelled before it looks at the file, and the
errors of the file system. -/
structure ReadEnv where
  cancelled : Bool
  argumentsError : String
  metadata : Except String Unit
  read : Except String Unit

/-- The call is not cancelled and can read its file. -/
structure ReadEnv.Undisturbed (env : ReadEnv) : Prop where
  cancelled : env.cancelled = false
  metadata : env.metadata = .ok ()
  read : env.read = .ok ()

def ReadEnv.calm : ReadEnv := ⟨false, "", .ok (), .ok ()⟩

namespace ReadTool

/-- Where the slice begins and ends, in a file of so many bytes. -/
def slice (args : ReadArgs) (length : ℕ) : ℕ × ℕ :=
  let offset := (args.offset.getD 0).toNat
  let stop :=
    match args.limit with
    | some limit => min (min (offset + limit.toNat) (UInt64.size - 1)) length
    | none => length
  (min offset length, stop)

def details (path : String) (args : ReadArgs) (bytes : ℕ) : Json :=
  .obj ([("bytes", Serde.ofNat bytes)] ++ args.limit.toList.map (("limit", Serde.ofU64 ·)) ++
    args.offset.toList.map (("offset", Serde.ofU64 ·)) ++ [("path", .str path)])

def shown (path : String) (args : ReadArgs) (bytes : List UInt8) : ToolResult :=
  let (start, stop) := slice args bytes.length
  { content := [.text (String.ofList (Utf8.decodeLossy ((bytes.take stop).drop start)))]
    isError := false
    details := some (details path args (stop - start)) }

variable (d : WorkingDirectory) (workDir : Option (List Char)) (env : ReadEnv)

def execute (json : Json) (files : Files) : Except String ToolResult := do
  if env.cancelled then .error "cancelled: read aborted before IO"
  else
    match ReadArgs.fromValue json with
    | none => .error env.argumentsError
    | some args => do
      let path := resolveToolPath d.currentDir workDir args.path.toList
      let place := "read " ++ String.ofList path ++ ": "
      env.metadata.mapError (place ++ ·)
      match regularFile d files path with
      | none => .error (place ++ "not a regular file")
      | some (_, bytes) => do
        env.read.mapError (place ++ ·)
        match Utf8.decode bytes with
        | none => .error (place ++ "invalid UTF-8")
        | some _ => .ok (shown (String.ofList path) args bytes)

/-- The text of a result. -/
def text (r : ToolResult) : List Char :=
  r.content.flatMap fun
    | .text t => t.toList
    | .image _ => []

/-- The number of bytes that the details tell. -/
def bytes (r : ToolResult) : Option ℕ := r.details.bind (Serde.getU64 "bytes")

/-- The calls of a reader that reads page by page: each begins where the one before has ended, and
the last one reads the rest. -/
def pages (path : String) : ℕ → List UInt64 → List Json
  | offset, [] => [.obj [("path", .str path), ("offset", Serde.ofNat offset)]]
  | offset, limit :: limits =>
    .obj [("path", .str path), ("offset", Serde.ofNat offset), ("limit", Serde.ofU64 limit)] ::
      pages path (offset + limit.toNat) limits

/-- Where the pages part a file of so many bytes. -/
def stops (length : ℕ) : ℕ → List UInt64 → List ℕ
  | _, [] => []
  | offset, limit :: limits =>
    min (offset + limit.toNat) length :: stops length (offset + limit.toNat) limits

variable {d workDir env} {json : Json} {files : Files} {path : String} {place : Place}
  {content : List Char}

/-- A call shows something if and only if nothing disturbs it and its file is one of text. -/
theorem execute_eq_ok {r : ToolResult} :
    execute d workDir env json files = .ok r ↔
      env.Undisturbed ∧ ∃ args place content, ReadArgs.fromValue json = some args ∧
        regularFile d files (resolveToolPath d.currentDir workDir args.path.toList) =
          some (place, Utf8.encode content) ∧
        r = shown (String.ofList (resolveToolPath d.currentDir workDir args.path.toList)) args
          (Utf8.encode content) := by
  unfold execute
  constructor
  · intro h
    split_ifs at h with hcancelled
    split at h
    · cases h
    next args hargs =>
      obtain ⟨_, hmetadata, h⟩ := Except.bind_eq_ok.mp h
      split at h
      · cases h
      next place bytes hfile =>
        obtain ⟨_, hread, h⟩ := Except.bind_eq_ok.mp h
        split at h
        · cases h
        next content hcontent =>
          have hbytes := Utf8.decode_eq_some.mp hcontent
          rw [← hbytes] at hfile h
          exact ⟨⟨eq_false_of_ne_true hcancelled, Except.mapError_eq_ok.mp hmetadata,
            Except.mapError_eq_ok.mp hread⟩, args, place, content, hargs, hfile,
            (Except.ok.inj h).symm⟩
  · rintro ⟨henv, args, place, content, hargs, hfile, rfl⟩
    rw [henv.cancelled, henv.metadata, henv.read, hargs]
    simp only [hfile, Except.mapError_ok, Except.ok_bind, Utf8.decode_encode]
    rfl

theorem text_shown (args : ReadArgs) (bs : List UInt8) :
    text (shown path args bs) =
      Utf8.decodeLossy ((bs.take (slice args bs.length).2).drop (slice args bs.length).1) := by
  simp [text, shown]

theorem bytes_shown (path : String) (args : ReadArgs) {bs : List UInt8} (h : bs.length < 2 ^ 64) :
    bytes (shown path args bs) = some ((slice args bs.length).2 - (slice args bs.length).1) := by
  have hstop : (slice args bs.length).2 ≤ bs.length := by
    rw [slice]
    cases args.limit with
    | none => exact le_rfl
    | some limit => exact min_le_right _ _
  have hbytes : Serde.get "bytes" (details path args
      ((slice args bs.length).2 - (slice args bs.length).1)) =
      some (Serde.ofNat ((slice args bs.length).2 - (slice args bs.length).1)) := by
    cases hlimit : args.limit <;> cases hoffset : args.offset <;>
      simp [details, Serde.get, hlimit, hoffset]
  rw [bytes, shown, Option.bind_some, Serde.getU64, hbytes, Option.bind_some,
    Serde.nat64_ofNat (by omega)]

theorem option_u64 {n : ℕ} (h : n < 2 ^ 64) :
    Serde.option Serde.u64 (Serde.ofNat n) = some (some (UInt64.ofNat n)) := by
  have hread : Serde.u64 (Serde.ofNat n) = some (UInt64.ofNat n) := by
    rw [Serde.u64, Serde.nat64_ofNat h, Option.map_some]
  rw [Serde.option, hread, Option.map_some]
  exact Json.noConfusion

theorem fromValue_rest (path : String) {offset : ℕ} (h : offset < 2 ^ 64) :
    ReadArgs.fromValue (.obj [("path", .str path), ("offset", Serde.ofNat offset)]) =
      some ⟨path, some (UInt64.ofNat offset), none⟩ := by
  simp [ReadArgs.fromValue, Serde.getString, Serde.get, Serde.string, Serde.maybe, option_u64 h]

theorem fromValue_page (path : String) {offset : ℕ} (limit : UInt64) (h : offset < 2 ^ 64) :
    ReadArgs.fromValue (.obj [("path", .str path), ("offset", Serde.ofNat offset),
      ("limit", Serde.ofU64 limit)]) =
      some ⟨path, some (UInt64.ofNat offset), some limit⟩ := by
  have hlimit := option_u64 limit.toNat_lt
  rw [UInt64.ofNat_toNat] at hlimit
  simp [ReadArgs.fromValue, Serde.getString, Serde.get, Serde.string, Serde.maybe, option_u64 h,
    Serde.ofU64, hlimit]

theorem slice_rest {offset : ℕ} (length : ℕ) (h : offset < 2 ^ 64) :
    slice ⟨path, some (UInt64.ofNat offset), none⟩ length = (min offset length, length) := by
  simp [slice, UInt64.toNat_ofNat_of_lt' h]

/-- The end of a page does not saturate. -/
theorem slice_page {offset : ℕ} {limit : UInt64} (length : ℕ)
    (h : offset + limit.toNat < 2 ^ 64) :
    slice ⟨path, some (UInt64.ofNat offset), some limit⟩ length =
      (min offset length, min (offset + limit.toNat) length) := by
  have hoffset : (UInt64.ofNat offset).toNat = offset :=
    UInt64.toNat_ofNat_of_lt' (Nat.lt_of_le_of_lt (Nat.le_add_right _ _) h)
  have hfits : min (offset + limit.toNat) (UInt64.size - 1) = offset + limit.toNat := by
    have hsize : UInt64.size = 2 ^ 64 := rfl
    omega
  simp only [slice, Option.getD_some, hoffset, hfits]

theorem ascending_stops (content : List Char) (offset : ℕ) (limits : List UInt64) :
    Utf8.Ascending content (min offset (Utf8.encode content).length)
      (stops (Utf8.encode content).length offset limits) := by
  induction limits generalizing offset with
  | nil => exact min_le_right _ _
  | cons limit limits ih =>
    refine ⟨?_, ih (offset + limit.toNat)⟩
    omega

/-- A page and what is behind it. -/
theorem page_append_rest (bs : List UInt8) {start stop : ℕ} (h : start ≤ stop) :
    (bs.take stop).drop start ++ bs.drop stop = bs.drop start := by
  obtain ⟨n, rfl⟩ := Nat.exists_eq_add_of_le h
  rw [List.drop_take, Nat.add_sub_cancel_left]
  exact List.drop_take_append_drop bs start n

/-- What a page shows: so many bytes, read with replacement characters. -/
structure Shows (r : ToolResult) (piece : List UInt8) : Prop where
  bytes : bytes r = some piece.length
  text : text r = Utf8.decodeLossy piece

theorem shows_shown (path : String) (args : ReadArgs) {bs : List UInt8} {start stop : ℕ}
    (h : bs.length < 2 ^ 64) (hslice : slice args bs.length = (start, stop))
    (hstop : stop ≤ bs.length) : Shows (shown path args bs) ((bs.take stop).drop start) where
  bytes := by
    rw [bytes_shown path args h, hslice, List.length_drop, List.length_take, min_eq_left hstop]
  text := by rw [text_shown, hslice]

/-- The pages of a file, each of them shown. -/
theorem execute_pages (henv : env.Undisturbed)
    (hfile : regularFile d files (resolveToolPath d.currentDir workDir path.toList) =
      some (place, Utf8.encode content))
    (hlength : (Utf8.encode content).length < 2 ^ 64) {offset : ℕ} {limits : List UInt64}
    (hlimits : offset + (limits.map UInt64.toNat).sum < 2 ^ 64) :
    ∃ (results : List ToolResult) (pieces : List (List UInt8)),
      (pages path offset limits).map (fun json => execute d workDir env json files) =
        results.map Except.ok ∧
      List.Forall₂ Shows results pieces ∧
      pieces.flatten = (Utf8.encode content).drop (min offset (Utf8.encode content).length) ∧
      results.flatMap text = Utf8.windows content (min offset (Utf8.encode content).length)
        (stops (Utf8.encode content).length offset limits) := by
  induction limits generalizing offset with
  | nil =>
    simp only [List.map_nil, List.sum_nil, Nat.add_zero] at hlimits
    have hshown := execute_eq_ok.mpr
      ⟨henv, _, place, content, fromValue_rest path hlimits, hfile, rfl⟩
    have hshows := shows_shown
      (String.ofList (resolveToolPath d.currentDir workDir path.toList))
      ⟨path, some (UInt64.ofNat offset), none⟩ hlength (slice_rest _ hlimits) le_rfl
    refine ⟨[_], [_], congrArg (· :: []) hshown, .cons hshows .nil, ?_, ?_⟩
    · rw [List.flatten_singleton, List.take_length]
    · rw [List.flatMap_singleton, hshows.text, Utf8.decodeLossy_window _ (min_le_right _ _)]
      rfl
  | cons limit limits ih =>
    rw [List.map_cons, List.sum_cons] at hlimits
    have hoffset : offset < 2 ^ 64 := by omega
    obtain ⟨results, pieces, hresults, hpieces, hall, htext⟩ :=
      ih (show offset + limit.toNat + (limits.map UInt64.toNat).sum < 2 ^ 64 by omega)
    have hshown := execute_eq_ok.mpr
      ⟨henv, _, place, content, fromValue_page path limit hoffset, hfile, rfl⟩
    have hshows := shows_shown
      (String.ofList (resolveToolPath d.currentDir workDir path.toList))
      ⟨path, some (UInt64.ofNat offset), some limit⟩ hlength (slice_page _ (by omega))
      (min_le_right _ _)
    refine ⟨_ :: results, _ :: pieces, congrArg₂ (· :: ·) hshown hresults, .cons hshows hpieces,
      ?_, ?_⟩
    · rw [List.flatten_cons, hall]
      exact page_append_rest _ (by omega)
    · rw [List.flatMap_cons, htext, hshows.text, Utf8.decodeLossy_window _ (by omega)]
      rfl

/-- A file of text that is read page by page: the pages are its bytes, each read with replacement
characters and no two of them with a byte between them; together they have as many characters at
least as the file, and its very text if and only if no page ends inside a character. -/
theorem pages_of_text (henv : env.Undisturbed)
    (hfile : regularFile d files (resolveToolPath d.currentDir workDir path.toList) =
      some (place, Utf8.encode content))
    (hlength : (Utf8.encode content).length < 2 ^ 64) {limits : List UInt64}
    (hlimits : (limits.map UInt64.toNat).sum < 2 ^ 64) :
    ∃ (results : List ToolResult) (pieces : List (List UInt8)),
      (pages path 0 limits).map (fun json => execute d workDir env json files) =
        results.map Except.ok ∧
      List.Forall₂ Shows results pieces ∧ pieces.flatten = Utf8.encode content ∧
      content.length ≤ (results.flatMap text).length ∧
      (results.flatMap text = content ↔
        ∀ p ∈ stops (Utf8.encode content).length 0 limits, Utf8.IsBoundary content p) := by
  obtain ⟨results, pieces, hresults, hpieces, hall, htext⟩ :=
    execute_pages henv hfile hlength (show 0 + (limits.map UInt64.toNat).sum < 2 ^ 64 by omega)
  rw [Nat.zero_min] at hall htext
  have hascending := ascending_stops content 0 limits
  rw [Nat.zero_min] at hascending
  refine ⟨results, pieces, hresults, hpieces, hall, ?_, ?_⟩
  · have hcount := Utf8.length_le_windows hascending
    rwa [Utf8.begun_zero, Nat.add_zero, ← htext] at hcount
  · rw [htext]
    exact Utf8.windows_eq_iff hascending

/-- The first of two pages ends inside the second character. -/
theorem pages_of_text_inside :
    ∃ (results : List ToolResult) (pieces : List (List UInt8)),
      (pages "/f" 0 [4]).map (fun json => execute rootProcess none .calm json
        (oneFile "你好".toList)) = results.map Except.ok ∧
      List.Forall₂ Shows results pieces ∧ pieces.flatten = Utf8.encode "你好".toList ∧
      2 ≤ (results.flatMap text).length ∧
      (results.flatMap text = "你好".toList ↔ ∀ p ∈ [4], Utf8.IsBoundary "你好".toList p) := by
  have hlength : (Utf8.encode "你好".toList).length = 6 := by decide
  have hlimits : (([4] : List UInt64).map UInt64.toNat).sum < 2 ^ 64 := by decide
  have hcalm : ReadEnv.calm.Undisturbed := ⟨rfl, rfl, rfl⟩
  have hpages := pages_of_text hcalm (regularFile_oneFile "你好".toList) (by decide) hlimits
  rw [hlength] at hpages
  exact hpages

end ReadTool

end Guigu.Tools

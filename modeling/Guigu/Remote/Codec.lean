import Guigu.Library.BufReader
import Guigu.Library.Utf8
import Guigu.Remote.Protocol

/-! Frames of the remote protocol: one line of JSON for a message, read back line by line. -/
namespace Guigu.Remote

/-- How messages of a type are written and read: a tagged enumeration is an object. -/
structure MessageCodec (μ : Type*) where
  members : μ → List (String × Json)
  ofJson : Json → Option μ

namespace MessageCodec

variable {μ : Type*} (codec : MessageCodec μ)

/-- The line of a message without its line feed. -/
def text (m : μ) : List Char := Json.render (.obj (codec.members m))

def encodeLine (m : μ) : List UInt8 := Utf8.encode (codec.text m) ++ [10]

/-- A blank line is no message. -/
def decodeLine (line : List Char) : Except RemoteError (Option μ) :=
  let trimmed := trimWhiteSpace line
  if trimmed = [] then .ok none
  else
    match (Serde.fromStr trimmed).bind codec.ofJson with
    | some m => .ok (some m)
    | none => .error (.protocol "invalid frame")

/-- The message is read as it was written. -/
def Decodes (m : μ) : Prop := (Serde.fromStr (codec.text m)).bind codec.ofJson = some m

end MessageCodec

/-- `LineReader`. -/
structure LineReader where
  inner : BufReader

namespace LineReader

/-- A reader of a stream that comes in these pieces. -/
def new (chunks : List { c : List UInt8 // c ≠ [] }) : LineReader := ⟨⟨[], chunks⟩⟩

variable {μ : Type*} (codec : MessageCodec μ)

/-- The next message, or `none` at the end of the stream; blank lines are passed over. -/
def next (r : LineReader) : Except RemoteError (Option μ) × LineReader :=
  let line := (r.inner.readUntil 10).1
  let r' : LineReader := ⟨(r.inner.readUntil 10).2⟩
  match Utf8.decode line with
  | none => (.error .io, r')
  | some text =>
    if line = [] then (.ok none, r')
    else
      match codec.decodeLine text with
      | .error e => (.error e, r')
      | .ok (some m) => (.ok (some m), r')
      | .ok none => next r'
termination_by r.inner.remaining.length
decreasing_by
  rename_i hline
  have hbytes := congrArg List.length (r.inner.readUntil_append 10)
  rw [List.length_append] at hbytes
  have hpos : 0 < (r.inner.readUntil 10).1.length := List.length_pos_iff.mpr hline
  omega

/-- The messages that call after call of `next` brings, and the error at the end, if any. -/
inductive Yields : LineReader → List μ → Option RemoteError → Prop
  | ended {r r' : LineReader} (h : r.next codec = (.ok none, r')) : Yields r [] none
  | failed {r r' : LineReader} {e : RemoteError} (h : r.next codec = (.error e, r')) :
    Yields r [] (some e)
  | message {r r' : LineReader} {m : μ} {ms : List μ} {e : Option RemoteError}
    (h : r.next codec = (.ok (some m), r')) (hrest : Yields r' ms e) : Yields r (m :: ms) e

end LineReader

/-- The messages whose text lies within the first `n` bytes. -/
def received {μ : Type*} (codec : MessageCodec μ) : List μ → ℕ → List μ
  | [], _ => []
  | m :: ms, n =>
    if (Utf8.encode (codec.text m)).length ≤ n then
      m :: received codec ms (n - (codec.encodeLine m).length)
    else []

variable {μ : Type*} {codec : MessageCodec μ}

variable (codec) in
theorem text_ends (m : μ) :
    (∃ cs, codec.text m = '{' :: cs) ∧ ∃ front, codec.text m = front ++ ['}'] := by
  refine ⟨?_, Json.render_obj_ends (codec.members m)⟩
  unfold MessageCodec.text
  cases codec.members m with
  | nil => exact ⟨['}'], rfl⟩
  | cons f fs => exact ⟨_, by rw [Json.render]⟩

theorem lineFeed_not_mem_text (m : μ) : 10 ∉ Utf8.encode (codec.text m) := by
  rw [Utf8.lineFeed_mem_encode]
  exact (Json.printable_render _).not_mem (by decide)

/-- Trimming takes nothing from the text of a message but what is behind it. -/
theorem trim_text (m : μ) {blank : List Char} (hblank : ∀ c ∈ blank, c.isWhiteSpace = true) :
    trimWhiteSpace (codec.text m ++ blank) = codec.text m := by
  obtain ⟨⟨cs, hcs⟩, front, hfront⟩ := text_ends codec m
  rw [hcs]
  exact trimWhiteSpace_append_blank (by decide) (by decide) (hcs.symm.trans hfront) hblank

/-- What trimming leaves of a text that is cut off is cut off too. -/
theorem trim_prefix {m : μ} {cs : List Char} (hne : cs ≠ []) (hcs : cs <+: codec.text m)
    (hcut : cs ≠ codec.text m) :
    trimWhiteSpace cs ≠ [] ∧ trimWhiteSpace cs <+: codec.text m ∧
      trimWhiteSpace cs ≠ codec.text m := by
  obtain ⟨⟨rest, hrest⟩, -⟩ := text_ends codec m
  have hhead : ∃ tail, cs = '{' :: tail := by
    cases cs with
    | nil => exact absurd rfl hne
    | cons c tail =>
      rw [hrest, List.cons_prefix_cons] at hcs
      exact ⟨tail, by rw [hcs.1]⟩
  obtain ⟨tail, rfl⟩ := hhead
  have hbrace : '{'.isWhiteSpace = false := by decide
  obtain ⟨hnonempty, hprefix⟩ := trimWhiteSpace_prefix hbrace tail
  refine ⟨hnonempty, hprefix.trans hcs, ?_⟩
  intro hwhole
  rw [hwhole] at hprefix
  exact hcut (hcs.eq_of_length_le hprefix.length_le)

/-- The text of a message, with blanks behind it or none, is the message. -/
theorem decodeLine_text {m : μ} (hm : codec.Decodes m) {blank : List Char}
    (hblank : ∀ c ∈ blank, c.isWhiteSpace = true) :
    codec.decodeLine (codec.text m ++ blank) = .ok (some m) := by
  obtain ⟨⟨cs, hcs⟩, -⟩ := text_ends codec m
  have hne : codec.text m ≠ [] := by
    rw [hcs]
    exact List.cons_ne_nil _ _
  simp only [MessageCodec.decodeLine, trim_text m hblank]
  rw [if_neg hne, hm]

/-- A text that is cut off is no message and no blank line. -/
theorem decodeLine_cut {m : μ} {cs : List Char} (hne : cs ≠ []) (hcs : cs <+: codec.text m)
    (hcut : cs ≠ codec.text m) :
    codec.decodeLine cs = .error (.protocol "invalid frame") := by
  obtain ⟨hnonempty, hprefix, hshort⟩ := trim_prefix hne hcs hcut
  have hparse : Serde.fromStr (trimWhiteSpace cs) = none :=
    Serde.fromStr_eq_none (Json.parse_prefix_obj hprefix hshort)
  simp only [MessageCodec.decodeLine, hparse, Option.bind_none]
  rw [if_neg hnonempty]

namespace LineReader

variable {r : LineReader}

variable (codec) in
theorem next_of_empty (hr : r.inner.remaining = []) :
    ∃ r', r.next codec = (.ok none, r') := by
  have hline : (r.inner.readUntil 10).1 = [] := by
    rw [(BufReader.readUntil_unended (by rw [hr]; exact List.not_mem_nil)).1, hr]
  have hdecode : Utf8.decode [] = some [] := rfl
  rw [next]
  simp only [hline, hdecode, if_true]
  exact ⟨_, rfl⟩

/-- A line that is read as a message. -/
theorem next_of_decodeLine {line : List UInt8} {text : List Char} {m : μ}
    (hline : (r.inner.readUntil 10).1 = line) (hne : line ≠ [])
    (htext : Utf8.decode line = some text) (hdecode : codec.decodeLine text = .ok (some m)) :
    r.next codec = (.ok (some m), ⟨(r.inner.readUntil 10).2⟩) := by
  rw [next]
  simp only [hline, htext, hne, if_false, hdecode]

/-- A line that is a message brings it, and leaves what is behind the line. -/
theorem next_of_message {m : μ} (hm : codec.Decodes m) {rest : List UInt8}
    (hr : r.inner.remaining = Utf8.encode (codec.text m) ++ 10 :: rest) :
    ∃ r', r.next codec = (.ok (some m), r') ∧ r'.inner.remaining = rest := by
  obtain ⟨hline, hrest⟩ := BufReader.readUntil_ended (lineFeed_not_mem_text m) hr
  have hencode : Utf8.encode (codec.text m ++ ['\n']) = Utf8.encode (codec.text m) ++ [10] := by
    rw [Utf8.encode, List.flatMap_append]
    rfl
  have htext : Utf8.decode (Utf8.encode (codec.text m) ++ [10]) =
      some (codec.text m ++ ['\n']) := by
    rw [← hencode]
    exact Utf8.decode_eq_some.mpr rfl
  exact ⟨_, next_of_decodeLine hline (by simp) htext
    (decodeLine_text hm (List.forall_mem_singleton.mpr rfl)), hrest⟩

theorem encode_text_ne_nil (m : μ) : Utf8.encode (codec.text m) ≠ [] := by
  obtain ⟨⟨cs, hcs⟩, -⟩ := text_ends codec m
  rw [hcs, Utf8.encode, List.flatMap_cons]
  exact List.append_ne_nil_of_left_ne_nil (by decide) _

/-- So does a text that the stream ends behind. -/
theorem next_of_text {m : μ} (hm : codec.Decodes m)
    (hr : r.inner.remaining = Utf8.encode (codec.text m)) :
    ∃ r', r.next codec = (.ok (some m), r') ∧ r'.inner.remaining = [] := by
  have hunended : 10 ∉ r.inner.remaining := by
    rw [hr]
    exact lineFeed_not_mem_text m
  obtain ⟨hline, hrest⟩ := BufReader.readUntil_unended hunended
  have htext : Utf8.decode r.inner.remaining = some (codec.text m) := by
    rw [hr]
    exact Utf8.decode_eq_some.mpr rfl
  have hne : r.inner.remaining ≠ [] := by
    rw [hr]
    exact encode_text_ne_nil m
  have hblank : codec.decodeLine (codec.text m ++ []) = .ok (some m) :=
    decodeLine_text hm (List.forall_mem_nil _)
  rw [List.append_nil] at hblank
  exact ⟨_, next_of_decodeLine hline hne htext hblank, hrest⟩

/-- A text that the stream ends in is an error. -/
theorem next_of_cut {m : μ} {n : ℕ} (hn : n < (Utf8.encode (codec.text m)).length) (hpos : 0 < n)
    (hr : r.inner.remaining = (Utf8.encode (codec.text m)).take n) :
    ∃ e r', r.next codec = (.error e, r') := by
  have hunended : 10 ∉ r.inner.remaining := by
    rw [hr]
    exact fun h10 => lineFeed_not_mem_text m (List.mem_of_mem_take h10)
  obtain ⟨hline, -⟩ := BufReader.readUntil_unended hunended
  have hlength : r.inner.remaining.length = n := by
    rw [hr, List.length_take]
    omega
  have hne : r.inner.remaining ≠ [] := List.ne_nil_of_length_pos (by omega)
  cases hdecode : Utf8.decode r.inner.remaining with
  | none =>
    refine ⟨.io, ⟨(r.inner.readUntil 10).2⟩, ?_⟩
    rw [next]
    simp only [hline, hdecode]
  | some cs =>
    have hencode : Utf8.encode cs = r.inner.remaining := (Utf8.decode_eq_some.mp hdecode)
    have hprefix : cs <+: codec.text m := by
      apply Utf8.prefix_of_encode_prefix
      rw [hencode, hr]
      exact List.take_prefix _ _
    have hcut : cs ≠ codec.text m := by
      rintro rfl
      rw [← hencode] at hlength
      omega
    have hcs : cs ≠ [] := by
      rintro rfl
      exact hne hencode.symm
    refine ⟨.protocol "invalid frame", ⟨(r.inner.readUntil 10).2⟩, ?_⟩
    rw [next]
    simp only [hline, hdecode, hne, if_false, decodeLine_cut hcs hprefix hcut]

/-- Calls of `next` bring one list of messages, and one end. -/
theorem Yields.unique {ms ns : List μ} {e f : Option RemoteError} (h : Yields codec r ms e)
    (h' : Yields codec r ns f) : ms = ns ∧ e = f := by
  induction h generalizing ns f with
  | ended h =>
    cases h' with
    | ended => exact ⟨rfl, rfl⟩
    | failed h' => rw [h] at h'; cases h'
    | message h' => rw [h] at h'; cases h'
  | failed h =>
    cases h' with
    | ended h' => rw [h] at h'; cases h'
    | failed h' =>
      rw [h] at h'
      obtain ⟨he, -⟩ := Prod.mk.inj h'
      exact ⟨rfl, congrArg some (Except.error.inj he)⟩
    | message h' => rw [h] at h'; cases h'
  | message h _ ih =>
    cases h' with
    | ended h' => rw [h] at h'; cases h'
    | failed h' => rw [h] at h'; cases h'
    | message h' hrest =>
      rw [h] at h'
      obtain ⟨hm, hr⟩ := Prod.mk.inj h'
      rw [← hr] at hrest
      obtain ⟨hms, he⟩ := ih hrest
      exact ⟨by rw [hms, Option.some.inj (Except.ok.inj hm)], he⟩

theorem prefix_received (ms : List μ) (n : ℕ) : received codec ms n <+: ms := by
  induction ms generalizing n with
  | nil => exact List.prefix_refl _
  | cons m ms ih =>
    rw [received]
    split_ifs
    · exact (List.prefix_cons_inj m).mpr (ih _)
    · exact List.nil_prefix

/-- The messages whose texts have come in are read, in order, whatever the pieces are. -/
theorem yields_received {ms : List μ} (hms : ∀ m ∈ ms, codec.Decodes m) {n : ℕ}
    (hr : r.inner.remaining = (ms.flatMap codec.encodeLine).take n) :
    ∃ ending, Yields codec r (received codec ms n) ending := by
  induction ms generalizing n r with
  | nil =>
    obtain ⟨r', hnext⟩ := next_of_empty codec (by rw [hr]; exact List.take_nil)
    exact ⟨none, .ended hnext⟩
  | cons m ms ih =>
    obtain ⟨hm, hms⟩ := List.forall_mem_cons.mp hms
    have hlength : (codec.encodeLine m).length = (Utf8.encode (codec.text m)).length + 1 :=
      List.length_append
    rw [List.flatMap_cons] at hr
    rw [received]
    split_ifs with hn
    · by_cases hwhole : n = (Utf8.encode (codec.text m)).length
      · -- the stream ends right behind the text
        have hbytes : r.inner.remaining = Utf8.encode (codec.text m) := by
          rw [hr, MessageCodec.encodeLine, List.append_assoc, hwhole, List.take_left']
          rfl
        obtain ⟨r', hnext, hrest⟩ := next_of_text hm hbytes
        have hnone : n - (codec.encodeLine m).length = 0 := by omega
        obtain ⟨ending, hyields⟩ := ih hms (n := n - (codec.encodeLine m).length) (r := r')
          (by rw [hrest, hnone, List.take_zero])
        exact ⟨ending, .message hnext hyields⟩
      · have hbytes : r.inner.remaining = Utf8.encode (codec.text m) ++
            10 :: (ms.flatMap codec.encodeLine).take (n - (codec.encodeLine m).length) := by
          rw [hr, List.take_append, List.take_of_length_le (by omega), MessageCodec.encodeLine,
            List.append_assoc]
          rfl
        obtain ⟨r', hnext, hrest⟩ := next_of_message hm hbytes
        obtain ⟨ending, hyields⟩ := ih hms hrest
        exact ⟨ending, .message hnext hyields⟩
    · have hbytes : r.inner.remaining = (Utf8.encode (codec.text m)).take n := by
        rw [hr, MessageCodec.encodeLine, List.append_assoc,
          List.take_append_of_le_length (by omega)]
      by_cases hpos : n = 0
      · obtain ⟨r', hnext⟩ := next_of_empty codec (r := r)
          (by rw [hbytes, hpos, List.take_zero])
        exact ⟨none, .ended hnext⟩
      · obtain ⟨e, r', hnext⟩ := next_of_cut (not_le.mp hn) (Nat.pos_of_ne_zero hpos) hbytes
        exact ⟨some e, .failed hnext⟩

/-- Cut into any pieces and cut off anywhere, the encoded messages are read back as far as their
texts have come in, in order, and then the stream ends or the reader reports an error. -/
theorem lineReader_received {ms : List μ} (hms : ∀ m ∈ ms, codec.Decodes m) {n : ℕ}
    {chunks : List { c : List UInt8 // c ≠ [] }}
    (hchunks : chunks.flatMap (·.1) = (ms.flatMap codec.encodeLine).take n) :
    received codec ms n <+: ms ∧ ∃ ending, ∀ ns e,
      Yields codec (new chunks) ns e ↔ ns = received codec ms n ∧ e = ending := by
  refine ⟨prefix_received ms n, ?_⟩
  obtain ⟨ending, hyields⟩ := yields_received (r := new chunks) hms hchunks
  refine ⟨ending, fun ns e => ⟨fun h => h.unique hyields, ?_⟩⟩
  rintro ⟨rfl, rfl⟩
  exact hyields

end LineReader

/-- The codec of the requests. -/
def requestCodec : MessageCodec RemoteRequest := ⟨RemoteRequest.members, RemoteRequest.ofJson⟩

theorem decodes_request {r : RemoteRequest} (h : ∀ m ∈ r.messages, m.Storable)
    (hdepth : ∀ m ∈ r.messages, m.toJson.depth + 2 ≤ Serde.maxDepth) : requestCodec.Decodes r :=
  RemoteRequest.fromStr_members h hdepth

/-- The last request comes in without its line feed, in two pieces. -/
theorem lineReader_requests :
    ∃ ending, ∀ ns e, LineReader.Yields requestCodec
        (LineReader.new [⟨(requestCodec.encodeLine (.continue 1)).take 9, by decide +kernel⟩,
          ⟨(requestCodec.encodeLine (.continue 1)).drop 9 ++
            Utf8.encode (requestCodec.text (.abort 2)), by decide +kernel⟩]) ns e ↔
      ns = [.continue 1, .abort 2] ∧ e = ending := by
  have hms : ∀ m ∈ [RemoteRequest.continue 1, .abort 2], requestCodec.Decodes m := by
    refine List.forall_mem_cons.mpr ⟨?_, List.forall_mem_singleton.mpr ?_⟩
    · exact decodes_request (by simp [RemoteRequest.messages]) (by simp [RemoteRequest.messages])
    · exact decodes_request (by simp [RemoteRequest.messages]) (by simp [RemoteRequest.messages])
  have hreceived : received requestCodec [.continue 1, .abort 2] 50 =
      [.continue 1, .abort 2] := by
    rw [received, if_pos (by decide +kernel), received, if_pos (by decide +kernel), received]
  rw [← hreceived]
  exact (LineReader.lineReader_received hms (by decide +kernel)).2

end Guigu.Remote

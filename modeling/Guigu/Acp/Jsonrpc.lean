import Guigu.Library.Serde
import Mathlib.Data.List.AList

/-! JSON-RPC messages from the client, and the requests that wait for their replies. -/
namespace Guigu.Acp

open Serde

inductive AcpError where
  | jsonRpc (message : String)
  deriving DecidableEq, Repr

structure JsonRpcErrorObj where
  code : Int64
  message : String
  data : Option Json
  deriving Repr

def JsonRpcErrorObj.ofJson (j : Json) : Option JsonRpcErrorObj :=
  (fields ["code", "message", "data"] j).bind fun
    | [code, message, data] => do
      return ⟨← required i64 code, ← required string message, ← maybe some data⟩
    | _ => none

inductive RequestId where
  | number (n : Int64)
  | string (s : String)
  deriving DecidableEq, Repr

def RequestId.fromValue : Json → Option RequestId
  | .str s => some (.string s)
  | j => (i64 j).map .number

def RequestId.toValue : RequestId → Json
  | .number n => ofI64 n
  | .string s => .str s

structure InboundMessage where
  jsonrpc : Option String
  id : Option Json
  method : Option String
  params : Option Json
  result : Option Json
  error : Option JsonRpcErrorObj
  deriving Repr

def InboundMessage.ofJson (j : Json) : Option InboundMessage :=
  (fields ["jsonrpc", "id", "method", "params", "result", "error"] j).bind fun
    | [jsonrpc, id, method, params, result, error] => do
      return ⟨← maybe Serde.string jsonrpc, ← maybe some id, ← maybe Serde.string method,
        ← maybe some params, ← maybe some result, ← maybe JsonRpcErrorObj.ofJson error⟩
    | _ => none

inductive InboundKind where
  | request (id : Json) (method : String) (params : Json)
  | notification (method : String) (params : Json)
  | response (id : RequestId) (result : Except AcpError Json)
  deriving Repr

/-- A refusal: the identifier it goes to, its code and its text. -/
abbrev Refusal := Json × Int64 × String

def invalidRequest : Int64 := -32600

/-- A reply with its outcome, under an identifier that the client may have been given. -/
def classifyReply (id : Option Json) (result : Except AcpError Json) : Except Refusal InboundKind :=
  match id.bind RequestId.fromValue with
  | some id => .ok (.response id result)
  | none => .error (.null, invalidRequest, "invalid response: missing or invalid id")

def classifyInbound (msg : InboundMessage) : Except Refusal InboundKind :=
  match msg.jsonrpc with
  | none => .error (.null, invalidRequest, "missing jsonrpc version (expected \"2.0\")")
  | some v =>
    if v ≠ "2.0" then
      .error (.null, invalidRequest,
        "invalid jsonrpc version: " ++ v ++ " (expected \"2.0\")")
    else
      match msg.method with
      | some method =>
        if msg.result.isSome || msg.error.isSome then
          .error (msg.id.getD .null, invalidRequest,
            "invalid request: both method and result/error present")
        else
          match msg.id with
          | some id => .ok (.request id method (msg.params.getD .null))
          | none => .ok (.notification method (msg.params.getD .null))
      | none =>
        match msg.result, msg.error with
        | some _, some _ => .error (msg.id.getD .null, invalidRequest,
            "invalid response: both result and error present")
        | none, none => .error (msg.id.getD .null, invalidRequest,
            "invalid response: missing result and error")
        | some result, none => classifyReply msg.id (.ok result)
        | none, some error => classifyReply msg.id (.error (.jsonRpc error.message))

/-- The requests that wait, each under its identifier, and the replies that were handed out. -/
structure PendingRequests (ρ : Type*) where
  pending : AList fun _ : RequestId => ρ
  answers : List (ρ × Except AcpError Json)

namespace PendingRequests

variable {ρ : Type*}

def resolvePending (c : PendingRequests ρ) (id : RequestId) (result : Except AcpError Json) :
    PendingRequests ρ :=
  match c.pending.lookup id with
  | some tx => ⟨c.pending.erase id, c.answers ++ [(tx, result)]⟩
  | none => c

/-- The read loop looks for the request of a reply; other messages concern no request. -/
def receive (c : PendingRequests ρ) (msg : InboundMessage) : PendingRequests ρ :=
  match classifyInbound msg with
  | .ok (.response id result) => c.resolvePending id result
  | .ok _ | .error _ => c

/-- The request with that identifier is answered, and no other. -/
theorem resolvePending_spec (c : PendingRequests ρ) (id : RequestId)
    (result : Except AcpError Json) :
    (c.resolvePending id result).answers =
      c.answers ++ ((c.pending.lookup id).toList.map fun tx => (tx, result)) ∧
    (c.resolvePending id result).pending.lookup id = none ∧
    ∀ k ≠ id, (c.resolvePending id result).pending.lookup k = c.pending.lookup k := by
  unfold resolvePending
  cases hlookup : c.pending.lookup id with
  | none =>
    refine ⟨?_, hlookup, fun k _ => rfl⟩
    simp
  | some tx =>
    refine ⟨rfl, AList.lookup_erase id c.pending, fun k hk => ?_⟩
    exact AList.lookup_erase_ne hk

end PendingRequests

/-- An error that is read, and its text: the code is an integer of 64 bits, the members stand under
their names, none of them twice, or by position. -/
def IsError (j : Json) (message : String) : Prop :=
  (∃ es code, j = .obj es ∧ field es "code" = some (some code) ∧ (i64 code).isSome ∧
      field es "message" = some (some (.str message)) ∧ (field es "data").isSome) ∨
    ∃ code data, j = .arr [code, .str message, data] ∧ (i64 code).isSome

/-- A message of the protocol, its members in any order, none of them twice. -/
structure IsMessage (members : List (String × Json)) (id : RequestId) : Prop where
  distinct : (members.map Prod.fst).Nodup
  version : ("jsonrpc", .str "2.0") ∈ members
  id : ("id", id.toValue) ∈ members

def Present (name : String) (members : List (String × Json)) : Prop := ∃ j, (name, j) ∈ members

/-- The member is there and not `null`. -/
def HasValue (name : String) (members : List (String × Json)) : Prop :=
  ∃ j, j ≠ .null ∧ (name, j) ∈ members

/-- A reply has no method, and either a result or an error. -/
def IsReply (members : List (String × Json)) : Prop :=
  ¬ Present "method" members ∧ Xor (Present "result" members) (Present "error" members)

/-- What a reply says: its result, or the text of its error. -/
def Says (members : List (String × Json)) : Except AcpError Json → Prop
  | .ok result => ("result", result) ∈ members
  | .error (.jsonRpc message) => ∃ j, ("error", j) ∈ members ∧ IsError j message

/-- The message has an error that can be read. -/
def HasError (members : List (String × Json)) : Prop :=
  ∃ j message, ("error", j) ∈ members ∧ IsError j message

/-- The message is taken for a reply. -/
def TakenAsReply (members : List (String × Json)) : Prop :=
  ∃ msg id result, InboundMessage.ofJson (.obj members) = some msg ∧
    classifyInbound msg = .ok (.response id result)

@[simp] theorem RequestId.fromValue_toValue (id : RequestId) :
    RequestId.fromValue id.toValue = some id := by
  cases id with
  | string s => rfl
  | number n =>
    show (i64 (ofI64 n)).map RequestId.number = _
    rw [i64_ofI64, Option.map_some]

theorem JsonRpcErrorObj.read_iff {code text : Option Json} {data : Option Json} {message : String} :
    (∃ e : JsonRpcErrorObj, ((required i64 code).bind fun c => (required string text).bind fun m =>
        some ⟨c, m, data⟩) = some e ∧ e.message = message) ↔
      (∃ c, code = some c ∧ (i64 c).isSome) ∧ text = some (.str message) := by
  constructor
  · rintro ⟨e, he, rfl⟩
    obtain ⟨c, hc, he⟩ := Option.bind_eq_some_iff.mp he
    obtain ⟨m, hm, he⟩ := Option.bind_eq_some_iff.mp he
    obtain rfl := Option.some.inj he
    obtain ⟨code, rfl, hc⟩ := Option.bind_eq_some_iff.mp hc
    obtain ⟨text, rfl, hm⟩ := Option.bind_eq_some_iff.mp hm
    refine ⟨⟨code, rfl, Option.isSome_of_eq_some hc⟩, ?_⟩
    cases text <;> cases hm
    rfl
  · rintro ⟨⟨c, rfl, hc⟩, rfl⟩
    obtain ⟨n, hn⟩ := Option.isSome_iff_exists.mp hc
    exact ⟨⟨n, message, data⟩, by simp [required, hn], rfl⟩

theorem JsonRpcErrorObj.ofJson_iff {j : Json} {message : String} :
    (∃ e, ofJson j = some e ∧ e.message = message) ↔ IsError j message := by
  unfold IsError
  cases j with
  | obj es =>
    simp only [ofJson, fields, List.mapM_cons, List.mapM_nil, Option.bind_eq_bind,
      Option.pure_def, reduceCtorEq, false_and, exists_false, or_false, Json.obj.injEq]
    cases hcode : field es "code" with
    | none => simp +contextual [hcode]
    | some code =>
      cases htext : field es "message" with
      | none => simp +contextual [htext]
      | some text =>
        cases hdata : field es "data" with
        | none => simp +contextual [hdata]
        | some data =>
          simp only [Option.bind_some, maybe_some, read_iff]
          constructor
          · rintro ⟨⟨c, rfl, hc⟩, rfl⟩
            exact ⟨es, c, rfl, hcode, hc, htext, Option.isSome_of_eq_some hdata⟩
          · rintro ⟨es, c, rfl, hcode', hc, htext', -⟩
            exact ⟨⟨c, Option.some.inj (hcode.symm.trans hcode'), hc⟩,
              Option.some.inj (htext.symm.trans htext')⟩
  | arr vs =>
    match vs with
    | [code, text, data] =>
      simp only [ofJson, fields, List.length_cons, List.length_nil, if_true, List.map_cons,
        List.map_nil, Option.bind_some, Option.bind_eq_bind, Option.pure_def, maybe_some, read_iff]
      simp [and_comm]
    | [] | [_] | [_, _] | _ :: _ :: _ :: _ :: _ => simp [ofJson, fields]
  | _ => simp [ofJson, fields]

/-- What the decoder makes of a message: the members that are there and not `null`. -/
theorem IsMessage.decoded {members : List (String × Json)} {id : RequestId}
    (h : IsMessage members id) :
    ∃ method result error : Option Json,
      (∀ j, ("method", j) ∈ members ↔ method = some j) ∧
      (∀ j, ("result", j) ∈ members ↔ result = some j) ∧
      (∀ j, ("error", j) ∈ members ↔ error = some j) ∧
      ∃ params, InboundMessage.ofJson (.obj members) =
        (maybe Serde.string method).bind fun method =>
          (maybe JsonRpcErrorObj.ofJson error).map fun error =>
            ⟨some "2.0", some id.toValue, method, params, nonNull result, error⟩ := by
  obtain ⟨version, hversion, mversion⟩ := exists_field h.distinct "jsonrpc"
  obtain ⟨number, hnumber, mnumber⟩ := exists_field h.distinct "id"
  obtain ⟨method, hmethod, mmethod⟩ := exists_field h.distinct "method"
  obtain ⟨params, hparams, -⟩ := exists_field h.distinct "params"
  obtain ⟨result, hresult, mresult⟩ := exists_field h.distinct "result"
  obtain ⟨error, herror, merror⟩ := exists_field h.distinct "error"
  obtain rfl := (mversion _).mp h.version
  obtain rfl := (mnumber _).mp h.id
  refine ⟨method, result, error, mmethod, mresult, merror, nonNull params, ?_⟩
  have hid : nonNull (some id.toValue) = some id.toValue := by
    cases id <;> rfl
  have htwo : maybe Serde.string (some (.str "2.0")) = some (some "2.0") := rfl
  simp only [InboundMessage.ofJson, fields, List.mapM_cons, List.mapM_nil, hversion, hnumber,
    hmethod, hparams, hresult, herror, Option.bind_eq_bind, Option.bind_some, Option.pure_def,
    maybe_some, hid, htwo]
  cases maybe Serde.string method with
  | none => rfl
  | some name => cases maybe JsonRpcErrorObj.ofJson error <;> rfl

/-- A message that is taken for a reply has no method and one outcome that is not `null`. -/
theorem classifyInbound_reply {id : RequestId} {method : Option String}
    {params result : Option Json}
    {error : Option JsonRpcErrorObj} {i : RequestId} {r : Except AcpError Json} :
    classifyInbound ⟨some "2.0", some id.toValue, method, params, result, error⟩ =
        .ok (.response i r) ↔
      method = none ∧ i = id ∧ ((∃ v, result = some v ∧ error = none ∧ r = .ok v) ∨
        ∃ e, result = none ∧ error = some e ∧ r = .error (.jsonRpc e.message)) := by
  have hreply (outcome : Except AcpError Json) :
      classifyReply (some id.toValue) outcome = .ok (.response id outcome) := by
    unfold classifyReply
    rw [Option.bind_some, RequestId.fromValue_toValue]
  unfold classifyInbound
  simp only [ne_eq, not_true_eq_false, if_false]
  cases method with
  | some name =>
    simp only
    split_ifs <;> simp
  | none =>
    cases result with
    | none =>
      cases error with
      | none => simp
      | some e => simp [hreply, eq_comm]
    | some v =>
      cases error with
      | none => simp [hreply, eq_comm]
      | some e => simp

theorem maybe_eq_none_iff {α : Type*} {read : Json → Option α} {o : Option Json} :
    maybe read o = some none ↔ o = none ∨ o = some .null := by
  cases o with
  | none => simp [maybe]
  | some j => cases j <;> simp [maybe, option]

/-- A member without a value is left out or `null`. -/
theorem not_hasValue_iff {members : List (String × Json)} {name : String} {o : Option Json}
    (h : ∀ j, (name, j) ∈ members ↔ o = some j) :
    ¬ HasValue name members ↔ o = none ∨ o = some .null := by
  unfold HasValue
  cases o with
  | none => simp [h]
  | some j => cases j <;> simp [h]

theorem nonNull_eq_some_iff {members : List (String × Json)} {name : String} {o : Option Json}
    (h : ∀ j, (name, j) ∈ members ↔ o = some j) (v : Json) :
    nonNull o = some v ↔ v ≠ .null ∧ (name, v) ∈ members := by
  rw [h]
  cases o with
  | none => simp [nonNull]
  | some j => cases j <;> simp +contextual [nonNull, eq_comm]

/-- The error of a message is read as what it says. -/
theorem maybe_error_iff {members : List (String × Json)} {o : Option Json}
    (h : ∀ j, ("error", j) ∈ members ↔ o = some j) {message : String} :
    (∃ e, maybe JsonRpcErrorObj.ofJson o = some (some e) ∧ e.message = message) ↔
      ∃ j, ("error", j) ∈ members ∧ IsError j message := by
  simp only [h, ← JsonRpcErrorObj.ofJson_iff]
  cases o with
  | none => simp [maybe]
  | some j =>
    cases j with
    | null => simp [maybe, option, JsonRpcErrorObj.ofJson, fields]
    | _ => simp [maybe, option]

/-- A message is taken for a reply when it has no method and its only outcome is a result that is
not `null`, or an error that can be read. -/
theorem IsMessage.taken_iff {members : List (String × Json)} {id : RequestId}
    (h : IsMessage members id) :
    TakenAsReply members ↔ ¬ HasValue "method" members ∧
      ((HasValue "result" members ∧ ¬ HasValue "error" members) ∨
        (¬ HasValue "result" members ∧ HasError members)) := by
  obtain ⟨method, result, error, hmethod, hresult, herror, params, hread⟩ := h.decoded
  have hnone : nonNull result = none ↔ ¬ HasValue "result" members := by
    simp only [HasValue, ← nonNull_eq_some_iff hresult]
    cases nonNull result <;> simp
  have hunnamed : maybe Serde.string method = some none ↔ ¬ HasValue "method" members :=
    maybe_eq_none_iff.trans (not_hasValue_iff hmethod).symm
  have hfine : maybe JsonRpcErrorObj.ofJson error = some none ↔ ¬ HasValue "error" members :=
    maybe_eq_none_iff.trans (not_hasValue_iff herror).symm
  unfold TakenAsReply
  constructor
  · rintro ⟨msg, i, r, hmsg, hclass⟩
    obtain ⟨name, hname, hmsg⟩ := Option.bind_eq_some_iff.mp (hread.symm.trans hmsg)
    obtain ⟨e, he, rfl⟩ := Option.map_eq_some_iff.mp hmsg
    obtain ⟨rfl, -, ⟨v, hv, rfl, -⟩ | ⟨e, hnull, rfl, -⟩⟩ := classifyInbound_reply.mp hclass
    · exact ⟨hunnamed.mp hname, .inl ⟨⟨v, (nonNull_eq_some_iff hresult v).mp hv⟩, hfine.mp he⟩⟩
    · obtain ⟨j, hj, hmessage⟩ := (maybe_error_iff herror).mp ⟨e, he, rfl⟩
      exact ⟨hunnamed.mp hname, .inr ⟨hnone.mp hnull, j, e.message, hj, hmessage⟩⟩
  · rintro ⟨hname, ⟨⟨v, hv⟩, he⟩ | ⟨hnull, j, message, hj, hmessage⟩⟩
    · rw [hunnamed.mpr hname, Option.bind_some, hfine.mpr he, Option.map_some] at hread
      exact ⟨_, id, .ok v, hread, classifyInbound_reply.mpr
        ⟨rfl, rfl, .inl ⟨v, (nonNull_eq_some_iff hresult v).mpr hv, rfl, rfl⟩⟩⟩
    · obtain ⟨e, he, rfl⟩ := (maybe_error_iff herror).mpr ⟨j, hj, hmessage⟩
      rw [hunnamed.mpr hname, Option.bind_some, he, Option.map_some] at hread
      exact ⟨_, id, .error (.jsonRpc e.message), hread, classifyInbound_reply.mpr
        ⟨rfl, rfl, .inr ⟨e, hnone.mpr hnull, rfl, rfl⟩⟩⟩

/-- What is taken for a reply has the identifier of the message and says what it says. -/
theorem IsMessage.taken_reply {members : List (String × Json)} {id i : RequestId}
    {msg : InboundMessage} {r : Except AcpError Json} (h : IsMessage members id)
    (hmsg : InboundMessage.ofJson (.obj members) = some msg)
    (hclass : classifyInbound msg = .ok (.response i r)) : i = id ∧ Says members r := by
  obtain ⟨method, result, error, -, hresult, herror, params, hread⟩ := h.decoded
  obtain ⟨name, -, hmsg⟩ := Option.bind_eq_some_iff.mp (hread.symm.trans hmsg)
  obtain ⟨e, he, rfl⟩ := Option.map_eq_some_iff.mp hmsg
  obtain ⟨-, rfl, ⟨v, hv, -, rfl⟩ | ⟨e', -, rfl, rfl⟩⟩ := classifyInbound_reply.mp hclass
  · exact ⟨rfl, ((nonNull_eq_some_iff hresult v).mp hv).2⟩
  · exact ⟨rfl, (maybe_error_iff herror).mp ⟨e', he, rfl⟩⟩

/-- What the message says goes to the request with its identifier, and to no other. -/
def Routed (ρ : Type*) (members : List (String × Json)) (id : RequestId) : Prop :=
  ∀ (c : PendingRequests ρ) (msg : InboundMessage) (i : RequestId) (r : Except AcpError Json),
    InboundMessage.ofJson (.obj members) = some msg →
    classifyInbound msg = .ok (.response i r) →
    Says members r ∧
    (c.receive msg).answers =
      c.answers ++ ((c.pending.lookup id).toList.map fun tx => (tx, r)) ∧
    (c.receive msg).pending.lookup id = none ∧
    ∀ k ≠ id, (c.receive msg).pending.lookup k = c.pending.lookup k

theorem IsMessage.routed {ρ : Type*} {members : List (String × Json)} {id : RequestId}
    (h : IsMessage members id) : Routed ρ members id := by
  intro c msg i r hmsg hclass
  obtain ⟨rfl, hreply⟩ := h.taken_reply hmsg hclass
  refine ⟨hreply, ?_⟩
  unfold PendingRequests.receive
  rw [hclass]
  exact c.resolvePending_spec i r

theorem present_iff {members : List (String × Json)} {name : String} :
    Present name members ↔ (name, Json.null) ∈ members ∨ HasValue name members := by
  constructor
  · rintro ⟨v, hv⟩
    by_cases hnull : v = .null
    · exact .inl (hnull ▸ hv)
    · exact .inr ⟨v, hnull, hv⟩
  · rintro (hnull | ⟨v, -, hv⟩)
    · exact ⟨_, hnull⟩
    · exact ⟨v, hv⟩

/-- A member is `null` or has a value, not both. -/
theorem IsMessage.not_null_and_value {members : List (String × Json)} {id : RequestId}
    (h : IsMessage members id) (name : String) :
    ¬ ((name, Json.null) ∈ members ∧ HasValue name members) := by
  rintro ⟨hnull, v, hne, hv⟩
  obtain ⟨found, -, hfound⟩ := exists_field h.distinct name
  exact hne (Option.some.inj (((hfound _).mp hv).symm.trans ((hfound _).mp hnull)))

/-- An error that is read is not `null`. -/
theorem HasError.hasValue {members : List (String × Json)} (h : HasError members) :
    HasValue "error" members := by
  obtain ⟨j, message, hj, hread⟩ := h
  refine ⟨j, ?_, hj⟩
  rintro rfl
  rcases hread with ⟨es, code, hes, -⟩ | ⟨code, data, hes, -⟩ <;> cases hes

/-- Where the decoder and the protocol agree on what a reply is. -/
def Unmistaken (members : List (String × Json)) : Prop :=
  -- a request or a notification
  HasValue "method" members ∨
  -- a method of `null`, with no outcome that makes it a reply for the decoder
  (("method", Json.null) ∈ members ∧ (HasValue "result" members → HasValue "error" members) ∧
    (HasError members → HasValue "result" members)) ∨
  ¬ Present "method" members ∧
    ( -- a result that is not `null`, and no error that is
    (HasValue "result" members ∧ ("error", Json.null) ∉ members) ∨
    -- a result of `null` next to an error that cannot be read
    (("result", Json.null) ∈ members ∧ Present "error" members ∧ ¬ HasError members) ∨
    -- no result, and no error but one that can be read
    (¬ Present "result" members ∧ (Present "error" members → HasError members)))

/-- A message is taken for a reply when it is one, and then routed, exactly when it is
`Unmistaken`. -/
theorem repliesRouted_iff {ρ : Type*} {members : List (String × Json)} {id : RequestId}
    (h : IsMessage members id) :
    ((TakenAsReply members ↔ IsReply members) ∧ Routed ρ members id) ↔ Unmistaken members := by
  have hresult := h.not_null_and_value "result"
  have herror := h.not_null_and_value "error"
  have hread : HasError members → HasValue "error" members := HasError.hasValue
  rw [and_iff_left h.routed, h.taken_iff]
  unfold IsReply Xor Unmistaken
  simp only [present_iff]
  by_cases hvalue : HasValue "method" members
  · simp [hvalue]
  by_cases hnull : ("method", Json.null) ∈ members
  · by_cases hr : HasValue "result" members <;> simp [hvalue, hnull, hr]
  -- Without a method the outcomes decide.
  simp only [hvalue, hnull, or_false, not_false_eq_true, true_and, false_and, false_or]
  by_cases hr : HasValue "result" members
  · have hn : ("result", Json.null) ∉ members := fun hn => hresult ⟨hn, hr⟩
    simp only [hr, hn]
    simpa [not_or, not_and_or] using not_and_or.mp herror |>.symm
  by_cases he : HasError members
  · have hv := hread he
    have hn : ("error", Json.null) ∉ members := fun hn => herror ⟨hn, hv⟩
    simp [hr, he, hv]
  · simp only [hr, he]
    by_cases hn : ("result", Json.null) ∈ members <;> simp [hn, or_iff_not_imp_left]

/-- The reply to a request that returns nothing, such as the write of a file. -/
def writeReply : List (String × Json) :=
  [("jsonrpc", .str "2.0"), ("id", ofI64 1), ("result", .null)]

theorem isMessage_writeReply : IsMessage writeReply (.number 1) where
  distinct := by decide
  version := List.mem_cons_self
  id := List.mem_cons_of_mem _ List.mem_cons_self

theorem repliesRouted_writeReply :
    ((TakenAsReply writeReply ↔ IsReply writeReply) ∧ Routed ℕ writeReply (.number 1)) ↔
      Unmistaken writeReply :=
  repliesRouted_iff isMessage_writeReply

/-- A reply without a value is refused. -/
theorem nullReply_refused : ¬ ∀ members id, IsMessage members id →
    (TakenAsReply members ↔ IsReply members) := by
  intro h
  have hreply : IsReply writeReply := by
    unfold IsReply Present
    simp [writeReply, Xor]
  have htaken := (h writeReply (.number 1) isMessage_writeReply).mpr hreply
  rw [isMessage_writeReply.taken_iff] at htaken
  simp [HasValue, HasError, writeReply] at htaken

end Guigu.Acp

import Outpunch.Axum.Handler
import Outpunch.Library.Base64
import Outpunch.Library.Collect

/-!
# Axum — the response to the caller

`tunnel_response_to_axum` step by step: `Response::builder()` takes the headers one by one, in the
order the map yields them, and remembers whether it refused one: a pair that is no header line, or
one its header map has no room for.  So the response is rendered whole or not at all, and, within
what a header map always takes, whatever the order (`tunnel_response_rendering`).

The header map of the `http` crate is outside: `HeaderRoom` says what it has room for.
-/

namespace Outpunch

/-- `HeaderName::from_bytes` and `HeaderValue::from_str` accept the pair.  A name may have up to
65535 bytes; those of a token are its characters. -/
def isHeaderLine (h : String × String) : Bool := isHeader h && h.1.length ≤ 65535

/-- `HeaderMap::try_append`: the map that holds these lines takes one more, or is at its maximum
size. -/
abbrev HeaderRoom := List (String × String) → String × String → Bool

/-- What the builder of a response holds; nothing, once it was given something it refuses. -/
abbrev ResponseBuilder := Option (UInt16 × List (String × String))

/-- `Builder::header`. -/
def ResponseBuilder.header (room : HeaderRoom) (b : ResponseBuilder) (h : String × String) :
    ResponseBuilder :=
  b.bind fun parts =>
    let line := (lowerName h.1, h.2)
    if isHeaderLine h && room parts.2 line then some (parts.1, parts.2 ++ [line]) else none

/-- The response in place of one that cannot be built. -/
def internalError : HttpReply where
  status := 500
  headers := []
  body := bytes "internal error"

/-- `tunnel_response_to_axum`, when the map yields the headers in this order. -/
def buildResponse (room : HeaderRoom) (decode : String → Option (List UInt8))
    (resp : TunnelResponse) (order : List (String × String)) : HttpReply :=
  match order.foldl (ResponseBuilder.header room) (some (parseStatus resp.status, [])) with
  | some parts => { status := parts.1, headers := parts.2, body := responseBody decode resp }
  | none => internalError

/-- A header map that holds the lines takes the rest in turn. -/
def HeaderRoom.takes (room : HeaderRoom) (held : List (String × String)) :
    List (String × String) → Bool
  | [] => true
  | h :: rest =>
    let line := (lowerName h.1, h.2)
    room held line && room.takes (held ++ [line]) rest

/-! ### The builder -/

variable {room : HeaderRoom}

theorem foldl_header_none (order : List (String × String)) :
    order.foldl (ResponseBuilder.header room) none = none := by
  induction order with
  | nil => rfl
  | cons h order ih => exact ih

/-- The builder takes all headers, or refuses. -/
theorem foldl_header (status : UInt16) (headers order : List (String × String)) :
    order.foldl (ResponseBuilder.header room) (some (status, headers)) =
      if order.all isHeaderLine && room.takes headers order then
        some (status, headers ++ order.map fun h => (lowerName h.1, h.2))
      else none := by
  induction order generalizing headers with
  | nil => simp [HeaderRoom.takes]
  | cons h order ih =>
      rw [List.foldl_cons, List.all_cons, HeaderRoom.takes]
      by_cases hh : (isHeaderLine h && room headers (lowerName h.1, h.2)) = true
      · have hb : ResponseBuilder.header room (some (status, headers)) h =
            some (status, headers ++ [(lowerName h.1, h.2)]) := by
          rw [ResponseBuilder.header, Option.bind_some, if_pos hh]
        obtain ⟨hline, hroom⟩ := (Bool.and_eq_true _ _).mp hh
        rw [hb, ih, hline, hroom, Bool.true_and, Bool.true_and]
        simp
      · have hb : ResponseBuilder.header room (some (status, headers)) h = none := by
          rw [ResponseBuilder.header, Option.bind_some, if_neg hh]
        rw [hb, foldl_header_none, if_neg]
        intro hall
        simp only [Bool.and_eq_true] at hall hh
        exact hh ⟨hall.1.1, hall.2.1⟩

/-- A map that always has room for `n` lines takes any `n`, in any order. -/
theorem HeaderRoom.takes_of_length_le {n : Nat} (hroom : ∀ held h, held.length < n → room held h)
    {held order : List (String × String)} (hlen : held.length + order.length ≤ n) :
    room.takes held order := by
  induction order generalizing held with
  | nil => rfl
  | cons h order ih =>
      rw [List.length_cons] at hlen
      rw [HeaderRoom.takes, hroom _ _ (by omega), Bool.true_and]
      exact ih (by rw [List.length_append, List.length_singleton]; omega)

/-- A map that has room for no more than `n` lines refuses some of a longer list. -/
theorem HeaderRoom.takes_eq_false {n : Nat}
    (hroom : ∀ held h, n ≤ held.length → room held h = false)
    {held order : List (String × String)} (hlen : n < held.length + order.length)
    (hheld : held.length ≤ n) : room.takes held order = false := by
  induction order generalizing held with
  | nil => simp at hlen; omega
  | cons h order ih =>
      rw [HeaderRoom.takes]
      rcases Nat.lt_or_ge held.length n with hlt | hge
      · rw [ih (by simp at hlen ⊢; omega) (by simp; omega), Bool.and_false]
      · rw [hroom _ _ hge, Bool.false_and]

variable {decode : String → Option (List UInt8)} {resp : TunnelResponse}
  {order : List (String × String)}

theorem buildResponse_eq (room : HeaderRoom) (decode : String → Option (List UInt8))
    (resp : TunnelResponse) (order : List (String × String)) :
    buildResponse room decode resp order =
      if order.all isHeaderLine && room.takes [] order then
        { status := parseStatus resp.status
          headers := order.map fun h => (lowerName h.1, h.2)
          body := responseBody decode resp }
      else internalError := by
  unfold buildResponse
  rw [foldl_header]
  split <;> rename_i heq <;> split at heq <;> cases heq
  · rename_i hall
    rw [if_pos hall, List.nil_append]
  · rename_i hall
    rw [if_neg hall]

/-- In the order of the map, and within the limits of names and maps, it is
`tunnelResponseToAxum`. -/
theorem buildResponse_toList (decode : String → Option (List UInt8))
    (hlen : ∀ h ∈ resp.headers.toList, h.1.length ≤ 65535)
    (hroom : room.takes [] resp.headers.toList) :
    buildResponse room decode resp resp.headers.toList = tunnelResponseToAxum decode resp := by
  have hall : resp.headers.toList.all isHeaderLine = resp.headers.toList.all isHeader := by
    rw [Bool.eq_iff_iff, List.all_eq_true, List.all_eq_true]
    refine forall₂_congr fun h hh => ?_
    rw [isHeaderLine, Bool.and_eq_true, decide_eq_true_eq]
    exact and_iff_left (hlen h hh)
  rw [buildResponse_eq, hroom, Bool.and_true, hall]
  rfl

/-! ### What is rendered -/

/-- The bytes the body of a response stands for. -/
inductive BodyOf (decode : String → Option (List UInt8)) (resp : TunnelResponse) :
    List UInt8 → Prop where
  | decoded {encoded : String} {body : List UInt8} (hbody : resp.body = some encoded)
      (henc : resp.bodyEncoding = some "base64") (hdec : decode encoded = some body) :
      BodyOf decode resp body
  | undecodable {encoded : String} (hbody : resp.body = some encoded)
      (henc : resp.bodyEncoding = some "base64") (hdec : decode encoded = none) :
      BodyOf decode resp (bytes encoded)
  | plain {text : String} (hbody : resp.body = some text)
      (henc : resp.bodyEncoding ≠ some "base64") : BodyOf decode resp (bytes text)
  | empty (hbody : resp.body = none) : BodyOf decode resp []

theorem bodyOf_responseBody (decode : String → Option (List UInt8)) (resp : TunnelResponse) :
    BodyOf decode resp (responseBody decode resp) := by
  unfold responseBody
  split
  · rename_i encoded hbody henc
    cases hdec : decode encoded with
    | none => exact .undecodable hbody henc hdec
    | some body => exact .decoded hbody henc hdec
  · rename_i henc
    exact .plain ‹_› henc
  · exact .empty ‹_›

/-- `t` is `s` with the ASCII capitals made small. -/
def FoldedCase (s t : String) : Prop :=
  List.Forall₂ (fun c d => if 'A' ≤ c ∧ c ≤ 'Z' then d.toNat = c.toNat + 32 else d = c)
    s.toList t.toList

theorem foldedCase_lowerName (s : String) : FoldedCase s (lowerName s) := by
  rw [FoldedCase, lowerName, String.toList_ofList, List.forall₂_map_right_iff, List.forall₂_same]
  intro c _
  by_cases h : 'A' ≤ c ∧ c ≤ 'Z'
  · have hz : c.val.toNat ≤ 90 := UInt32.le_iff_toNat_le.mp h.2
    have hlow : c.toLower.val = c.val + 32 := congrArg Char.val (dif_pos h)
    rw [if_pos h, Char.toNat, hlow, UInt32.toNat_add]
    exact Nat.mod_eq_of_lt (by change c.val.toNat + 32 < 2 ^ 32; omega)
  · rw [if_neg h]
    exact dif_neg h

/-- The whole of a response. -/
structure Rendered (decode : String → Option (List UInt8)) (resp : TunnelResponse)
    (reply : HttpReply) : Prop where
  status : 100 ≤ resp.status ∧ resp.status ≤ 999 → reply.status = resp.status
  badStatus : ¬ (100 ≤ resp.status ∧ resp.status ≤ 999) → reply.status = 500
  headers : ∃ lines, reply.headers.Perm lines ∧
    List.Forall₂ (fun h line => FoldedCase h.1 line.1 ∧ line.2 = h.2) resp.headers.toList lines
  body : BodyOf decode resp reply.body

theorem rendered_buildResponse (horder : order.Perm resp.headers.toList)
    (hall : order.all isHeaderLine) (hroom : room.takes [] order) :
    Rendered decode resp (buildResponse room decode resp order) := by
  have hlt : resp.status ≤ 999 ↔ resp.status < 1000 := by
    simp only [UInt16.le_iff_toNat_le, UInt16.lt_iff_toNat_lt, UInt16.reduceToNat]
    omega
  rw [buildResponse_eq, if_pos (by rw [hall, hroom]; rfl)]
  refine ⟨fun h => ?_, fun h => ?_, ⟨_, horder.map _, ?_⟩, bodyOf_responseBody decode resp⟩
  · exact if_pos (by simpa [← hlt] using h)
  · exact if_neg (by simpa [← hlt] using h)
  · rw [List.forall₂_map_right_iff, List.forall₂_same]
    exact fun h _ => ⟨foldedCase_lowerName h.1, rfl⟩

/-- A body is the same sent plain and encoded. -/
theorem buildResponse_encoded {encode : List UInt8 → String}
    (hcodec : ∀ body, decode (encode body) = some body) {encoding : Option String}
    (henc : encoding ≠ some "base64") (s : String) :
    buildResponse room decode { resp with body := some s, bodyEncoding := encoding } order =
      buildResponse room decode
        { resp with body := some (encode (bytes s)), bodyEncoding := some "base64" } order := by
  have hplain : responseBody decode { resp with body := some s, bodyEncoding := encoding } =
      bytes s := by
    unfold responseBody
    split
    · rename_i h
      exact absurd h henc
    · rename_i h _
      cases h
      rfl
    · rename_i h
      cases h
  have hencoded : responseBody decode
      { resp with body := some (encode (bytes s)), bodyEncoding := some "base64" } = bytes s := by
    simp only [responseBody, hcodec, Option.getD_some]
  rw [buildResponse_eq, buildResponse_eq, hplain, hencoded]

/-- **A response is rendered whole, or as the fixed error.**  It is rendered when each header is a
header line and the builder's header map takes them in turn; a map that always has room for as many
takes them in any order.  The encoding of the body makes no difference. -/
theorem tunnel_response_rendering {encode : List UInt8 → String}
    (hcodec : ∀ body, decode (encode body) = some body)
    (horder : order.Perm resp.headers.toList) :
    ((∀ h ∈ resp.headers.toList, isHeaderLine h) → room.takes [] order →
        Rendered decode resp (buildResponse room decode resp order)) ∧
      ((∃ h ∈ resp.headers.toList, ¬ isHeaderLine h) ∨ ¬ room.takes [] order →
        buildResponse room decode resp order = internalError) ∧
      (∀ n, (∀ held h, held.length < n → room held h) → resp.headers.size ≤ n →
        room.takes [] order) ∧
      ∀ (s : String) (encoding : Option String), encoding ≠ some "base64" →
        buildResponse room decode { resp with body := some s, bodyEncoding := encoding } order =
          buildResponse room decode
            { resp with body := some (encode (bytes s)), bodyEncoding := some "base64" } order := by
  refine ⟨fun h hroom => ?_, fun h => ?_, fun n hroom hn => ?_, fun s _ henc => ?_⟩
  · refine rendered_buildResponse horder (List.all_eq_true.mpr fun p hp => ?_) hroom
    exact h p (horder.subset hp)
  · rw [buildResponse_eq, if_neg]
    intro hall
    obtain ⟨hall, hroom⟩ := (Bool.and_eq_true _ _).mp hall
    rcases h with ⟨h, hh, hbad⟩ | hfull
    · exact hbad (List.all_eq_true.mp hall h (horder.symm.subset hh))
    · exact hfull hroom
  · refine HeaderRoom.takes_of_length_le hroom ?_
    rw [horder.length_eq, Std.ExtTreeMap.length_toList]
    simpa using hn
  · exact buildResponse_encoded hcodec henc s

/-- A header map that holds up to 24576 lines, as that of the `http` crate does. -/
def roomForMany : HeaderRoom := fun held _ => held.length < 24576

/-- With the base64 alphabet, and the headers of a map the other way round; their names lose their
capitals. -/
theorem tunnel_response_rendering_base64 :
    let resp : TunnelResponse :=
      { msgType := "response", requestId := "q", status := 404
        headers := .ofList [("X-A", "1"), ("X-B", "2")]
        body := some "aGk=", bodyEncoding := some "base64" }
    let reply := buildResponse roomForMany Base64.decode resp [("X-B", "2"), ("X-A", "1")]
    Rendered Base64.decode resp reply ∧ reply.headers = [("x-b", "2"), ("x-a", "1")] :=
  ⟨(tunnel_response_rendering Base64.decode_encode (by decide +kernel)).1 (by decide +kernel)
    (by decide +kernel), by decide +kernel⟩

/-- The name of `n + 1` letters. -/
def longName (n : Nat) : String := .ofList (List.replicate (n + 1) 'x')

theorem longName_injective : Function.Injective longName := fun i j h => by
  have hlen := congrArg (fun s : String => s.toList.length) h
  simpa [longName] using hlen

theorem isHeaderLine_longName {n : Nat} (hn : n < 65535) : isHeaderLine (longName n, "") := by
  have hlen : (longName n).length ≤ 65535 := by
    rw [← String.length_toList, longName, String.toList_ofList, List.length_replicate]
    exact hn
  have htoken : isToken (longName n) := by
    simp only [isToken, longName, String.toList_ofList, List.replicate_succ, List.isEmpty_cons,
      Bool.not_false, Bool.true_and, List.all_cons, List.all_replicate]
    split <;> decide
  rw [isHeaderLine, isHeader, htoken, decide_eq_true hlen]
  exact (by decide : (true && isHeaderValue "" && true) = true)

/-- A response with more headers than the header map of the `http` crate holds. -/
def manyHeaders : TunnelResponse where
  msgType := "response"
  requestId := "q"
  status := 200
  headers := .ofList ((List.range 24577).map fun n => (longName n, ""))
  body := none
  bodyEncoding := none

/-- **Valid headers are refused where there are too many of them**, in whatever order they come. -/
theorem many_headers_refused :
    (∀ h ∈ manyHeaders.headers.toList, isHeaderLine h) ∧
      ∀ order : List (String × String), order.Perm manyHeaders.headers.toList →
        ¬ Rendered Base64.decode manyHeaders
          (buildResponse roomForMany Base64.decode manyHeaders order) := by
  have hperm : manyHeaders.headers.toList.Perm ((List.range 24577).map fun n => (longName n, "")) :=
    Collect.toList_ofList_perm_iff.mpr (by
      rw [List.map_map]
      exact List.nodup_range.map longName_injective)
  refine ⟨fun h hh => ?_, fun order horder hr => ?_⟩
  · obtain ⟨n, hn, rfl⟩ := List.mem_map.mp (hperm.subset hh)
    exact isHeaderLine_longName ((List.mem_range.mp hn).trans (by decide))
  · have hlen : order.length = 24577 := by
      rw [horder.length_eq, hperm.length_eq, List.length_map, List.length_range]
    have hfull : roomForMany.takes [] order = false :=
      HeaderRoom.takes_eq_false (n := 24576) (fun held _ h => decide_eq_false (by omega))
        (by simp [hlen]) (by simp)
    rw [buildResponse_eq, hfull, Bool.and_false, if_neg (by decide)] at hr
    exact absurd (hr.status (by decide)) (by decide)

end Outpunch

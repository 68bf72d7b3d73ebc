import Outpunch.Protocol.Json

/-!
# Protocol — HTTP headers, methods and statuses

What the `http` crate, which both ends of the tunnel use, takes for a header name, a header value,
a method and a status.  A header map is the list of its lines; the lines of one name are in the
order they came.  A value is given by its text where `HeaderValue::to_str` reads one.
-/

namespace Outpunch

/-- The characters of a token. -/
def isTokenChar (c : Char) : Bool :=
  c.isAlphanum || "!#$%&'*+-.^_|~".toList.contains c || c.toNat = 0x60

/-- A token: what `HeaderName::from_bytes` and `Method::from_bytes` accept. -/
def isToken (s : String) : Bool := !s.toList.isEmpty && s.toList.all isTokenChar

/-- `HeaderName::from_bytes` keeps a name in lower case. -/
def lowerName (s : String) : String := .ofList (s.toList.map Char.toLower)

/-- `HeaderValue::from_str` accepts the text. -/
def isHeaderValue (s : String) : Bool :=
  s.toList.all fun c => 32 ≤ c.toNat && c.toNat ≠ 127 || c = '\t'

/-- `HeaderValue::to_str` reads the value. -/
def isVisible (s : String) : Bool :=
  s.toList.all fun c => 32 ≤ c.toNat && c.toNat < 127 || c = '\t'

/-- `HeaderName`. -/
structure HeaderName where
  text : String
  token : isToken text
  lower : lowerName text = text
  deriving DecidableEq

/-- A `HeaderValue` that is text. -/
structure HeaderText where
  text : String
  visible : isVisible text
  deriving DecidableEq

/-- A header map: its lines, with their values where these are text. -/
abbrev HeaderMap := List (String × Option String)

/-- The lines of a header map all of whose values are text. -/
abbrev HeaderLines := List (HeaderName × HeaderText)

namespace HeaderLines

def pairs (l : HeaderLines) : List (String × String) := l.map fun h => (h.1.text, h.2.text)

def headerMap (l : HeaderLines) : HeaderMap := l.pairs.map fun p => (p.1, some p.2)

/-- What can be read of the lines is all of them. -/
theorem filterMap_headerMap (l : HeaderLines) :
    l.headerMap.filterMap (fun h => h.2.map fun value => (h.1, value)) = l.pairs := by
  rw [headerMap, List.filterMap_map]
  exact List.filterMap_some

end HeaderLines

theorem isHeaderValue_of_isVisible {s : String} (h : isVisible s) : isHeaderValue s := by
  rw [isVisible, List.all_eq_true] at h
  rw [isHeaderValue, List.all_eq_true]
  intro c hc
  have hc := h c hc
  simp only [Bool.or_eq_true, Bool.and_eq_true, decide_eq_true_eq] at hc ⊢
  exact hc.imp_left fun ⟨h₁, h₂⟩ => ⟨h₁, Nat.ne_of_lt h₂⟩

/-- Both ends take such a pair for a header line. -/
def isHeader (p : String × String) : Bool := isToken p.1 && isHeaderValue p.2

theorem HeaderLines.isHeader_of_mem {l : HeaderLines} {p : String × String} (h : p ∈ l.pairs) :
    isHeader p := by
  obtain ⟨line, -, rfl⟩ := List.mem_map.mp h
  rw [isHeader, line.1.token, isHeaderValue_of_isVisible line.2.visible]
  rfl

theorem HeaderLines.lowerName_of_mem {l : HeaderLines} {p : String × String} (h : p ∈ l.pairs) :
    lowerName p.1 = p.1 := by
  obtain ⟨line, -, rfl⟩ := List.mem_map.mp h
  exact line.1.lower

/-- The method `forward_request` asks for. -/
def parseMethod (s : String) : String := if isToken s then s else "GET"

/-- The status `tunnel_response_to_axum` answers with. -/
def parseStatus (n : UInt16) : UInt16 := if 100 ≤ n && n < 1000 then n else 500

end Outpunch

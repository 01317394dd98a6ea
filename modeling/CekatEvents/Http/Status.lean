/-
  CekatEvents.Http.Status — the status codes and status texts that several clients share.

  The table is fixed across the clients so that each reports the same fallback message; the Python,
  .NET and Java sources hold one copy of it each.  What it should say is told by the registry of status
  codes, which also knows the statuses that the clients have no phrase for.

  Main result: `statusText_spec`.
-/
import Mathlib.Data.List.Basic

namespace CekatEvents.Http

/-- The text of a status. -/
def statusTexts : List (Nat × String) :=
  [(400, "Bad Request"), (401, "Unauthorized"), (403, "Forbidden"), (404, "Not Found"),
   (405, "Method Not Allowed"), (408, "Request Timeout"), (409, "Conflict"),
   (413, "Content Too Large"), (415, "Unsupported Media Type"), (418, "I'm a teapot"),
   (422, "Unprocessable Content"), (429, "Too Many Requests"), (500, "Internal Server Error"),
   (501, "Not Implemented"), (502, "Bad Gateway"), (503, "Service Unavailable"),
   (504, "Gateway Timeout")]

/-- The text of a status, or `HTTP` and its number. -/
def statusText (statusCode : Nat) : List Char :=
  ((statusTexts.find? fun e => e.1 == statusCode).map fun e => e.2.toList).getD
    ("HTTP ".toList ++ (Nat.repr statusCode).toList)

/-- The statuses that the clients have a phrase for. -/
def namedStatuses : List Nat :=
  [400, 401, 403, 404, 405, 408, 409, 413, 415, 418, 422, 429, 500, 501, 502, 503, 504]

/-- The statuses a client may retry. -/
def isRetryableStatus (statusCode : Nat) : Bool :=
  statusCode == 429 || statusCode == 500 || statusCode == 502 || statusCode == 503 ||
    statusCode == 504

theorem isRetryableStatus_iff {status : Nat} :
    isRetryableStatus status = true ↔ status ∈ [429, 500, 502, 503, 504] := by
  simp only [isRetryableStatus, Bool.or_eq_true, beq_iff_eq, List.mem_cons, List.not_mem_nil, or_false,
    or_assoc]

/-! ## The registry. -/

/-- The reason phrases of the registered statuses, the present wording first. -/
def reasonPhrases : List (Nat × List String) :=
  [(100, ["Continue"]), (101, ["Switching Protocols"]), (102, ["Processing"]), (103, ["Early Hints"]),
   (200, ["OK"]), (201, ["Created"]), (202, ["Accepted"]), (203, ["Non-Authoritative Information"]),
   (204, ["No Content"]), (205, ["Reset Content"]), (206, ["Partial Content"]),
   (207, ["Multi-Status"]), (208, ["Already Reported"]), (226, ["IM Used"]),
   (300, ["Multiple Choices"]), (301, ["Moved Permanently"]), (302, ["Found"]), (303, ["See Other"]),
   (304, ["Not Modified"]), (305, ["Use Proxy"]), (307, ["Temporary Redirect"]),
   (308, ["Permanent Redirect"]), (400, ["Bad Request"]), (401, ["Unauthorized"]),
   (402, ["Payment Required"]), (403, ["Forbidden"]), (404, ["Not Found"]),
   (405, ["Method Not Allowed"]), (406, ["Not Acceptable"]),
   (407, ["Proxy Authentication Required"]), (408, ["Request Timeout"]), (409, ["Conflict"]),
   (410, ["Gone"]), (411, ["Length Required"]), (412, ["Precondition Failed"]),
   (413, ["Content Too Large", "Request Entity Too Large"]),
   (414, ["URI Too Long", "Request URI Too Long"]), (415, ["Unsupported Media Type"]),
   (416, ["Range Not Satisfiable", "Requested Range Not Satisfiable"]),
   (417, ["Expectation Failed"]), (418, ["I'm a teapot"]), (421, ["Misdirected Request"]),
   (422, ["Unprocessable Content", "Unprocessable Entity"]), (423, ["Locked"]),
   (424, ["Failed Dependency"]), (425, ["Too Early"]), (426, ["Upgrade Required"]),
   (428, ["Precondition Required"]), (429, ["Too Many Requests"]),
   (431, ["Request Header Fields Too Large"]), (451, ["Unavailable For Legal Reasons"]),
   (500, ["Internal Server Error"]), (501, ["Not Implemented"]), (502, ["Bad Gateway"]),
   (503, ["Service Unavailable"]), (504, ["Gateway Timeout"]),
   (505, ["HTTP Version Not Supported"]), (506, ["Variant Also Negotiates"]),
   (507, ["Insufficient Storage"]), (508, ["Loop Detected"]), (510, ["Not Extended"]),
   (511, ["Network Authentication Required"])]

/-- The status is in the registry. -/
def Registered (status : Nat) : Prop := ∃ e ∈ reasonPhrases, e.1 = status

/-- The text is a phrase that the registry gives the status. -/
def IsPhrase (status : Nat) (text : List Char) : Prop :=
  ∃ e ∈ reasonPhrases, e.1 = status ∧ ∃ phrase ∈ e.2, text = phrase.toList

/-- `HTTP` and the number of a status. -/
def numberText (status : Nat) : List Char := "HTTP ".toList ++ (Nat.repr status).toList

/-- The text that stands for a status: a phrase, or its number where the clients have none. -/
inductive StatusText (status : Nat) : List Char → Prop where
  | phrase {text : List Char} (hnamed : status ∈ namedStatuses) (htext : IsPhrase status text) :
      StatusText status text
  | number (hnamed : status ∉ namedStatuses) : StatusText status (numberText status)

theorem statusTexts_registered :
    ∀ e ∈ statusTexts, ∃ e' ∈ reasonPhrases, e'.1 = e.1 ∧ e.2 ∈ e'.2 := by decide

theorem statusTexts_named : statusTexts.map Prod.fst = namedStatuses := rfl

/-- The clients' table agrees with the registry. -/
theorem statusText_phrase {status : Nat} (h : status ∈ namedStatuses) :
    IsPhrase status (statusText status) := by
  unfold statusText
  cases hfind : statusTexts.find? fun e => e.1 == status with
  | none =>
      rw [← statusTexts_named, List.mem_map] at h
      obtain ⟨e, he, rfl⟩ := h
      exact absurd (List.find?_eq_none.mp hfind e he) (by simp)
  | some e =>
      have hstatus : e.1 = status := by simpa using List.find?_some hfind
      obtain ⟨e', he', hcode, hphrase⟩ := statusTexts_registered e (List.mem_of_find?_eq_some hfind)
      exact ⟨e', he', hcode.trans hstatus, e.2, hphrase, rfl⟩

theorem statusText_number {status : Nat} (h : status ∉ namedStatuses) :
    statusText status = numberText status := by
  have hfind : statusTexts.find? (fun e => e.1 == status) = none := by
    rw [List.find?_eq_none]
    intro e he heq
    refine h ?_
    rw [← statusTexts_named]
    exact List.mem_map.mpr ⟨e, he, by simpa using heq⟩
  unfold statusText
  rw [hfind]
  rfl

/-- The text of a status is the one that stands for it. -/
theorem statusText_spec (status : Nat) : StatusText status (statusText status) := by
  by_cases h : status ∈ namedStatuses
  · exact .phrase h (statusText_phrase h)
  · rw [statusText_number h]
    exact .number h

theorem numberText_eq (status : Nat) : numberText status = ("HTTP " ++ Nat.repr status).toList :=
  String.toList_append.symm

/-- No phrase is `HTTP` and a number. -/
theorem not_isPhrase_numberText (status : Nat) : ¬ IsPhrase status (numberText status) := by
  have htable : ∀ e ∈ reasonPhrases, ("HTTP " ++ Nat.repr e.1) ∉ e.2 := by decide
  rintro ⟨e, he, rfl, phrase, hphrase, htext⟩
  rw [numberText_eq] at htext
  rw [← String.toList_injective htext] at hphrase
  exact htable e he hphrase

/-- No phrase is empty. -/
theorem IsPhrase.ne_nil {status : Nat} {text : List Char} (h : IsPhrase status text) : text ≠ [] := by
  have htable : ∀ e ∈ reasonPhrases, "" ∉ e.2 := by decide
  obtain ⟨e, he, -, phrase, hphrase, rfl⟩ := h
  intro hnil
  rw [String.toList_eq_nil_iff.mp hnil] at hphrase
  exact htable e he hphrase

theorem IsPhrase.registered {status : Nat} {text : List Char} (h : IsPhrase status text) :
    Registered status := by
  obtain ⟨e, he, hstatus, -⟩ := h
  exact ⟨e, he, hstatus⟩

end CekatEvents.Http

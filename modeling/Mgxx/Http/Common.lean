import Mathlib.Data.Int.Notation
import Mathlib.Data.List.Basic
import Mathlib.Data.Nat.Notation

/-!
Byte strings and views of them, and the table of status texts that the library
copies from mongoose.
-/

namespace Mgxx

/-- A `std::string` or `std::string_view`: any bytes, of any length. -/
abbrev Bytes := List UInt8

/-- The bytes of an ASCII literal of the source. -/
def text (s : String) : Bytes := s.toList.map fun c => UInt8.ofNat c.toNat

end Mgxx

namespace Mgxx.Http

/-- A `std::string_view` argument; only an empty one has no address. -/
structure StringView where
  address : Option ℕ
  data : Bytes
  null_empty : address = none → data = []

/-- The cases of `format_status_code`. -/
def statusTexts : List (ℤ × String) := [
  (100, "Continue"), (101, "Switching Protocols"), (102, "Processing"),
  (200, "OK"), (201, "Created"), (202, "Accepted"), (203, "Non-authoritative Information"),
  (204, "No Content"), (205, "Reset Content"), (206, "Partial Content"), (207, "Multi-Status"),
  (208, "Already Reported"), (226, "IM Used"),
  (300, "Multiple Choices"), (301, "Moved Permanently"), (302, "Found"), (303, "See Other"),
  (304, "Not Modified"), (305, "Use Proxy"), (307, "Temporary Redirect"),
  (308, "Permanent Redirect"),
  (400, "Bad Request"), (401, "Unauthorized"), (402, "Payment Required"), (403, "Forbidden"),
  (404, "Not Found"), (405, "Method Not Allowed"), (406, "Not Acceptable"),
  (407, "Proxy Authentication Required"), (408, "Request Timeout"), (409, "Conflict"),
  (410, "Gone"), (411, "Length Required"), (412, "Precondition Failed"),
  (413, "Payload Too Large"), (414, "Request-URI Too Long"), (415, "Unsupported Media Type"),
  (416, "Requested Range Not Satisfiable"), (417, "Expectation Failed"), (418, "I'm a teapot"),
  (421, "Misdirected Request"), (422, "Unprocessable Entity"), (423, "Locked"),
  (424, "Failed Dependency"), (426, "Upgrade Required"), (428, "Precondition Required"),
  (429, "Too Many Requests"), (431, "Request Header Fields Too Large"),
  (444, "Connection Closed Without Response"), (451, "Unavailable For Legal Reasons"),
  (499, "Client Closed Request"),
  (500, "Internal Server Error"), (501, "Not Implemented"), (502, "Bad Gateway"),
  (503, "Service Unavailable"), (504, "Gateway Timeout"), (505, "HTTP Version Not Supported"),
  (506, "Variant Also Negotiates"), (507, "Insufficient Storage"), (508, "Loop Detected"),
  (510, "Not Extended"), (511, "Network Authentication Required"),
  (599, "Network Connect Timeout Error")]

def formatStatusCode (code : ℤ) : Bytes := text ((statusTexts.lookup code).getD "")

/-- `std::format("HTTP/1.1 {} {}\r\n{}\r\n", code, format_status_code(code), headers)`:
the preamble of both kinds of stream. -/
def formatPreamble (code : ℤ) (headers : Bytes) : Bytes :=
  text "HTTP/1.1 " ++ text (toString code) ++ text " " ++ formatStatusCode code ++
    text "\r\n" ++ headers ++ text "\r\n"

end Mgxx.Http

import LibCoap.Machine.Exec
import LibCoap.Text.Decimal

/-! # Request paths

`uri.cc`: a path is split into segments, and segments are put together to a path. A path is the bytes
of a `std::string`; a segment is a string or, when the first segment begins with a byte from `0x30` to
`0x3F`, all segments are integers. -/

namespace LibCoap

open Machine

/-- `uri_type_t`. -/
inductive UriType where
  | integer
  | string
  deriving DecidableEq, Repr

/-- `uri_t`: of the two lists only the one of its type is filled. -/
structure UriValue where
  type : UriType
  asString : List (List UInt8)
  asInteger : List Int
  deriving DecidableEq, Repr

/-- `uri`. -/
structure Uri where
  path : List UInt8
  uri : UriValue
  deriving DecidableEq, Repr

/-- The byte `/`. -/
def slash : UInt8 := 0x2F

/-- One call of `strtok` with the delimiter `/`: the token, and the string behind it. -/
def strtok (s : List UInt8) : Option (List UInt8 × List UInt8) :=
  match s.dropWhile (· = slash) with
  | [] => none
  | c :: cs => some ((c :: cs).takeWhile (· ≠ slash), ((c :: cs).dropWhile (· ≠ slash)).drop 1)

/-- The calls of `strtok` up to the first that finds no token, at most `fuel` of them. -/
def strtokAll : Nat → List UInt8 → List (List UInt8)
  | 0, _ => []
  | fuel + 1, s =>
    match strtok s with
    | none => []
    | some (token, rest) => token :: strtokAll fuel rest

/-- `isspace`. -/
def isSpace (c : UInt8) : Bool := c = 0x20 || (0x09 ≤ c && c ≤ 0x0D)

/-- The value of the decimal digits at the front of a string. -/
def digitsValue (s : List UInt8) : Nat :=
  (s.takeWhile fun c => 0x30 ≤ c && c ≤ 0x39).foldl (fun v c => 10 * v + (c.toNat - 0x30)) 0

/-- `strtol(token, NULL, 10)`: leading white space and a sign are skipped, and a value out of range
is replaced by the nearest `long`. -/
def strtol (token : List UInt8) : Int :=
  let digits := token.dropWhile fun c => isSpace c
  let value : Int :=
    match digits with
    | 0x2D :: rest => -digitsValue rest
    | 0x2B :: rest => digitsValue rest
    | rest => digitsValue rest
  max (-9223372036854775808) (min 9223372036854775807 value)

/-- `uri::path_to_uri` on a `_uri` that holds nothing: `none` when it returns `false`. The copy made
by `strncpy` ends at the first NUL. -/
def pathToUri (path : List UInt8) : Option UriValue :=
  match strtokAll (path.length + 1) (path.takeWhile (· ≠ 0)) with
  | [] => none
  | first :: rest =>
    let type := match first with
      | c :: _ => if (c &&& 0xF0) ^^^ 0x30 = 0 then UriType.integer else .string
      | [] => .string
    match type with
    | .string => some ⟨.string, first :: rest, []⟩
    | .integer => some ⟨.integer, [], (first :: rest).map strtol⟩

/-- `uri::uri(std::string)`; the constructor throws when the path has no segment. -/
def Uri.ofPath (path : List UInt8) : Exec Uri :=
  match pathToUri path with
  | some uri => .ok ⟨path, uri⟩
  | none => .error .exception

/-- `uri::uri_to_path` on an empty `_path`; an integer is written by `std::to_string`. -/
def uriToPath (uri : UriValue) : List UInt8 :=
  match uri.type with
  | .string => uri.asString.foldl (fun path segment => path ++ slash :: segment) []
  | .integer => uri.asInteger.foldl (fun path segment => path ++ slash :: Text.numeral segment) []

/-- `uri::uri(uri::uri_t)`. -/
def Uri.ofValue (uri : UriValue) : Uri := ⟨uriToPath uri, uri⟩

end LibCoap

